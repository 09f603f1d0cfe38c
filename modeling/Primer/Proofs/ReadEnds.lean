import Primer.Proofs.ReadComplete

/-!
# Reading comes to an end

A reader takes tokens until it has what it reads or complains, and never passes the first end of the
text. Its fuel lasts: between two tokens readers nest less than eight deep, so eight for each token
that is left is enough, and more does not matter. Nor do tokens behind the first end of the text
(`Parse.reading_ends`).
-/

namespace Primer

namespace Cursor

/-- The tokens up to and with the first end of the text. -/
def upToEnd : List Token → List Token
  | [] => []
  | t :: ts => if t.kind = .eof then [t] else t :: upToEnd ts

/-- The same place among the tokens up to the first end of the text. -/
def cut (c : Cursor) : Cursor :=
  { c with following := if c.kind = .eof then [] else upToEnd c.following }

/-- How many tokens there are before the first end of the text. -/
def left (c : Cursor) : Nat := c.cut.following.length

/-- Tokens lead from a place to another, and none of them ends the text. -/
def Reaches (c c' : Cursor) : Prop := ∃ ts, c.Passes ts c' ∧ ∀ t ∈ ts, t.kind ≠ .eof

variable {c c' c'' : Cursor} {ts us tokens : List Token} {i : Nat}

theorem rest_cut : c.cut.rest = upToEnd c.rest := by
  have hcut : upToEnd c.rest =
      if c.kind = .eof then [c.current] else c.current :: upToEnd c.following := rfl
  rw [hcut]
  unfold rest cut
  split_ifs <;> rfl

theorem upToEnd_append (h : ∀ t ∈ ts, t.kind ≠ .eof) : upToEnd (ts ++ us) = ts ++ upToEnd us := by
  induction ts with
  | nil => rfl
  | cons t ts ih =>
    obtain ⟨ht, hts⟩ := List.forall_mem_cons.1 h
    simp [upToEnd, ht, ih hts]

theorem upToEnd_append_of_mem {t : Token} (h : t ∈ ts) (ht : t.kind = .eof) :
    upToEnd (ts ++ us) = upToEnd ts := by
  induction ts with
  | nil => cases h
  | cons u ts ih =>
    by_cases hu : u.kind = .eof
    · simp [upToEnd, hu]
    · obtain rfl | h := List.mem_cons.1 h
      · exact absurd ht hu
      · simp [upToEnd, hu, ih h]

theorem exists_eof_upToEnd : (∃ t ∈ upToEnd ts, t.kind = .eof) ↔ ∃ t ∈ ts, t.kind = .eof := by
  induction ts with
  | nil => rfl
  | cons t ts ih => by_cases ht : t.kind = .eof <;> simp_all [upToEnd]

theorem length_upToEnd_le (ts : List Token) : (upToEnd ts).length ≤ ts.length := by
  induction ts with
  | nil => simp [upToEnd]
  | cons t ts ih =>
    unfold upToEnd
    split_ifs <;> simp [ih]

theorem left_succ : (upToEnd c.rest).length = c.left + 1 := by
  rw [← rest_cut]
  rfl

theorem left_le : c.left ≤ c.following.length := by
  have h := length_upToEnd_le c.rest
  rw [left_succ] at h
  simpa [rest] using h

/-- Taking a token does not depend on what stands behind the first end of the text. -/
theorem cut_next : c.next.cut = c.cut.next := by
  obtain ⟨t, _ | ⟨u, us⟩, p⟩ := c
  · by_cases h : t.kind = .eof <;> simp [next, cut, kind, upToEnd, h]
  · by_cases h : t.kind = .eof <;> by_cases hu : u.kind = .eof <;>
      simp [next, cut, kind, upToEnd, h, hu]

theorem Passes.left (h : c.Passes ts c') (hts : ∀ t ∈ ts, t.kind ≠ .eof) :
    c.left = ts.length + c'.left := by
  have hl := left_succ (c := c)
  rw [h.rest, upToEnd_append hts, List.length_append, left_succ] at hl
  omega

theorem Reaches.refl (hc : c.Closed) : c.Reaches c := ⟨[], ⟨rfl, hc⟩, by simp⟩

theorem Reaches.closed (h : c.Reaches c') : c'.Closed := h.choose_spec.1.closed

theorem Reaches.trans (h : c.Reaches c') (h' : c'.Reaches c'') : c.Reaches c'' := by
  obtain ⟨ts, hts, hne⟩ := h
  obtain ⟨us, hus, hne'⟩ := h'
  exact ⟨ts ++ us, hts.trans hus, List.forall_mem_append.2 ⟨hne, hne'⟩⟩

theorem Reaches.left_le (h : c.Reaches c') : c'.left ≤ c.left := by
  obtain ⟨ts, hts, hne⟩ := h
  have := hts.left hne
  omega

theorem reaches_next (hc : c.Closed) (hk : c.kind ≠ .eof) :
    c.Reaches c.next ∧ c.next.left < c.left := by
  have hpass := passes_next hc hk
  have hne : ∀ t ∈ [c.current], t.kind ≠ .eof := by simpa [kind] using hk
  have hleft := hpass.left hne
  simp only [List.length_singleton] at hleft
  exact ⟨⟨_, hpass, hne⟩, by omega⟩

end Cursor

namespace Parse

open Cursor (Reaches)

variable {α β : Type} {c : Cursor} {Q R : α → Cursor → Prop}

/-- Two readers end alike, the one at a place among tokens and the other at the same place among
those up to the first end of the text: with what `Q` says or with a complaint about the grammar, and
not behind that end. -/
def Ends (x y : Parse α) (c : Cursor) (Q : α → Cursor → Prop) : Prop :=
  c.Closed → match x c with
    | .done a c' => y c.cut = .done a c'.cut ∧ c.Reaches c' ∧ Q a c'
    | .failed d c' => y c.cut = .failed d c'.cut ∧ c.Reaches c' ∧ d.fault.family = .syntactic
    | .exhausted => False

/-- Tokens were taken. -/
abbrev Fewer (c : Cursor) (_ : α) (c' : Cursor) : Prop := c'.left < c.left

/-- Tokens were taken or not. -/
def Any (_ : α) (_ : Cursor) : Prop := True

theorem Ends.imp {x y : Parse α} (h : Ends x y c Q)
    (hQ : ∀ a c', c'.left ≤ c.left → Q a c' → R a c') : Ends x y c R := by
  intro hc
  have h := h hc
  split at h
  · exact ⟨h.1, h.2.1, hQ _ _ h.2.1.left_le h.2.2⟩
  · exact h
  · exact h

theorem Ends.of_eq {x x' y : Parse α} (h : Ends x' y c Q) (hx : x c = x' c) : Ends x y c Q := by
  unfold Ends
  rw [hx]
  exact h

theorem Ends.bind {x y : Parse α} {f g : α → Parse β} {Q : β → Cursor → Prop} (h : Ends x y c R)
    (hf : ∀ a c', c'.left ≤ c.left → R a c' → Ends (f a) (g a) c' Q) :
    Ends (x >>= f) (y >>= g) c Q := by
  intro hc
  have h := h hc
  simp only [Effect.bind_apply]
  cases hx : x c with
  | done a c' =>
    rw [hx] at h
    obtain ⟨hy, hr, ha⟩ := h
    have hf := hf a c' hr.left_le ha hr.closed
    rw [hy]
    dsimp only
    split <;> rename_i heq <;> rw [heq] at hf
    · exact ⟨hf.1, hr.trans hf.2.1, hf.2.2⟩
    · exact ⟨hf.1, hr.trans hf.2.1, hf.2.2⟩
    · exact hf
  | failed d c' =>
    rw [hx] at h
    obtain ⟨hy, hr, hd⟩ := h
    rw [hy]
    exact ⟨rfl, hr, hd⟩
  | exhausted =>
    rw [hx] at h
    exact h.elim

theorem ends_pure {a : α} (h : Q a c) : Ends (pure a) (pure a) c Q :=
  fun hc => ⟨rfl, .refl hc, h⟩

theorem ends_fail {d : Diagnostic} (h : d.fault.family = .syntactic) :
    Ends (Effect.fail d) (Effect.fail d) c Q :=
  fun hc => ⟨rfl, .refl hc, h⟩

theorem ends_unexpected : Ends (unexpected : Parse α) unexpected c Q :=
  fun hc => ⟨rfl, .refl hc, rfl⟩

theorem ends_unexpectedDetailed {message : String} :
    Ends (unexpectedDetailed message : Parse α) (unexpectedDetailed message) c Q :=
  fun hc => ⟨rfl, .refl hc, rfl⟩

theorem ends_ofExcept {p : Position} {r : Except Fault α}
    (hf : ∀ f, r = .error f → f.family = .syntactic) (h : ∀ a, r = .ok a → Q a c) :
    Ends (Effect.ofExcept p r) (Effect.ofExcept p r) c Q := by
  cases r with
  | ok a => exact ends_pure (h a rfl)
  | error f => exact ends_fail (hf f rfl)

theorem ends_ofOption {p : Position} {fault : Fault} {r : Option α} (hf : fault.family = .syntactic)
    (h : ∀ a, r = some a → Q a c) :
    Ends (Effect.ofOption p fault r) (Effect.ofOption p fault r) c Q := by
  cases r with
  | some a => exact ends_pure (h a rfl)
  | none => exact ends_fail hf

/-! Looking at the current token or taking it, and going on. -/

section

variable {Q : β → Cursor → Prop}

theorem ends_kind {f g : TokenKind → Parse β} (h : Ends (f c.kind) (g c.kind) c Q) :
    Ends (kind >>= f) (kind >>= g) c Q := h

theorem ends_position {f g : Position → Parse β} (h : Ends (f c.position) (g c.position) c Q) :
    Ends (position >>= f) (position >>= g) c Q := h

theorem ends_spanFrom {p : Position} {f g : Span → Parse β}
    (h : Ends (f (c.spanFrom p)) (g (c.spanFrom p)) c Q) :
    Ends (spanFrom p >>= f) (spanFrom p >>= g) c Q := h

theorem ends_take {x : Parse Token} {f g : Token → Parse β} (hx : x c = .done c.current c.next)
    (hy : x c.cut = .done c.current c.cut.next) (hk : c.kind ≠ .eof)
    (h : c.next.left < c.left → Ends (f c.current) (g c.current) c.next Q) :
    Ends (x >>= f) (x >>= g) c Q := by
  intro hc
  obtain ⟨hr, hl⟩ := Cursor.reaches_next hc hk
  have hx : Ends x x c fun t c' => t = c.current ∧ c' = c.next := fun _ => by
    rw [hx, hy]
    exact ⟨by rw [Cursor.cut_next], hr, rfl, rfl⟩
  refine hx.bind ?_ hc
  rintro _ _ - ⟨rfl, rfl⟩
  exact h hl

theorem ends_advance {f g : Token → Parse β} (hk : c.kind ≠ .eof)
    (h : c.next.left < c.left → Ends (f c.current) (g c.current) c.next Q) :
    Ends (advance >>= f) (advance >>= g) c Q :=
  ends_take rfl rfl hk h

theorem ends_expect {k : TokenKind} {f g : Token → Parse β} (hk : k ≠ .eof)
    (h : c.next.left < c.left → Ends (f c.current) (g c.current) c.next Q) :
    Ends (expect k >>= f) (expect k >>= g) c Q := by
  by_cases hc : c.kind = k
  · exact ends_take (if_pos hc) (if_pos hc) (hc ▸ hk) h
  · refine Ends.bind (R := fun _ _ => False) (fun hclosed => ?_) fun _ _ _ h => h.elim
    rw [show expect k c = .failed c.unexpected c from if_neg hc]
    exact ⟨if_neg hc, .refl hclosed, rfl⟩

theorem ends_expectDetailed {k : TokenKind} {message : String} {f g : Token → Parse β}
    (hk : k ≠ .eof) (h : c.next.left < c.left → Ends (f c.current) (g c.current) c.next Q) :
    Ends (expectDetailed k message >>= f) (expectDetailed k message >>= g) c Q := by
  by_cases hc : c.kind = k
  · exact ends_take (if_pos hc) (if_pos hc) (hc ▸ hk) h
  · refine Ends.bind (R := fun _ _ => False) (fun hclosed => ?_) fun _ _ _ h => h.elim
    rw [show expectDetailed k message c = .failed (c.unexpectedDetailed message) c from if_neg hc]
    exact ⟨if_neg hc, .refl hclosed, rfl⟩

end

end Parse

namespace Grammar

open Parse

variable {n m : Nat} {c : Cursor}

/-! ## Types -/

theorem arrays_ends {ty : Ty} (h : 8 * c.left + 1 ≤ min n m) :
    Ends (arrays n ty) (arrays m ty) c Any := by
  induction n generalizing m ty c with
  | zero => omega
  | succ n ih =>
    obtain ⟨m, rfl⟩ : ∃ k, m = k + 1 := ⟨m - 1, by omega⟩
    refine ends_kind ?_
    split_ifs with hk
    · refine ends_advance (by simp [hk]) fun h₁ => ends_expect (by simp) fun h₂ => ?_
      cases ty <;> first
        | exact ih (by omega)
        | exact ends_fail rfl
    · exact ends_pure trivial

theorem type_ends (h : 8 * c.left + 1 ≤ min n m) : Ends (type n) (type m) c (Fewer c) := by
  induction n generalizing m c with
  | zero => omega
  | succ n ih =>
    obtain ⟨m, rfl⟩ : ∃ k, m = k + 1 := ⟨m - 1, by omega⟩
    refine ends_kind ?_
    split
    case h_1 hk =>
      refine ends_advance (by simp [hk]) fun h₁ => ?_
      refine (ends_ofOption rfl fun _ _ => trivial).bind (R := Any) fun ty c' h₂ _ => ?_
      exact (arrays_ends (by omega)).imp fun _ _ h₃ _ => by omega
    case h_2 hk =>
      refine ends_advance (by simp [hk]) fun h₁ => ends_expect (by simp) fun h₂ => ?_
      refine (ih (by omega)).bind fun elem c₁ h₃ _ => ends_expect (by simp) fun h₄ => ?_
      refine (ends_ofOption rfl fun _ _ => trivial).bind (R := Any) fun ty c' h₅ _ => ?_
      exact (arrays_ends (by omega)).imp fun _ _ h₃ _ => by omega
    case h_3 => exact ends_unexpectedDetailed

theorem valueType_ends (h : 8 * c.left + 1 ≤ min n m) :
    Ends (valueType n) (valueType m) c (Fewer c) := by
  refine ends_position ((type_ends h).bind fun ty c' _ hf => ?_)
  split_ifs
  · exact ends_fail rfl
  · exact ends_pure hf

/-! ## Expressions -/

theorem ofToken_syntactic {t : Token} {f : Fault} (h : ofToken t = .error f) :
    f.family = .syntactic := by
  unfold ofToken at h
  repeat' split at h
  all_goals cases h
  all_goals rfl

theorem indexed_syntactic {e i : Expr} {span : Span} {f : Fault}
    (h : indexed e i span = .error f) : f.family = .syntactic := by
  cases e <;> cases h
  rfl

theorem primary_ends (hk : c.kind ≠ .eof) : Ends primary primary c (Fewer c) :=
  ends_advance hk fun h₁ => ends_ofExcept (fun _ => ofToken_syntactic) fun _ _ => h₁

theorem listBase_ends (h : 8 * c.left ≤ min n m) : Ends (listBase n) (listBase m) c Any := by
  refine ends_kind ?_
  split_ifs with hk
  · refine ends_advance (by simp [hk]) fun h₁ => ends_position ?_
    refine (type_ends (by omega)).bind fun ty c' _ _ => ends_expect (by simp) fun _ => ?_
    exact (ends_ofOption rfl fun _ _ => trivial).bind (R := Any) fun _ _ _ _ => ends_pure trivial
  · exact ends_pure trivial

theorem newList_ends (hk : c.kind ≠ .eof) (h : 8 * c.left ≤ min n m) :
    Ends (newList n) (newList m) c (Fewer c) := by
  refine ends_advance hk fun h₁ => ends_expectDetailed (by simp) fun h₂ => ?_
  refine (listBase_ends (by omega)).bind fun base c' h₃ _ => ?_
  refine ends_expect (by simp) fun h₄ => ends_expect (by simp) fun h₅ => ends_spanFrom ?_
  exact ends_pure (by omega)

/-- The readers of expressions end, given fuel `n` or any other that lasts. -/
structure ExprEnds (n : Nat) : Prop where
  expr : ∀ {m p c}, 8 * c.left + 3 ≤ min n m → Ends (expr n p) (expr m p) c (Fewer c)
  head : ∀ {m c}, 8 * c.left + 2 ≤ min n m → Ends (head n) (head m) c (Fewer c)
  parenthesised : ∀ {m c}, c.kind ≠ .eof → 8 * c.left + 1 ≤ min n m →
    Ends (parenthesised n) (parenthesised m) c (Fewer c)
  tail : ∀ {m p e c}, 8 * c.left + 2 ≤ min n m → Ends (tail n p e) (tail m p e) c Any
  extension : ∀ {m e c}, 8 * c.left + 1 ≤ min n m →
    Ends (extension n e) (extension m e) c (Fewer c)
  arguments : ∀ {m closing c}, closing ≠ .eof → 8 * c.left + 4 ≤ min n m →
    Ends (arguments n closing) (arguments m closing) c (Fewer c)

namespace ExprEnds

variable (ih : ExprEnds n)
include ih

theorem expr_succ {p : Power} (h : 8 * c.left + 3 ≤ min (n + 1) m) :
    Ends (Grammar.expr (n + 1) p) (Grammar.expr m p) c (Fewer c) := by
  obtain ⟨m, rfl⟩ : ∃ k, m = k + 1 := ⟨m - 1, by omega⟩
  refine (ih.head (by omega)).bind fun e c' _ hf => ?_
  exact (ih.tail (by omega)).imp fun _ _ _ _ => by omega

theorem parenthesised_succ (hk : c.kind ≠ .eof) (h : 8 * c.left + 1 ≤ min (n + 1) m) :
    Ends (Grammar.parenthesised (n + 1)) (Grammar.parenthesised m) c (Fewer c) := by
  obtain ⟨m, rfl⟩ : ∃ k, m = k + 1 := ⟨m - 1, by omega⟩
  refine ends_advance hk fun h₁ => ends_kind ?_
  split_ifs
  · refine (type_ends (by omega)).bind fun ty c' _ _ => ends_expect (by simp) fun _ => ?_
    refine (ih.expr (by omega)).bind fun e c'' _ _ => ends_pure ?_
    omega
  · refine (ih.expr (by omega)).bind fun e c' _ _ => ends_expect (by simp) fun _ => ?_
    refine ends_spanFrom (ends_pure ?_)
    omega

theorem head_succ (h : 8 * c.left + 2 ≤ min (n + 1) m) :
    Ends (Grammar.head (n + 1)) (Grammar.head m) c (Fewer c) := by
  obtain ⟨m, rfl⟩ : ∃ k, m = k + 1 := ⟨m - 1, by omega⟩
  have hmark : ∀ f : Position → Expr → Expr, c.kind ≠ .eof →
      Ends (do
          let start := (← advance).span.start
          let operand ← Grammar.expr n .unary
          return f start operand)
        (do
          let start := (← advance).span.start
          let operand ← Grammar.expr m .unary
          return f start operand) c (Fewer c) := fun f hk => by
    refine ends_advance hk fun h₁ => (ih.expr (by omega)).bind fun e c' _ _ => ends_pure ?_
    omega
  refine ends_kind ?_
  split
  case h_7 hk => exact hmark (fun start e => .negate ⟨start, e.span.stop⟩ e) (by simp [hk])
  case h_8 hk => exact hmark (fun start e => .not ⟨start, e.span.stop⟩ e) (by simp [hk])
  case h_9 hk => exact ih.parenthesised (by simp [hk]) (by omega)
  case h_10 hk =>
    refine ends_advance (by simp [hk]) fun h₁ => ends_kind ?_
    refine (ih.arguments (by simp) (by omega)).bind fun es c' _ _ => ends_spanFrom (ends_pure ?_)
    omega
  case h_11 hk => exact newList_ends (by simp [hk]) (by omega)
  case h_12 => exact ends_unexpected
  all_goals
    rename_i hk
    exact primary_ends (by simp [hk])

theorem tail_succ {p : Power} {e : Expr} (h : 8 * c.left + 2 ≤ min (n + 1) m) :
    Ends (Grammar.tail (n + 1) p e) (Grammar.tail m p e) c Any := by
  obtain ⟨m, rfl⟩ : ∃ k, m = k + 1 := ⟨m - 1, by omega⟩
  refine ends_kind ?_
  split_ifs
  · refine (ih.extension (by omega)).bind fun e' c' _ hf => ih.tail ?_
    omega
  · exact ends_pure trivial

theorem arguments_succ {closing : TokenKind} (hne : closing ≠ .eof)
    (h : 8 * c.left + 4 ≤ min (n + 1) m) :
    Ends (Grammar.arguments (n + 1) closing) (Grammar.arguments m closing) c (Fewer c) := by
  obtain ⟨m, rfl⟩ : ∃ k, m = k + 1 := ⟨m - 1, by omega⟩
  refine ends_kind ?_
  split_ifs with hk
  · exact ends_advance (hk ▸ hne) fun h₁ => ends_pure h₁
  · refine (ih.expr (by omega)).bind fun e c₁ _ hf => ends_kind ?_
    split_ifs with hk
    · refine ends_advance (hk ▸ hne) fun _ => ends_pure ?_
      omega
    · refine ends_expect (by simp) fun _ => ?_
      refine (ih.arguments hne (by omega)).bind fun es c' _ _ => ends_pure ?_
      omega

theorem extension_succ {left : Expr} (h : 8 * c.left + 1 ≤ min (n + 1) m) :
    Ends (Grammar.extension (n + 1) left) (Grammar.extension m left) c (Fewer c) := by
  obtain ⟨m, rfl⟩ : ∃ k, m = k + 1 := ⟨m - 1, by omega⟩
  refine ends_kind ?_
  split
  case h_1 op hop =>
    have hk : c.kind ≠ .eof := fun hk => by
      rw [hk] at hop
      cases hop
    refine ends_advance hk fun h₁ => (ih.expr (by omega)).bind fun e c' _ _ => ends_pure ?_
    omega
  case h_2 hk =>
    split
    · refine ends_advance (by simp [hk]) fun h₁ => ?_
      refine (ih.arguments (by simp) (by omega)).bind fun es c' _ _ => ends_spanFrom (ends_pure ?_)
      omega
    · exact ends_unexpectedDetailed
  case h_3 hk =>
    refine ends_advance (by simp [hk]) fun h₁ => (ih.expr (by omega)).bind fun e c' _ _ => ?_
    refine ends_expect (by simp) fun _ => ends_spanFrom ?_
    refine ends_ofExcept (fun _ => indexed_syntactic) fun _ _ => ?_
    omega
  case h_4 hk =>
    refine ends_advance (by simp [hk]) fun h₁ => ends_expectDetailed (by simp) fun _ => ?_
    refine ends_expect (by simp) fun _ => ?_
    refine (ih.arguments (by simp) (by omega)).bind fun es c' _ _ => ends_spanFrom (ends_pure ?_)
    omega
  case h_5 => exact ends_unexpected

end ExprEnds

theorem exprEnds (n : Nat) : ExprEnds n := by
  induction n with
  | zero => constructor <;> intros <;> omega
  | succ n ih =>
    exact {
      expr := ih.expr_succ
      head := ih.head_succ
      parenthesised := ih.parenthesised_succ
      tail := ih.tail_succ
      extension := ih.extension_succ
      arguments := ih.arguments_succ }

theorem expr_ends {p : Power} (h : 8 * c.left + 3 ≤ min n m) :
    Ends (expr n p) (expr m p) c (Fewer c) :=
  (exprEnds n).expr h

theorem arguments_ends {closing : TokenKind} (hne : closing ≠ .eof)
    (h : 8 * c.left + 4 ≤ min n m) : Ends (arguments n closing) (arguments m closing) c (Fewer c) :=
  (exprEnds n).arguments hne h

/-! ## Statements -/

theorem simple_ends (h : 8 * c.left + 3 ≤ min n m) : Ends (simple n) (simple m) c (Fewer c) := by
  refine ends_position ((expr_ends h).bind fun e c' _ hf => ends_kind ?_)
  have hstep : ∀ up : Bool, c'.kind ≠ .eof → Ends (do
        let _ ← advance
        return Stmt.step (← spanFrom c.position) e up)
      (do
        let _ ← advance
        return Stmt.step (← spanFrom c.position) e up) c' (Fewer c) := fun up hk =>
    ends_advance hk fun _ => ends_spanFrom (ends_pure (by omega))
  split
  case h_1 hk =>
    split_ifs
    · refine ends_advance (by simp [hk]) fun _ => (expr_ends (by omega)).bind fun v c'' _ _ => ?_
      exact ends_spanFrom (ends_pure (by omega))
    · exact ends_unexpectedDetailed
  case h_2 hk =>
    split_ifs
    · exact hstep true (by simp [hk])
    · exact ends_unexpectedDetailed
  case h_3 hk =>
    split_ifs
    · exact hstep false (by simp [hk])
    · exact ends_unexpectedDetailed
  case h_4 => exact ends_spanFrom (ends_pure hf)

theorem declaration_ends (h : 8 * c.left ≤ min n m) :
    Ends (declaration n) (declaration m) c (Fewer c) := by
  refine ends_expect (by simp) fun h₁ => ends_expectDetailed (by simp) fun h₂ => ?_
  refine ends_expectDetailed (by simp) fun h₃ => ?_
  refine (valueType_ends (by omega)).bind fun ty c' _ _ => ends_kind ?_
  split_ifs with hk
  · refine ends_advance (by simp [hk]) fun _ => (expr_ends (by omega)).bind fun v c'' _ _ => ?_
    exact ends_spanFrom (ends_pure (by omega))
  · exact ends_spanFrom (ends_pure (by omega))

theorem condition_ends (h : 8 * c.left ≤ min n m) :
    Ends (condition n) (condition m) c (Fewer c) := by
  refine ends_expect (by simp) fun h₁ => (expr_ends (by omega)).bind fun e c' _ _ => ?_
  exact ends_expect (by simp) fun _ => ends_pure (by omega)

theorem jump_ends {make : Span → Stmt} (hk : c.kind ≠ .eof) :
    Ends (jump make) (jump make) c (Fewer c) :=
  ends_advance hk fun h₁ => ends_expect (by simp) fun h₂ =>
    ends_spanFrom (ends_pure (by omega))

theorem giveBack_ends (hk : c.kind ≠ .eof) (h : 8 * c.left ≤ min n m) :
    Ends (giveBack n) (giveBack m) c (Fewer c) := by
  refine ends_advance hk fun h₁ => ends_kind ?_
  split_ifs with hk
  · exact ends_advance (by simp [hk]) fun _ =>
      ends_spanFrom (ends_pure (by omega))
  · refine (expr_ends (by omega)).bind fun e c' _ _ => ends_expect (by simp) fun _ => ?_
    exact ends_spanFrom (ends_pure (by omega))

theorem print_ends (hk : c.kind ≠ .eof) (h : 8 * c.left ≤ min n m) :
    Ends (print n) (print m) c (Fewer c) := by
  refine ends_advance hk fun h₁ => (condition_ends (by omega)).bind fun e c' _ _ => ?_
  refine ends_expect (by simp) fun _ => ends_spanFrom (ends_pure ?_)
  omega

theorem start_ends (hk : c.kind ≠ .eof) (h : 8 * c.left ≤ min n m) :
    Ends (start n) (start m) c (Fewer c) := by
  refine ends_advance hk fun h₁ => ends_expectDetailed (by simp) fun h₂ => ?_
  refine ends_expect (by simp) fun h₃ => ?_
  refine (arguments_ends (by simp) (by omega)).bind fun es c' _ _ => ?_
  refine ends_expect (by simp) fun _ => ends_spanFrom (ends_pure ?_)
  omega

theorem parameters_ends (h : 8 * c.left + 2 ≤ min n m) :
    Ends (parameters n) (parameters m) c (Fewer c) := by
  induction n generalizing m c with
  | zero => omega
  | succ n ih =>
    obtain ⟨m, rfl⟩ : ∃ k, m = k + 1 := ⟨m - 1, by omega⟩
    refine ends_kind ?_
    split_ifs with hk
    · exact ends_advance (by simp [hk]) fun h₁ => ends_pure h₁
    · refine ends_position ((valueType_ends (by omega)).bind fun ty c₁ _ hf => ?_)
      refine ends_expectDetailed (by simp) fun _ => ends_kind ?_
      split_ifs with hk
      · exact ends_advance (by simp [hk]) fun _ => ends_pure (by omega)
      · refine ends_expect (by simp) fun _ => (ih (by omega)).bind fun ps c' _ _ => ends_pure ?_
        omega

theorem forFirst_ends (h : 8 * c.left + 3 ≤ min n m) : Ends (forFirst n) (forFirst m) c Any := by
  refine ends_kind ?_
  split
  · exact ends_pure trivial
  · exact (declaration_ends (by omega)).bind fun _ _ _ _ => ends_pure trivial
  · exact (simple_ends h).bind fun _ _ _ _ => ends_pure trivial

theorem forCondition_ends (h : 8 * c.left + 3 ≤ min n m) :
    Ends (forCondition n) (forCondition m) c Any := by
  refine ends_kind ?_
  split_ifs
  · exact ends_pure trivial
  · exact (expr_ends h).bind fun _ _ _ _ => ends_pure trivial

theorem forNext_ends (h : 8 * c.left + 3 ≤ min n m) : Ends (forNext n) (forNext m) c Any := by
  refine ends_kind ?_
  split_ifs
  · exact ends_pure trivial
  · exact (simple_ends h).bind fun _ _ _ _ => ends_pure trivial

/-- The readers of statements end, given fuel `n` or any other that lasts. -/
structure StmtEnds (n : Nat) : Prop where
  stmt : ∀ {m c}, 8 * c.left + 4 ≤ min n m → Ends (stmt n) (stmt m) c (Fewer c)
  stmts : ∀ {m ends c}, ends .eof = true → 8 * c.left + 5 ≤ min n m →
    Ends (stmts n ends) (stmts m ends) c fun _ c' => ends c'.kind = true
  block : ∀ {m c}, 8 * c.left + 1 ≤ min n m → Ends (block n) (block m) c (Fewer c)
  branch : ∀ {m c}, c.kind ≠ .eof → 8 * c.left + 1 ≤ min n m →
    Ends (branch n) (branch m) c (Fewer c)
  switch : ∀ {m c}, c.kind ≠ .eof → 8 * c.left + 1 ≤ min n m →
    Ends (switch n) (switch m) c (Fewer c)
  cases : ∀ {m c}, 8 * c.left + 1 ≤ min n m → Ends (cases n) (cases m) c Any
  fallback : ∀ {m c}, 8 * c.left + 1 ≤ min n m → Ends (fallback n) (fallback m) c Any
  function : ∀ {m c}, 8 * c.left + 2 ≤ min n m → Ends (function n) (function m) c (Fewer c)

namespace StmtEnds

variable (ih : StmtEnds n)
include ih

theorem stmts_succ {ends : TokenKind → Bool} (he : ends .eof = true)
    (h : 8 * c.left + 5 ≤ min (n + 1) m) :
    Ends (Grammar.stmts (n + 1) ends) (Grammar.stmts m ends) c fun _ c' => ends c'.kind = true := by
  obtain ⟨m, rfl⟩ : ∃ k, m = k + 1 := ⟨m - 1, by omega⟩
  refine ends_kind ?_
  split_ifs with hk
  · exact ends_pure hk
  · refine (ih.stmt (by omega)).bind fun s c₁ _ hf => ?_
    exact (ih.stmts he (by omega)).bind fun _ _ _ hk => ends_pure hk

theorem block_succ (h : 8 * c.left + 1 ≤ min (n + 1) m) :
    Ends (Grammar.block (n + 1)) (Grammar.block m) c (Fewer c) := by
  obtain ⟨m, rfl⟩ : ∃ k, m = k + 1 := ⟨m - 1, by omega⟩
  refine ends_expect (by simp) fun h₁ => (ih.stmts rfl (by omega)).bind fun body c' _ _ => ?_
  refine ends_expect (by simp) fun _ => ends_spanFrom (ends_pure ?_)
  omega

theorem branch_succ (hk : c.kind ≠ .eof) (h : 8 * c.left + 1 ≤ min (n + 1) m) :
    Ends (Grammar.branch (n + 1)) (Grammar.branch m) c (Fewer c) := by
  obtain ⟨m, rfl⟩ : ∃ k, m = k + 1 := ⟨m - 1, by omega⟩
  refine ends_advance hk fun h₁ => (condition_ends (by omega)).bind fun test c₁ _ _ => ?_
  refine (ih.block (by omega)).bind fun body c₂ _ _ => ends_kind ?_
  split_ifs with helse
  · refine ends_advance (by simp [helse]) fun _ => ends_kind ?_
    split_ifs with hif
    · refine (ih.branch (by simp [hif]) (by omega)).bind fun other c' _ _ => ?_
      exact ends_spanFrom (ends_pure (by omega))
    · refine (ih.block (by omega)).bind fun other c' _ _ => ?_
      exact ends_spanFrom (ends_pure (by omega))
  · exact ends_spanFrom (ends_pure (by omega))

theorem switch_succ (hk : c.kind ≠ .eof) (h : 8 * c.left + 1 ≤ min (n + 1) m) :
    Ends (Grammar.switch (n + 1)) (Grammar.switch m) c (Fewer c) := by
  obtain ⟨m, rfl⟩ : ∃ k, m = k + 1 := ⟨m - 1, by omega⟩
  refine ends_advance hk fun h₁ => (condition_ends (by omega)).bind fun test c₁ _ _ => ?_
  refine ends_expect (by simp) fun _ => (ih.cases (by omega)).bind fun cases c₂ _ _ => ?_
  refine (ih.fallback (by omega)).bind fun fallback c₃ _ _ => ?_
  refine ends_expectDetailed (by simp) fun _ => ends_spanFrom (ends_pure ?_)
  omega

theorem cases_succ (h : 8 * c.left + 1 ≤ min (n + 1) m) :
    Ends (Grammar.cases (n + 1)) (Grammar.cases m) c Any := by
  obtain ⟨m, rfl⟩ : ∃ k, m = k + 1 := ⟨m - 1, by omega⟩
  refine ends_kind ?_
  split_ifs with hk
  · refine ends_advance (by simp [hk]) fun h₁ => (expr_ends (by omega)).bind fun value c₁ _ _ => ?_
    refine ends_expect (by simp) fun _ => (ih.stmts rfl (by omega)).bind fun body c₂ _ _ => ?_
    exact ends_spanFrom ((ih.cases (by omega)).bind fun _ _ _ _ => ends_pure trivial)
  · exact ends_pure trivial

theorem fallback_succ (h : 8 * c.left + 1 ≤ min (n + 1) m) :
    Ends (Grammar.fallback (n + 1)) (Grammar.fallback m) c Any := by
  obtain ⟨m, rfl⟩ : ∃ k, m = k + 1 := ⟨m - 1, by omega⟩
  refine ends_kind ?_
  split_ifs with hk
  · refine ends_advance (by simp [hk]) fun h₁ => ends_expect (by simp) fun h₂ => ?_
    exact (ih.stmts rfl (by omega)).bind fun _ _ _ _ => ends_pure trivial
  · exact ends_pure trivial

theorem function_succ (h : 8 * c.left + 2 ≤ min (n + 1) m) :
    Ends (Grammar.function (n + 1)) (Grammar.function m) c (Fewer c) := by
  obtain ⟨m, rfl⟩ : ∃ k, m = k + 1 := ⟨m - 1, by omega⟩
  refine ends_position ((type_ends (by omega)).bind fun ty c₁ _ hf => ?_)
  refine ends_expectDetailed (by simp) fun _ => ends_expect (by simp) fun _ => ?_
  refine (parameters_ends (by omega)).bind fun ps c₂ _ _ => ?_
  refine (ih.block (by omega)).bind fun body c' _ _ => ends_spanFrom (ends_pure ?_)
  omega

theorem stmt_succ (h : 8 * c.left + 4 ≤ min (n + 1) m) :
    Ends (Grammar.stmt (n + 1)) (Grammar.stmt m) c (Fewer c) := by
  obtain ⟨m, rfl⟩ : ∃ k, m = k + 1 := ⟨m - 1, by omega⟩
  refine ends_kind ?_
  split
  case h_1 =>
    refine (declaration_ends (by omega)).bind fun s c' _ hf => ends_expect (by simp) fun _ => ?_
    exact ends_pure (by omega)
  case h_4 hk => exact ih.branch (by simp [hk]) (by omega)
  case h_5 hk => exact ih.switch (by simp [hk]) (by omega)
  case h_6 hk =>
    refine ends_advance (by simp [hk]) fun h₁ => ?_
    refine (condition_ends (by omega)).bind fun test c₁ _ _ => ?_
    refine (ih.block (by omega)).bind fun body c' _ _ => ends_spanFrom (ends_pure ?_)
    omega
  case h_7 hk =>
    refine ends_advance (by simp [hk]) fun h₁ => (ih.block (by omega)).bind fun body c₁ _ _ => ?_
    refine ends_expect (by simp) fun _ => (condition_ends (by omega)).bind fun test c₂ _ _ => ?_
    refine ends_expect (by simp) fun _ => ends_spanFrom (ends_pure ?_)
    omega
  case h_8 hk =>
    refine ends_advance (by simp [hk]) fun h₁ => ends_expect (by simp) fun h₂ => ?_
    refine (forFirst_ends (by omega)).bind fun first c₁ _ _ => ends_expect (by simp) fun _ => ?_
    refine (forCondition_ends (by omega)).bind fun test c₂ _ _ => ends_expect (by simp) fun _ => ?_
    refine (forNext_ends (by omega)).bind fun next c₃ _ _ => ends_expect (by simp) fun _ => ?_
    refine (ih.block (by omega)).bind fun body c' _ _ => ends_spanFrom (ends_pure ?_)
    omega
  case h_9 => exact (ih.block (by omega)).bind fun _ _ _ hf => ends_pure hf
  case h_10 hk => exact jump_ends (by simp [hk])
  case h_11 hk => exact jump_ends (by simp [hk])
  case h_12 hk => exact giveBack_ends (by simp [hk]) (by omega)
  case h_13 hk => exact start_ends (by simp [hk]) (by omega)
  case h_14 hk => exact print_ends (by simp [hk]) (by omega)
  case h_15 =>
    refine (simple_ends (by omega)).bind fun s c' _ hf => ends_expect (by simp) fun _ => ?_
    exact ends_pure (by omega)
  all_goals exact (ih.function (by omega)).bind fun _ _ _ hf => ends_pure hf

end StmtEnds

theorem stmtEnds (n : Nat) : StmtEnds n := by
  induction n with
  | zero => constructor <;> intros <;> omega
  | succ n ih =>
    exact {
      stmt := ih.stmt_succ
      stmts := ih.stmts_succ
      block := ih.block_succ
      branch := ih.branch_succ
      switch := ih.switch_succ
      cases := ih.cases_succ
      fallback := ih.fallback_succ
      function := ih.function_succ }

end Grammar

/-! ## Places among tokens -/

namespace Cursor

/-- The cursor stands on token number `i`, and no token before it ends the text. -/
structure At (tokens : List Token) (i : Nat) (c : Cursor) : Prop where
  rest : tokens.drop i = c.rest
  before : ∀ t ∈ tokens.take i, t.kind ≠ .eof

variable {c c' : Cursor} {tokens tokens' : List Token} {i : Nat}

theorem rest_ofTokens (tokens : List Token) : (ofTokens tokens).rest = closed tokens := by
  unfold ofTokens
  split
  · rename_i h
    have hne : closed tokens ≠ [] := by
      unfold closed
      split
      · simp
      · rename_i t ht
        split_ifs
        · rintro rfl
          cases ht
        · simp
    exact absurd h hne
  · rename_i h
    exact h.symm

theorem rest_ofTokens_eof (tokens : List Token) (p : Position) :
    (ofTokens (tokens ++ [Token.eof p])).rest = tokens ++ [Token.eof p] := by
  rw [rest_ofTokens, closed, List.getLast?_concat]
  exact if_pos rfl

theorem ofTokens_at (tokens : List Token) : At (closed tokens) 0 (ofTokens tokens) :=
  ⟨(rest_ofTokens tokens).symm, by simp⟩

theorem At.closed (h : At (closed tokens) i c) : c.Closed := by
  obtain ⟨ts, t, hts, ht⟩ := closed_of_rest (rest_ofTokens tokens)
  rw [rest_ofTokens] at hts
  have hr := h.rest
  rw [hts] at hr
  have hi : i ≤ ts.length := by
    have := congrArg List.length hr
    simp only [List.length_drop, List.length_append, Cursor.rest, List.length_cons,
      List.length_nil] at this
    omega
  rw [List.drop_append_of_le_length hi] at hr
  exact ⟨_, t, hr.symm, ht⟩

theorem At.reaches (h : At tokens i c) (hr : c.Reaches c') :
    ∃ j, At tokens j c' ∧ j + c'.left = i + c.left := by
  obtain ⟨ts, hts, hne⟩ := hr
  have hleft := hts.left hne
  have hdrop : tokens.drop i = ts ++ c'.rest := h.rest.trans hts.rest
  refine ⟨i + ts.length, ⟨?_, ?_⟩, by omega⟩
  · rw [← List.drop_drop, hdrop, List.drop_left]
  · rw [List.take_add, hdrop, List.take_left]
    exact List.forall_mem_append.2 ⟨h.before, hne⟩

theorem cut_ofTokens_congr (h : upToEnd (Cursor.closed tokens') = upToEnd (Cursor.closed tokens)) :
    (ofTokens tokens').cut = (ofTokens tokens).cut := by
  have hlast : ∀ ts, (ofTokens ts).lastEnd? = none := fun ts => by
    unfold ofTokens
    split <;> rfl
  rw [← rest_ofTokens, ← rest_ofTokens, ← rest_cut, ← rest_cut] at h
  obtain ⟨hc, hf⟩ := List.cons.inj h
  unfold cut at *
  congr 1
  rw [hlast, hlast]

/-- An end that is added behind another one does not count. -/
theorem upToEnd_closed {t : Token} (h : t ∈ tokens) (ht : t.kind = .eof) :
    upToEnd (Cursor.closed tokens) = upToEnd tokens := by
  unfold Cursor.closed
  split
  · rename_i hnone
    rw [List.getLast?_eq_none_iff.1 hnone] at h
    cases h
  · split_ifs
    · rfl
    · exact upToEnd_append_of_mem h ht

/-- Lists that agree up to the first end of the text agree up to it when a missing one is added. -/
theorem upToEnd_closed_congr (h : upToEnd tokens' = upToEnd tokens) :
    upToEnd (Cursor.closed tokens') = upToEnd (Cursor.closed tokens) := by
  by_cases he : ∃ t ∈ tokens, t.kind = .eof
  · have he' := h ▸ exists_eof_upToEnd.2 he
    obtain ⟨t', hmem', ht'⟩ := exists_eof_upToEnd.1 he'
    obtain ⟨t, hmem, ht⟩ := he
    rw [upToEnd_closed hmem ht, upToEnd_closed hmem' ht', h]
  · have he' : ¬∃ t ∈ tokens', t.kind = .eof := by rwa [← exists_eof_upToEnd, h, exists_eof_upToEnd]
    push Not at he he'
    rw [← List.append_nil tokens, ← List.append_nil tokens', upToEnd_append he,
      upToEnd_append he'] at h
    simp only [upToEnd, List.append_nil] at h
    rw [h]

end Cursor

namespace Parse

variable {α : Type} {c : Cursor} {tokens : List Token} {i : Nat}

/-- From token number `i` on, a reader takes tokens for what it gives or complains about the
grammar, and it does not pass the first end of the text. -/
def Settles (x : Parse α) (tokens : List Token) (i : Nat) : Prop :=
  ∀ c, Cursor.At tokens i c →
    (∃ a c' j, x c = .done a c' ∧ Cursor.At tokens j c' ∧ i < j) ∨
      ∃ d c' j, x c = .failed d c' ∧ d.fault.family = .syntactic ∧ Cursor.At tokens j c' ∧ i ≤ j

theorem settles {x : Parse α} {y : Cursor → Parse α} (h : ∀ c, Ends x (y c) c (Fewer c)) :
    Settles x (Cursor.closed tokens) i := by
  intro c hc
  have h := h c hc.closed
  split at h
  · obtain ⟨-, hr, hf⟩ := h
    obtain ⟨j, hj, hsum⟩ := hc.reaches hr
    exact .inl ⟨_, _, j, ‹_›, hj, by omega⟩
  · obtain ⟨-, hr, hd⟩ := h
    obtain ⟨j, hj, hsum⟩ := hc.reaches hr
    have := hr.left_le
    exact .inr ⟨_, _, j, ‹_›, hd, hj, by omega⟩
  · exact h.elim

theorem left_le_fuel (c : Cursor) : 8 * c.left + 8 ≤ c.fuel := by
  have := c.left_le
  unfold Cursor.fuel
  omega

theorem stmt_ends (c : Cursor) : Ends stmt (Grammar.stmt c.fuel) c (Fewer c) := by
  have := left_le_fuel c
  exact ((Grammar.stmtEnds c.fuel).stmt (m := c.fuel) (by omega)).of_eq rfl

theorem expr_ends (p : Power) (c : Cursor) : Ends (expr p) (Grammar.expr c.fuel p) c (Fewer c) := by
  have := left_le_fuel c
  exact (Grammar.expr_ends (n := c.fuel) (m := c.fuel) (by omega)).of_eq rfl

theorem type_ends (c : Cursor) : Ends type (Grammar.type c.fuel) c (Fewer c) := by
  have := left_le_fuel c
  exact (Grammar.type_ends (n := c.fuel) (m := c.fuel) (by omega)).of_eq rfl

/-- Whatever fuel lasts, the same program is read. -/
theorem program_ends {n : Nat} (h : 8 * c.left + 8 ≤ n) :
    Ends program (Program.mk <$> Grammar.stmts n (· == .eof)) c fun _ c' => c'.kind = .eof := by
  have hfuel := left_le_fuel c
  have hstmts : Ends (Grammar.stmts c.fuel (· == .eof)) (Grammar.stmts n (· == .eof)) c
      fun _ c' => (c'.kind == .eof) = true :=
    (Grammar.stmtEnds c.fuel).stmts rfl (by omega)
  have hprogram : Ends (Grammar.stmts c.fuel (· == .eof) >>= fun s => pure (Program.mk s))
      (Grammar.stmts n (· == .eof) >>= fun s => pure (Program.mk s)) c fun _ c' => c'.kind = .eof :=
    hstmts.bind fun _ _ _ hk => ends_pure (by simpa using hk)
  simp only [bind_pure_comp] at hprogram
  exact hprogram.of_eq rfl

/-- What is read from tokens is read from those up to the first end of the text. -/
theorem ofTokens_of_cut {n : Nat} (h : 8 * (Cursor.ofTokens tokens).left + 8 ≤ n) :
    (∃ p c, (Program.mk <$> Grammar.stmts n (· == .eof)) (Cursor.ofTokens tokens).cut = .done p c ∧
        Program.ofTokens tokens = .ok p) ∨
      ∃ d c, (Program.mk <$> Grammar.stmts n (· == .eof)) (Cursor.ofTokens tokens).cut =
        .failed d c ∧ Program.ofTokens tokens = .error d := by
  have hends := program_ends h (Cursor.ofTokens_at tokens).closed
  unfold Program.ofTokens
  split at hends
  · exact .inl ⟨_, _, hends.1, by simp only [*]⟩
  · exact .inr ⟨_, _, hends.1, by simp only [*]⟩
  · exact hends.elim

theorem ofTokens_congr {tokens' : List Token}
    (h : Cursor.upToEnd (Cursor.closed tokens') = Cursor.upToEnd (Cursor.closed tokens)) :
    Program.ofTokens tokens' = Program.ofTokens tokens := by
  have hcut : (Cursor.ofTokens tokens').cut = (Cursor.ofTokens tokens).cut :=
    Cursor.cut_ofTokens_congr h
  have hleft : (Cursor.ofTokens tokens').left = (Cursor.ofTokens tokens).left := by
    unfold Cursor.left
    rw [hcut]
  have hfuel : 8 * (Cursor.ofTokens tokens').left + 8 ≤ 8 * (Cursor.ofTokens tokens).left + 8 := by
    rw [hleft]
  have h := ofTokens_of_cut (Nat.le_refl (8 * (Cursor.ofTokens tokens).left + 8))
  have h' := ofTokens_of_cut hfuel
  rw [hcut] at h'
  rcases h with ⟨p, c, h, hp⟩ | ⟨d, c, h, hp⟩ <;>
    rcases h' with ⟨p', c', h', hp'⟩ | ⟨d', c', h', hp'⟩ <;>
    cases h.symm.trans h'
  · exact hp'.trans hp.symm
  · exact hp'.trans hp.symm

/-- From any tokens a program is read or a complaint about the grammar; each reader takes tokens for
what it gives; none passes the first end of the text, and nothing depends on what stands behind
it. -/
theorem reading_ends (tokens : List Token) :
    ((∃ p c j, program (Cursor.ofTokens tokens) = .done p c ∧ Program.ofTokens tokens = .ok p ∧
          c.kind = .eof ∧ Cursor.At (Cursor.closed tokens) j c) ∨
        ∃ d c j, program (Cursor.ofTokens tokens) = .failed d c ∧
          Program.ofTokens tokens = .error d ∧ d.fault.family = .syntactic ∧
          Cursor.At (Cursor.closed tokens) j c) ∧
      (∀ i, Settles stmt (Cursor.closed tokens) i ∧
        (∀ p, Settles (expr p) (Cursor.closed tokens) i) ∧
        Settles type (Cursor.closed tokens) i) ∧
      ∀ tokens', Cursor.upToEnd tokens' = Cursor.upToEnd tokens →
        Program.ofTokens tokens' = Program.ofTokens tokens := by
  refine ⟨?_, fun i => ⟨settles stmt_ends, fun p => settles (expr_ends p), settles type_ends⟩,
    fun tokens' h => ofTokens_congr (Cursor.upToEnd_closed_congr h)⟩
  have hat := Cursor.ofTokens_at tokens
  have h := program_ends (left_le_fuel _) hat.closed
  unfold Program.ofTokens
  split at h
  · obtain ⟨-, hr, hk⟩ := h
    obtain ⟨j, hj, -⟩ := hat.reaches hr
    exact .inl ⟨_, _, j, ‹_›, by simp only [*], hk, hj⟩
  · obtain ⟨-, hr, hd⟩ := h
    obtain ⟨j, hj, -⟩ := hat.reaches hr
    exact .inr ⟨_, _, j, ‹_›, by simp only [*], hd, hj⟩
  · exact h.elim

/-- A text that goes on behind its end, with marks no text has. -/
theorem reading_ends_early :
    let name : Token := ⟨.identifier, "", default⟩
    let step : Token := ⟨.plusPlus, "+", default⟩
    let semicolon : Token := ⟨.semicolon, ",", default⟩
    let eof : Token := ⟨.eof, "end", default⟩
    Program.ofTokens [name, step, semicolon, eof, eof, step] =
        Program.ofTokens [name, step, semicolon, eof] ∧
      (∃ s c j, stmt (Cursor.ofTokens [name, step, semicolon, eof]) = .done s c ∧
        Cursor.At [name, step, semicolon, eof] j c ∧ 0 < j) := by
  intro name step semicolon eof
  have h := reading_ends [name, step, semicolon, eof]
  refine ⟨h.2.2 _ rfl, ?_⟩
  obtain hdone | ⟨d, c', j, hfailed, -⟩ := (h.2.1 0).1 _ (Cursor.ofTokens_at _)
  · exact hdone
  · cases hfailed

end Parse

end Primer
