import Primer.Proofs.Proper
import Primer.Proofs.Recased

/-!
# Reading tokens in another spelling

Where the words among the tokens are respelled, the program that is read is respelled, and a
complaint about a token differs only in what it quotes (`ofTokens_respell`). Readers look at the
value of a token only to find a type or a literal in it or to keep it as a name.
-/

namespace Primer

/-! ## Tokens and places -/

variable {f : Respelling}

namespace Token

@[simp] theorem span_respell (t : Token) : (t.respell f).span = t.span := rfl

theorem respell_same (t : Token) : t.respell .same = t := by
  simp [respell]

/-- What is said about a token is respelled with it. -/
theorem matches_respell (fault : String → Fault) (hname : ∀ v w, (fault v).name = (fault w).name)
    (hfamily : ∀ v w, (fault v).family = (fault w).family) (t : Token) :
    (fault t.value).Matches f (fault (t.respell f).value) :=
  ⟨hname _ _, hfamily _ _, by rintro rfl; rw [t.respell_same]⟩

end Token

namespace Cursor

/-- The same place among tokens whose words are respelled. -/
def respell (f : Respelling) (c : Cursor) : Cursor :=
  ⟨c.current.respell f, c.following.map (Token.respell f), c.lastEnd?⟩

theorem next_respell (c : Cursor) : (c.respell f).next = c.next.respell f := by
  obtain ⟨t, _ | ⟨u, following⟩, p⟩ := c
  · rfl
  · exact (apply_ite (respell f) (t.kind = .eof) ⟨t, u :: following, p⟩
      ⟨u, following, some t.span.stop⟩).symm

theorem fuel_respell (c : Cursor) : (c.respell f).fuel = c.fuel := by
  simp [fuel, respell]

end Cursor

theorem Ty.ofName?_plainLower (name : String) : ofName? (Text.plainLower name) = ofName? name := by
  have hword : ((Text.plainLower name).toList.filter (!Text.isBlank ·)).map Char.toLower =
      (name.toList.filter (!Text.isBlank ·)).map Char.toLower := by
    simp [Text.plainLower, List.filter_map, Function.comp_def, Text.isBlank_toLower,
      Char.toLower_toLower_eq_toLower]
  simp only [ofName?, hword]

theorem Ty.ofName?_respell (t : Token) : ofName? (t.respell f).value = ofName? t.value := by
  simp only [Token.respell]
  split
  · rw [← ofName?_plainLower, f.alike, ofName?_plainLower]
  · rfl

/-! ## Readers -/

namespace Parse

variable {α β γ δ : Type} {ρ : α → β} {σ : γ → δ}

/-- Two readers end alike on tokens and on the same tokens respelled, and `ρ` is what becomes of
the value. -/
def Twins (f : Respelling) (ρ : α → β) (x : Parse α) (y : Parse β) : Prop := ∀ c : Cursor,
  match x c with
  | .done a c' => y (c.respell f) = .done (ρ a) (c'.respell f)
  | .failed d _ => ∃ d' c', y (c.respell f) = .failed d' c' ∧ d.Matches f d'
  | .exhausted => y (c.respell f) = .exhausted

theorem Twins.bind {x : Parse α} {y : Parse β} {g : α → Parse γ} {g' : β → Parse δ}
    (hx : Twins f ρ x y) (hg : ∀ a, Twins f σ (g a) (g' (ρ a))) :
    Twins f σ (x >>= g) (y >>= g') := by
  intro c
  have h := hx c
  simp only [Effect.bind_apply]
  cases hxc : x c with
  | done a c' =>
    rw [hxc] at h
    simp only [h]
    exact hg a c'
  | failed d c' =>
    rw [hxc] at h
    obtain ⟨d', c'', hy, hd⟩ := h
    exact ⟨d', c'', by rw [hy], hd⟩
  | exhausted =>
    rw [hxc] at h
    simp only at h ⊢
    rw [h]

theorem twins_pure {a : α} {b : β} (h : b = ρ a) : Twins f ρ (pure a) (pure b) := fun c => by
  rw [h]
  rfl

theorem twins_exhausted : Twins f ρ Effect.exhausted Effect.exhausted := fun _ => rfl

theorem twins_fail {d d' : Diagnostic} (h : d.Matches f d') :
    Twins f ρ (Effect.fail d) (Effect.fail d') := fun c => ⟨d', c.respell f, rfl, h⟩

theorem twins_ofExcept {r : Except Fault α} {r' : Except Fault β} (p : Position)
    (h : Concurs (Fault.Matches f) (r.map ρ) r') :
    Twins f ρ (Effect.ofExcept p r) (Effect.ofExcept p r') := by
  cases r with
  | ok a =>
    cases h
    exact twins_pure rfl
  | error fault =>
    cases h with
    | error h => exact twins_fail (h.at p)

theorem twins_ofOption {a b : Fault} (p : Position) (h : a.Matches f b) (o : Option α) :
    Twins f id (Effect.ofOption p a o) (Effect.ofOption p b o) := by
  cases o with
  | none => exact twins_fail (h.at p)
  | some v => exact twins_pure rfl

theorem twins_kind : Twins f id kind kind := fun _ => rfl

theorem twins_position : Twins f id position position := fun _ => rfl

theorem twins_spanFrom (p : Position) : Twins f id (spanFrom p) (spanFrom p) := fun _ => rfl

theorem twins_advance : Twins f (Token.respell f) advance advance := fun c => by
  change Outcome.done _ _ = _
  rw [c.next_respell]
  rfl

theorem unexpected_matches (c : Cursor) : c.unexpected.Matches f (c.respell f).unexpected :=
  ⟨Token.matches_respell .unexpectedToken (fun _ _ => rfl) (fun _ _ => rfl) c.current, rfl⟩

theorem unexpectedDetailed_matches (message : String) (c : Cursor) :
    (c.unexpectedDetailed message).Matches f ((c.respell f).unexpectedDetailed message) :=
  ⟨Token.matches_respell (.unexpectedTokenDetailed · message) (fun _ _ => rfl) (fun _ _ => rfl)
    c.current, rfl⟩

theorem twins_unexpected : Twins f ρ unexpected unexpected := fun c =>
  ⟨_, _, rfl, unexpected_matches c⟩

theorem twins_unexpectedDetailed (message : String) :
    Twins f ρ (unexpectedDetailed message) (unexpectedDetailed message) := fun c =>
  ⟨_, _, rfl, unexpectedDetailed_matches message c⟩

/-- Taking a token of one kind, with a complaint where there is another. -/
theorem twins_take (k : TokenKind) {complaint : Cursor → Diagnostic}
    (h : ∀ c, (complaint c).Matches f (complaint (c.respell f))) :
    Twins f (Token.respell f)
      (fun c => if c.kind = k then .done c.current c.next else .failed (complaint c) c)
      (fun c => if c.kind = k then .done c.current c.next else .failed (complaint c) c) := by
  intro c
  have hkind : (c.respell f).kind = c.kind := rfl
  by_cases hk : c.kind = k
  · simp only [hkind, hk, if_true, c.next_respell]
    rfl
  · simp only [hkind, hk, if_false]
    exact ⟨_, _, rfl, h c⟩

theorem twins_expect (k : TokenKind) : Twins f (Token.respell f) (expect k) (expect k) :=
  twins_take k unexpected_matches

theorem twins_expectDetailed (k : TokenKind) (message : String) :
    Twins f (Token.respell f) (expectDetailed k message) (expectDetailed k message) :=
  twins_take k (unexpectedDetailed_matches message)

/-- A name is respelled where it is read. -/
theorem twins_name (message : String) : Twins f (fun t => { t with value := f t.value })
    (expectDetailed .identifier message) (expectDetailed .identifier message) := by
  intro c
  have h := twins_expectDetailed (f := f) .identifier message c
  by_cases hk : c.kind = .identifier
  · simp only [expectDetailed, hk, if_true] at h ⊢
    rw [h]
    have hw : c.current.kind.isWord := by rw [show c.current.kind = .identifier from hk]; rfl
    simp only [Token.respell, hw, if_true]
  · simpa only [expectDetailed, hk, if_false] using h

end Parse

namespace Grammar

open Parse

/-! ## Types and expressions -/

theorem arrays_twins : ∀ (n : Nat) (ty : Ty), Twins f id (arrays n ty) (arrays n ty)
  | 0, _ => twins_exhausted
  | n + 1, ty => by
    refine twins_kind.bind fun k => ?_
    dsimp only [id]
    split
    · refine twins_advance.bind fun t => (twins_expect _).bind fun _ => ?_
      split
      · exact arrays_twins n _
      · exact arrays_twins n _
      · exact twins_fail (.refl _)
    · exact twins_pure rfl

theorem type_twins (n : Nat) : Twins f id (type n) (type n) := by
  induction n with
  | zero => exact twins_exhausted
  | succ n ih =>
    refine twins_kind.bind fun k => ?_
    dsimp only [id]
    split
    · refine twins_advance.bind fun t => ?_
      have hfault := Token.matches_respell (f := f) .unknownType (fun _ _ => rfl) (fun _ _ => rfl) t
      rw [Ty.ofName?_respell]
      exact (twins_ofOption _ hfault _).bind fun ty => arrays_twins n ty
    · exact twins_advance.bind fun t => (twins_expect _).bind fun _ => ih.bind fun ty =>
        (twins_expect _).bind fun _ => (twins_ofOption _ (.refl _) _).bind fun b => arrays_twins n _
    · exact twins_unexpectedDetailed _

theorem valueType_twins (n : Nat) : Twins f id (valueType n) (valueType n) := by
  refine twins_position.bind fun p => (type_twins n).bind fun ty => ?_
  dsimp only [id]
  split
  · exact twins_fail (.refl _)
  · exact twins_pure rfl

theorem ofToken_respell (t : Token) :
    Concurs (Fault.Matches f) ((ofToken t).map (Expr.respell f)) (ofToken (t.respell f)) := by
  obtain ⟨kind, value, span⟩ := t
  cases kind
  case number =>
    change Concurs _ _ (ofToken ⟨.number, value, span⟩)
    simp only [ofToken]
    split <;> split <;> first | exact .ok _ | exact .error (.refl _)
  case char =>
    change Concurs _ _ (ofToken ⟨.char, value, span⟩)
    simp only [ofToken]
    split
    · exact .ok _
    · exact .error (.refl _)
  case identifier | string | trueWord | falseWord => exact .ok _
  all_goals
    exact .error (Token.matches_respell .unexpectedToken (fun _ _ => rfl) (fun _ _ => rfl) _)

theorem primary_twins : Twins f (Expr.respell f) primary primary :=
  twins_advance.bind fun t => twins_ofExcept _ (ofToken_respell t)

theorem listBase_twins (n : Nat) : Twins f id (listBase n) (listBase n) := by
  refine twins_kind.bind fun k => ?_
  dsimp only [id]
  split
  · exact twins_advance.bind fun _ => twins_position.bind fun p => (type_twins n).bind fun ty =>
      (twins_expect _).bind fun _ => (twins_ofOption _ (.refl _) _).bind fun b => twins_pure rfl
  · exact twins_pure rfl

theorem newList_twins (n : Nat) : Twins f (Expr.respell f) (newList n) (newList n) :=
  twins_advance.bind fun _ => (twins_expectDetailed _ _).bind fun _ =>
    (listBase_twins n).bind fun _ => (twins_expect _).bind fun _ => (twins_expect _).bind fun _ =>
    (twins_spanFrom _).bind fun _ => twins_pure rfl

theorem indexed_respell (left index : Expr) (span : Span) :
    Concurs (Fault.Matches f) ((indexed left index span).map (Expr.respell f))
      (indexed (left.respell f) (index.respell f) span) := by
  cases left
  case cell => exact .error (.refl _)
  all_goals exact .ok _

theorem build_respell (op : BinaryOp) (left right : Expr) :
    op.build (left.respell f) (right.respell f) = (op.build left right).respell f := by
  cases op <;> simp [BinaryOp.build, Expr.respell]

mutual

theorem expr_twins : ∀ (n : Nat) (p : Power), Twins f (Expr.respell f) (expr n p) (expr n p)
  | 0, _ => twins_exhausted
  | n + 1, p => (head_twins n).bind fun left => tail_twins n p left

theorem head_twins : ∀ n : Nat, Twins f (Expr.respell f) (head n) (head n)
  | 0 => twins_exhausted
  | n + 1 => by
    refine twins_kind.bind fun k => ?_
    dsimp only [id]
    split
    case h_7 | h_8 =>
      exact twins_advance.bind fun _ => (expr_twins n _).bind fun e =>
        twins_pure (by simp [Expr.respell])
    case h_9 => exact parenthesised_twins n
    case h_10 =>
      refine twins_advance.bind fun _ => twins_kind.bind fun k =>
        (arguments_twins n _).bind fun es => (twins_spanFrom _).bind fun span => ?_
      dsimp only [id]
      split
      · exact twins_pure (by simp [Expr.respell])
      · exact twins_pure (by simp [Expr.respell])
    case h_11 => exact newList_twins n
    case h_12 => exact twins_unexpected
    all_goals exact primary_twins

theorem parenthesised_twins : ∀ n : Nat,
    Twins f (Expr.respell f) (parenthesised n) (parenthesised n)
  | 0 => twins_exhausted
  | n + 1 => by
    refine twins_advance.bind fun _ => twins_kind.bind fun k => ?_
    dsimp only [id]
    split
    · exact (type_twins n).bind fun ty => (twins_expect _).bind fun _ =>
        (expr_twins n _).bind fun e => twins_pure (by simp [Expr.respell])
    · exact (expr_twins n _).bind fun e => (twins_expect _).bind fun _ =>
        (twins_spanFrom _).bind fun _ => twins_pure rfl

theorem tail_twins : ∀ (n : Nat) (p : Power) (left : Expr),
    Twins f (Expr.respell f) (tail n p left) (tail n p (left.respell f))
  | 0, _, _ => twins_exhausted
  | n + 1, p, left => by
    refine twins_kind.bind fun k => ?_
    dsimp only [id]
    split
    · exact (extension_twins n left).bind fun e => tail_twins n p e
    · exact twins_pure rfl

theorem extension_twins : ∀ (n : Nat) (left : Expr),
    Twins f (Expr.respell f) (extension n left) (extension n (left.respell f))
  | 0, _ => twins_exhausted
  | n + 1, left => by
    refine twins_kind.bind fun k => ?_
    dsimp only [id]
    split
    · rename_i op _
      exact twins_advance.bind fun _ => (expr_twins n _).bind fun right =>
        twins_pure (build_respell op left right)
    · cases left
      case name span name =>
        exact twins_advance.bind fun _ => (arguments_twins n _).bind fun es =>
          (twins_spanFrom _).bind fun span => twins_pure (by simp [Expr.respell])
      all_goals exact twins_unexpectedDetailed _
    · refine twins_advance.bind fun _ => (expr_twins n _).bind fun index =>
        (twins_expect _).bind fun _ => ?_
      rw [Expr.span_respell, Expr.span_respell]
      exact (twins_spanFrom _).bind fun span => twins_ofExcept _ (indexed_respell left index span)
    · refine twins_advance.bind fun _ => (twins_name _).bind fun t => (twins_expect _).bind fun _ =>
        (arguments_twins n _).bind fun es => ?_
      rw [Expr.span_respell]
      exact (twins_spanFrom _).bind fun span => twins_pure (by simp [Expr.respell])
    · exact twins_unexpected

theorem arguments_twins : ∀ (n : Nat) (closing : TokenKind),
    Twins f (List.map (Expr.respell f)) (arguments n closing) (arguments n closing)
  | 0, _ => twins_exhausted
  | n + 1, closing => by
    refine twins_kind.bind fun k => ?_
    dsimp only [id]
    split
    · exact twins_advance.bind fun _ => twins_pure rfl
    · refine (expr_twins n _).bind fun e => twins_kind.bind fun k => ?_
      dsimp only [id]
      split
      · exact twins_advance.bind fun _ => twins_pure rfl
      · exact (twins_expect _).bind fun _ => (arguments_twins n closing).bind fun es =>
          twins_pure rfl

end

/-! ## Statements and programs -/

@[simp] theorem isTarget_respell (e : Expr) : (e.respell f).isTarget = e.isTarget := by
  cases e <;> rfl

theorem assignment_respell (span : Span) (target value : Expr) :
    assignment span (target.respell f) (value.respell f) =
      (assignment span target value).respell f := by
  cases target <;> simp [assignment, Stmt.respell, Expr.respell]

theorem simple_twins (n : Nat) : Twins f (Stmt.respell f) (simple n) (simple n) := by
  refine twins_position.bind fun _ => (expr_twins n _).bind fun target =>
    twins_kind.bind fun k => ?_
  rw [isTarget_respell]
  dsimp only [id]
  split
  · split
    · exact twins_advance.bind fun _ => (expr_twins n _).bind fun value =>
        (twins_spanFrom _).bind fun _ => twins_pure (assignment_respell _ target value)
    · exact twins_unexpectedDetailed _
  · split
    · exact twins_advance.bind fun _ => (twins_spanFrom _).bind fun _ => twins_pure rfl
    · exact twins_unexpectedDetailed _
  · split
    · exact twins_advance.bind fun _ => (twins_spanFrom _).bind fun _ => twins_pure rfl
    · exact twins_unexpectedDetailed _
  · exact (twins_spanFrom _).bind fun _ => twins_pure rfl

theorem declaration_twins (n : Nat) : Twins f (Stmt.respell f) (declaration n) (declaration n) := by
  refine (twins_expect _).bind fun _ => (twins_name _).bind fun name =>
    (twins_expectDetailed _ _).bind fun _ => (valueType_twins n).bind fun ty =>
    twins_kind.bind fun k => ?_
  dsimp only [id]
  split
  · exact twins_advance.bind fun _ => (expr_twins n _).bind fun value =>
      (twins_spanFrom _).bind fun _ => twins_pure rfl
  · exact (twins_spanFrom _).bind fun _ => twins_pure rfl

theorem condition_twins (n : Nat) : Twins f (Expr.respell f) (condition n) (condition n) :=
  (twins_expect _).bind fun _ => (expr_twins n _).bind fun _ => (twins_expect _).bind fun _ =>
    twins_pure rfl

theorem jump_twins {make : Span → Stmt} (h : ∀ span, make span = (make span).respell f) :
    Twins f (Stmt.respell f) (jump make) (jump make) :=
  twins_advance.bind fun _ => (twins_expect _).bind fun _ => (twins_spanFrom _).bind fun _ =>
    twins_pure (h _)

theorem giveBack_twins (n : Nat) : Twins f (Stmt.respell f) (giveBack n) (giveBack n) := by
  refine twins_advance.bind fun _ => twins_kind.bind fun k => ?_
  dsimp only [id]
  split
  · exact twins_advance.bind fun _ => (twins_spanFrom _).bind fun _ => twins_pure rfl
  · exact (expr_twins n _).bind fun _ => (twins_expect _).bind fun _ =>
      (twins_spanFrom _).bind fun _ => twins_pure rfl

theorem print_twins (n : Nat) : Twins f (Stmt.respell f) (print n) (print n) :=
  twins_advance.bind fun _ => (condition_twins n).bind fun _ => (twins_expect _).bind fun _ =>
    (twins_spanFrom _).bind fun _ => twins_pure rfl

theorem start_twins (n : Nat) : Twins f (Stmt.respell f) (start n) (start n) :=
  twins_advance.bind fun _ => (twins_name _).bind fun _ => (twins_expect _).bind fun _ =>
    (arguments_twins n _).bind fun _ => (twins_expect _).bind fun _ =>
    (twins_spanFrom _).bind fun _ => twins_pure (by simp [Stmt.respell])

theorem parameters_twins (n : Nat) :
    Twins f (List.map (Parameter.respell f)) (parameters n) (parameters n) := by
  induction n with
  | zero => exact twins_exhausted
  | succ n ih =>
    refine twins_kind.bind fun k => ?_
    dsimp only [id]
    split
    · exact twins_advance.bind fun _ => twins_pure rfl
    · refine twins_position.bind fun _ => (valueType_twins n).bind fun _ =>
        (twins_name _).bind fun _ => twins_kind.bind fun k => ?_
      dsimp only [id]
      split
      · exact twins_advance.bind fun _ => twins_pure rfl
      · exact (twins_expect _).bind fun _ => ih.bind fun _ => twins_pure rfl

theorem forFirst_twins (n : Nat) :
    Twins f (Option.map (Stmt.respell f)) (forFirst n) (forFirst n) := by
  refine twins_kind.bind fun k => ?_
  dsimp only [id]
  split
  · exact twins_pure rfl
  · exact (declaration_twins n).bind fun _ => twins_pure rfl
  · exact (simple_twins n).bind fun _ => twins_pure rfl

theorem forCondition_twins (n : Nat) :
    Twins f (Option.map (Expr.respell f)) (forCondition n) (forCondition n) := by
  refine twins_kind.bind fun k => ?_
  dsimp only [id]
  split
  · exact twins_pure rfl
  · exact (expr_twins n _).bind fun _ => twins_pure rfl

theorem forNext_twins (n : Nat) :
    Twins f (Option.map (Stmt.respell f)) (forNext n) (forNext n) := by
  refine twins_kind.bind fun k => ?_
  dsimp only [id]
  split
  · exact twins_pure rfl
  · exact (simple_twins n).bind fun _ => twins_pure rfl

mutual

theorem stmt_twins : ∀ n : Nat, Twins f (Stmt.respell f) (stmt n) (stmt n)
  | 0 => twins_exhausted
  | n + 1 => by
    refine twins_kind.bind fun k => ?_
    dsimp only [id]
    split
    · exact (declaration_twins n).bind fun _ => (twins_expect _).bind fun _ => twins_pure rfl
    · exact (function_twins n).bind fun _ => twins_pure rfl
    · exact (function_twins n).bind fun _ => twins_pure rfl
    · exact branch_twins n
    · exact switch_twins n
    · exact twins_advance.bind fun _ => (condition_twins n).bind fun _ =>
        (block_twins n).bind fun _ => (twins_spanFrom _).bind fun _ => twins_pure rfl
    · exact twins_advance.bind fun _ => (block_twins n).bind fun _ => (twins_expect _).bind fun _ =>
        (condition_twins n).bind fun _ => (twins_expect _).bind fun _ =>
        (twins_spanFrom _).bind fun _ => twins_pure rfl
    · exact twins_advance.bind fun _ => (twins_expect _).bind fun _ =>
        (forFirst_twins n).bind fun _ => (twins_expect _).bind fun _ =>
        (forCondition_twins n).bind fun _ => (twins_expect _).bind fun _ =>
        (forNext_twins n).bind fun _ => (twins_expect _).bind fun _ =>
        (block_twins n).bind fun _ => (twins_spanFrom _).bind fun _ =>
        twins_pure (by simp [Stmt.respell])
    · exact (block_twins n).bind fun _ => twins_pure rfl
    · exact jump_twins fun _ => rfl
    · exact jump_twins fun _ => rfl
    · exact giveBack_twins n
    · exact start_twins n
    · exact print_twins n
    · exact (simple_twins n).bind fun _ => (twins_expect _).bind fun _ => twins_pure rfl

theorem stmts_twins : ∀ (n : Nat) (ends : TokenKind → Bool),
    Twins f (List.map (Stmt.respell f)) (stmts n ends) (stmts n ends)
  | 0, _ => twins_exhausted
  | n + 1, ends => by
    refine twins_kind.bind fun k => ?_
    dsimp only [id]
    split
    · exact twins_pure rfl
    · exact (stmt_twins n).bind fun _ => (stmts_twins n ends).bind fun _ => twins_pure rfl

theorem block_twins : ∀ n : Nat, Twins f (respellBlock f) (block n) (block n)
  | 0 => twins_exhausted
  | n + 1 => (twins_expect _).bind fun _ => (stmts_twins n _).bind fun _ =>
      (twins_expect _).bind fun _ => (twins_spanFrom _).bind fun _ =>
      twins_pure (by simp [respellBlock])

theorem branch_twins : ∀ n : Nat, Twins f (Stmt.respell f) (branch n) (branch n)
  | 0 => twins_exhausted
  | n + 1 => by
    refine twins_advance.bind fun _ => (condition_twins n).bind fun _ =>
      (block_twins n).bind fun _ => twins_kind.bind fun k => ?_
    dsimp only [id]
    split
    · refine twins_advance.bind fun _ => twins_kind.bind fun k => ?_
      dsimp only [id]
      split
      · exact (branch_twins n).bind fun _ => (twins_spanFrom _).bind fun _ => twins_pure rfl
      · exact (block_twins n).bind fun _ => (twins_spanFrom _).bind fun _ => twins_pure rfl
    · exact (twins_spanFrom _).bind fun _ => twins_pure rfl

theorem switch_twins : ∀ n : Nat, Twins f (Stmt.respell f) (switch n) (switch n)
  | 0 => twins_exhausted
  | n + 1 => twins_advance.bind fun _ => (condition_twins n).bind fun _ =>
      (twins_expect _).bind fun _ => (cases_twins n).bind fun _ => (fallback_twins n).bind fun _ =>
      (twins_expectDetailed _ _).bind fun _ => (twins_spanFrom _).bind fun _ =>
      twins_pure (by simp [Stmt.respell])

theorem cases_twins : ∀ n : Nat, Twins f (List.map (respellCase f)) (cases n) (cases n)
  | 0 => twins_exhausted
  | n + 1 => by
    refine twins_kind.bind fun k => ?_
    dsimp only [id]
    split
    · exact twins_advance.bind fun _ => (expr_twins n _).bind fun _ =>
        (twins_expect _).bind fun _ => (stmts_twins n _).bind fun _ =>
        (twins_spanFrom _).bind fun _ => (cases_twins n).bind fun _ =>
        twins_pure (by simp [respellCase])
    · exact twins_pure rfl

theorem fallback_twins : ∀ n : Nat,
    Twins f (Option.map (List.map (Stmt.respell f))) (fallback n) (fallback n)
  | 0 => twins_exhausted
  | n + 1 => by
    refine twins_kind.bind fun k => ?_
    dsimp only [id]
    split
    · exact twins_advance.bind fun _ => (twins_expect _).bind fun _ =>
        (stmts_twins n _).bind fun _ => twins_pure rfl
    · exact twins_pure rfl

theorem function_twins : ∀ n : Nat, Twins f (respellFunction f) (function n) (function n)
  | 0 => twins_exhausted
  | n + 1 => twins_position.bind fun _ => (type_twins n).bind fun _ => (twins_name _).bind fun _ =>
      (twins_expect _).bind fun _ => (parameters_twins n).bind fun _ =>
      (block_twins n).bind fun _ => (twins_spanFrom _).bind fun _ => twins_pure rfl

end

end Grammar

theorem Cursor.ofTokens_respell (tokens : List Token) :
    ofTokens (tokens.map (Token.respell f)) = (ofTokens tokens).respell f := by
  have hclosed : closed (tokens.map (Token.respell f)) = (closed tokens).map (Token.respell f) := by
    simp only [closed, List.getLast?_map]
    cases tokens.getLast? with
    | none => rfl
    | some t =>
      simp only [Option.map_some]
      rw [apply_ite (List.map (Token.respell f)), List.map_append]
      rfl
  simp only [ofTokens, hclosed]
  cases closed tokens <;> rfl

theorem Parse.program_twins : Twins f (Program.respell f) program program := fun c => by
  have h : Twins f (Program.respell f) (Program.mk <$> Grammar.stmts c.fuel (· == .eof))
      (Program.mk <$> Grammar.stmts c.fuel (· == .eof)) :=
    (Grammar.stmts_twins _ _).bind fun _ => twins_pure rfl
  simpa only [program, Cursor.fuel_respell] using h c

/-- The program that respelled tokens spell is the respelled one, or there is none for the same
reason. -/
theorem Program.ofTokens_respell (tokens : List Token) :
    Concurs (Diagnostic.Matches f) ((ofTokens tokens).map (Program.respell f))
      (ofTokens (tokens.map (Token.respell f))) := by
  have h := Parse.program_twins (f := f) (Cursor.ofTokens tokens)
  simp only [ofTokens, Cursor.ofTokens_respell]
  cases hp : Parse.program (Cursor.ofTokens tokens) with
  | done p c =>
    simp only [hp] at h
    rw [h]
    exact .ok _
  | failed d c =>
    simp only [hp] at h
    obtain ⟨d', c', h, hd⟩ := h
    rw [h]
    exact .error hd
  | exhausted =>
    simp only [hp] at h
    rw [h]
    exact .error (Parse.unexpected_matches _)

end Primer
