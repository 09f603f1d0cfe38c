import Primer.Proofs.Proper
import Primer.Proofs.Rendering

/-!
# What is read is what is written

The tokens a reader takes spell the expression it gives, and the operators in it bind as their
levels say. While an expression is extended, the next token binds no more tightly than its last
operand lets it (`Expr.edge`), for the reader of that operand stopped there.
-/

namespace Primer

namespace Cursor

/-- The tokens from a place on. -/
def rest (c : Cursor) : List Token := c.current :: c.following

/-- The tokens from a place on end in the end of the text. -/
def Closed (c : Cursor) : Prop := ∃ ts t, c.rest = ts ++ [t] ∧ t.kind = .eof

/-- Tokens are passed on the way from a place to another. -/
structure Passes (c : Cursor) (ts : List Token) (c' : Cursor) : Prop where
  rest : c.rest = ts ++ c'.rest
  closed : c'.Closed

variable {c c' c'' : Cursor} {ts us : List Token}

theorem Passes.trans (h : c.Passes ts c') (h' : c'.Passes us c'') : c.Passes (ts ++ us) c'' :=
  ⟨by rw [h.rest, h'.rest, List.append_assoc], h'.closed⟩

theorem Passes.head (h : c.Passes ts c') : ∀ t ∈ ts.head?, t = c.current := by
  have hr := h.rest
  cases ts with
  | nil => simp
  | cons t ts => exact fun u hu => (Option.some.inj hu).symm.trans (List.cons.inj hr).1.symm

/-- What is passed up to the end of the text is all that stands before it. -/
theorem Passes.whole {t : Token} (h : c.Passes ts c') (hrest : c.rest = us ++ [t])
    (hne : ∀ u ∈ us, u.kind ≠ .eof) (hc : c'.kind = .eof) : ts = us := by
  rcases List.append_eq_append_iff.1 (hrest.symm.trans h.rest) with
    ⟨more, rfl, hmore⟩ | ⟨more, rfl, hmore⟩
  · have hlength := congrArg List.length hmore
    simp only [List.length_append, Cursor.rest, List.length_cons, List.length_nil] at hlength
    rw [List.eq_nil_of_length_eq_zero (l := more) (by omega), List.append_nil]
  · cases more with
    | nil => rw [List.append_nil]
    | cons u more =>
      obtain rfl : c'.current = u := (List.cons.inj hmore).1
      exact absurd hc (hne _ (List.mem_append_right _ List.mem_cons_self))

/-- A token that is not the end of the text can be taken. -/
theorem passes_next (hc : c.Closed) (hk : c.kind ≠ .eof) : c.Passes [c.current] c.next := by
  obtain ⟨current, following, lastEnd⟩ := c
  obtain ⟨ts, t, hts, ht⟩ := hc
  unfold rest at hts
  cases following with
  | nil =>
    cases ts with
    | nil =>
      obtain rfl : current = t := by simpa using hts
      exact absurd ht hk
    | cons u ts => simp at hts
  | cons u following =>
    have hnext : next ⟨current, u :: following, lastEnd⟩ =
        ⟨u, following, some current.span.stop⟩ := by
      unfold next
      exact if_neg hk
    rw [hnext]
    refine ⟨rfl, ?_⟩
    cases ts with
    | nil => simp at hts
    | cons v ts => exact ⟨ts, t, (List.cons.inj hts).2, ht⟩

theorem Closed.next (hc : c.Closed) {k : TokenKind} (hk : c.kind = k) (hne : k ≠ .eof) :
    c.Passes [c.current] c.next :=
  passes_next hc (hk ▸ hne)

end Cursor

namespace Parse

variable {α β : Type} {c : Cursor} {Q R : α → Cursor → Prop}

/-- What a reader gives from a place on, and where it stops, is as `Q` says. -/
def Reads (x : Parse α) (c : Cursor) (Q : α → Cursor → Prop) : Prop :=
  ∀ a c', x c = .done a c' → Q a c'

theorem Reads.imp {x : Parse α} (h : Reads x c Q) (hQ : ∀ a c', Q a c' → R a c') :
    Reads x c R :=
  fun a c' hx => hQ a c' (h a c' hx)

theorem Reads.given {x : Parse α} {P : α → Prop} (h : Reads x c Q) (hg : Effect.Gives x P) :
    Reads x c fun a c' => P a ∧ Q a c' :=
  fun a c' hx => ⟨hg c a c' hx, h a c' hx⟩

theorem reads_bind {x : Parse α} {f : α → Parse β} {Q : β → Cursor → Prop} :
    Reads (x >>= f) c Q ↔ Reads x c fun a c' => Reads (f a) c' Q := by
  unfold Reads
  constructor
  · intro h a t hx b u hf
    refine h b u ?_
    rw [Effect.bind_apply, hx]
    exact hf
  · intro h b u hxf
    rw [Effect.bind_apply] at hxf
    cases hx : x c <;> rw [hx] at hxf
    · exact h _ _ hx b u hxf
    · cases hxf
    · cases hxf

theorem reads_pure {a : α} : Reads (pure a) c Q ↔ Q a c := by
  simp [Reads]

theorem reads_kind {Q : TokenKind → Cursor → Prop} : Reads kind c Q ↔ Q c.kind c := by
  simp [Reads, kind, Effect.read]

theorem reads_position {Q : Position → Cursor → Prop} : Reads position c Q ↔ Q c.position c := by
  simp [Reads, position, Effect.read]

theorem reads_spanFrom {p : Position} {Q : Span → Cursor → Prop} :
    Reads (spanFrom p) c Q ↔ Q (c.spanFrom p) c := by
  simp [Reads, spanFrom, Effect.read]

theorem reads_advance {Q : Token → Cursor → Prop} : Reads advance c Q ↔ Q c.current c.next := by
  simp [Reads, advance, Effect.step]

theorem reads_expect {k : TokenKind} {Q : Token → Cursor → Prop} :
    Reads (expect k) c Q ↔ (c.kind = k → Q c.current c.next) := by
  unfold Reads expect
  split_ifs <;> simp [*]

theorem reads_expectDetailed {k : TokenKind} {message : String} {Q : Token → Cursor → Prop} :
    Reads (expectDetailed k message) c Q ↔ (c.kind = k → Q c.current c.next) := by
  unfold Reads expectDetailed
  split_ifs <;> simp [*]

theorem reads_ofExcept {p : Position} {r : Except Fault α} :
    Reads (Effect.ofExcept p r) c Q ↔ ∀ a, r = .ok a → Q a c := by
  cases r <;> simp [Reads, Effect.ofExcept, Effect.pure, Effect.fail]

theorem reads_ofOption {p : Position} {fault : Fault} {r : Option α} :
    Reads (Effect.ofOption p fault r) c Q ↔ ∀ a, r = some a → Q a c := by
  cases r <;> simp [Reads, Effect.ofOption, Effect.pure, Effect.fail]

theorem reads_exhausted : Reads (Effect.exhausted : Parse α) c Q := by
  simp [Reads, Effect.exhausted]

theorem reads_fail {d : Diagnostic} : Reads (Effect.fail d : Parse α) c Q := by
  simp [Reads, Effect.fail]

theorem reads_unexpected : Reads (unexpected : Parse α) c Q := by
  simp [Reads, unexpected]

theorem reads_unexpectedDetailed {message : String} :
    Reads (unexpectedDetailed message : Parse α) c Q := by
  simp [Reads, unexpectedDetailed]

end Parse

namespace Grammar

open Parse

/-! ## Types -/

/-- Tokens that were passed on the way spell a type. -/
def SpellsType (c : Cursor) (ty : Ty) (c' : Cursor) : Prop := ∃ ts, c.Passes ts c' ∧ ty.Spells ts

theorem arrays_spells : ∀ {n : Nat} {ty : Ty} {c c' : Cursor}, SpellsType c ty c' →
    Reads (arrays n ty) c' (SpellsType c)
  | 0, _, _, _, _ => reads_exhausted
  | n + 1, ty, c, c', h => by
    obtain ⟨ts, hc, hs⟩ := id h
    simp only [arrays, reads_bind, reads_kind]
    split_ifs with hk
    · simp only [reads_bind, reads_advance, reads_expect]
      intro hz
      have h₁ := hc.closed.next hk (by simp)
      have hpass := hc.trans (h₁.trans (h₁.closed.next hz (by simp)))
      split
      · exact arrays_spells ⟨_, hpass, .matrix hs hk hz⟩
      · rename_i left _ _ _ _ hbase
        cases left <;> cases hbase
        exact arrays_spells ⟨_, hpass, .vector hs hk hz⟩
      · exact reads_fail
    · exact reads_pure.2 h

theorem type_spells : ∀ {n : Nat} {c : Cursor}, c.Closed → Reads (type n) c (SpellsType c)
  | 0, _, _ => reads_exhausted
  | n + 1, c, hc => by
    simp only [type, reads_bind, reads_kind]
    split
    · rename_i hk
      simp only [reads_bind, reads_advance, reads_ofOption]
      intro ty hty
      exact arrays_spells ⟨_, hc.next hk (by simp), .word hk hty⟩
    · rename_i hk
      simp only [reads_bind, reads_advance, reads_expect, reads_ofOption]
      intro ha
      have h₁ := hc.next hk (by simp)
      have h₂ := h₁.closed.next ha (by simp)
      refine (type_spells h₂.closed).imp ?_
      rintro elem c' ⟨ts, hts, hspells⟩ hz b hb
      have hpass := h₁.trans (h₂.trans (hts.trans (hts.closed.next hz (by simp))))
      cases elem <;> cases hb
      exact arrays_spells ⟨_, hpass, .list hk ha hspells hz⟩
    · exact reads_unexpectedDetailed

/-! ## Expressions -/

/-- Tokens that were passed on the way spell an expression whose operators bind as their levels
say, and the last operand leaves the next token alone. -/
structure SpellsTo (c : Cursor) (ts : List Token) (e : Expr) (c' : Cursor) : Prop where
  passes : c.Passes ts c'
  spells : Spells ts e
  correct : e.correct = true
  edge : c'.kind.power.rank ≤ e.edge.rank

/-- An expression was read in a context and holds all the context lets it take. -/
def ReadsIn (p : Power) (c : Cursor) (e : Expr) (c' : Cursor) : Prop :=
  (∃ ts, SpellsTo c ts e c') ∧ e.Withstands p ∧ c'.kind.power.rank ≤ p.rank

/-- An expression was read that is no operator with two operands. -/
def ReadsPlain (c : Cursor) (e : Expr) (c' : Cursor) : Prop :=
  (∃ ts, SpellsTo c ts e c') ∧ e.binary? = none

/-- Expressions were read up to what closes them. -/
def ReadsAll (closing : TokenKind) (c : Cursor) (es : List Expr) (c' : Cursor) : Prop :=
  ∃ ts, c.Passes ts c' ∧ SpellsAll closing ts es ∧ Expr.allCorrect es = true

/-- Every reader of expressions gives what is written. -/
structure Sound (n : Nat) : Prop where
  expr : ∀ {p c}, c.Closed → Reads (expr n p) c (ReadsIn p c)
  head : ∀ {c}, c.Closed → Reads (head n) c (ReadsPlain c)
  parenthesised : ∀ {c}, c.Closed → c.kind = .openParen →
    Reads (parenthesised n) c (ReadsPlain c)
  tail : ∀ {p c c' ts e}, SpellsTo c ts e c' → e.Withstands p → Reads (tail n p e) c' (ReadsIn p c)
  extension : ∀ {c c' ts e}, SpellsTo c ts e c' → Reads (extension n e) c' fun e' c'' =>
    (∃ us, SpellsTo c us e' c'') ∧ ∀ op l r, e'.binary? = some (op, l, r) → op.power = c'.kind.power
  arguments : ∀ {closing c}, closing ≠ .eof → c.Closed →
    Reads (arguments n closing) c (ReadsAll closing c)

theorem sound_zero : Sound 0 where
  expr _ := reads_exhausted
  head _ := reads_exhausted
  parenthesised _ _ := reads_exhausted
  tail _ _ := reads_exhausted
  extension _ := reads_exhausted
  arguments _ _ := reads_exhausted

/-- Nothing binds so tightly that it could belong to the end of a plain expression. -/
theorem SpellsTo.plain {c c' : Cursor} {ts : List Token} {e : Expr} (hp : c.Passes ts c')
    (hs : Spells ts e) (hc : e.correct = true) (hb : e.binary? = none) (hm : e.isMarked = false) :
    SpellsTo c ts e c' := by
  refine ⟨hp, hs, hc, ?_⟩
  have hedge : e.edge = .primary := by
    unfold Expr.edge
    rw [hb]
    simp [hm]
  rw [hedge]
  exact Nat.le_of_lt c'.kind.power_lt

/-- A mark takes the operand after it whole. -/
theorem ReadsIn.marked {c c' c'' : Cursor} {ts : List Token} {e e' : Expr}
    (h : ReadsIn .unary c' e c'') (hp : c.Passes ts c')
    (hs : ∀ us, Spells us e → Spells (ts ++ us) e') (hb : e'.binary? = none)
    (hm : e'.isMarked = true) (hc : e'.correct = (!e.power.looser .unary && e.correct)) :
    ReadsPlain c e' c'' := by
  obtain ⟨⟨us, hus⟩, hw, hk⟩ := h
  have hedge : e'.edge = .unary := by
    unfold Expr.edge
    rw [hb]
    simp [hm]
  have hpower := Expr.withstands_unary.1 hw
  refine ⟨⟨ts ++ us, hp.trans hus.passes, hs us hus.spells, ?_, ?_⟩, hb⟩
  · rw [hc, hus.correct]
    simpa [Power.looser] using hpower
  · rwa [hedge]

theorem ofToken_plain {t : Token} {e : Expr} (h : ofToken t = .ok e) :
    e.binary? = none ∧ e.isMarked = false ∧ e.correct = true := by
  unfold ofToken at h
  repeat' split at h
  all_goals cases h
  all_goals exact ⟨rfl, rfl, rfl⟩

theorem binary?_build (op : BinaryOp) (l r : Expr) :
    (op.build l r).binary? = some (op, l, r) := by
  cases op <;> rfl

theorem correct_build (op : BinaryOp) (l r : Expr) :
    (op.build l r).correct = (op.admits l r && l.correct && r.correct) := by
  cases op <;> rfl

/-- An operator takes the expression before it and the one after it whole. -/
theorem SpellsTo.binary {c c' c'' : Cursor} {ts : List Token} {l r : Expr} {op : BinaryOp}
    (h : SpellsTo c ts l c') (hop : c'.kind.binary? = some op)
    (hr : ReadsIn op.rightPower c'.next r c'') : ∃ us, SpellsTo c us (op.build l r) c'' := by
  have hne : c'.kind ≠ .eof := fun hk => by
    rw [hk] at hop
    cases hop
  obtain ⟨⟨us, hus⟩, hw, hk⟩ := hr
  have hpass := h.passes.trans ((Cursor.passes_next h.passes.closed hne).trans hus.passes)
  have hb := binary?_build op l r
  refine ⟨_, hpass, .binary hb h.spells hop hus.spells, ?_, ?_⟩
  · have hleft := h.edge
    rw [TokenKind.power_of_binary? hop, Expr.power_le_edge] at hleft
    have hlt : op.rightPower.rank < Power.unary.rank := by
      have := op.power_lt
      rw [op.rightPower_eq]
      split_ifs <;> omega
    have hadmits := BinaryOp.admits_iff.2 ⟨hleft, (Expr.withstands_iff hlt).1 hw⟩
    rw [correct_build, hadmits, h.correct, hus.correct]
    rfl
  · rwa [(Expr.power_of_binary? hb).2]

/-- What can be called, indexed or asked is neither an operator nor marked. -/
theorem SpellsTo.tight {c c' : Cursor} {ts : List Token} {e : Expr} (h : SpellsTo c ts e c')
    (hk : Power.unary.rank < c'.kind.power.rank) : Power.unary.looser e.power = true := by
  have hedge := Nat.lt_of_lt_of_le hk h.edge
  refine decide_eq_true ?_
  cases hb : e.binary? with
  | none => rwa [← (Expr.power_of_plain hb).1]
  | some b =>
    obtain ⟨op, l, r⟩ := b
    have hlt := op.power_lt
    rw [(Expr.power_of_binary? hb).2, op.rightPower_eq] at hedge
    split_ifs at hedge <;> omega

theorem ofToken_name {t : Token} {e : Expr} {s : Span} {name : String} (h : ofToken t = .ok e)
    (he : e.bare = (Expr.name s name).bare) : t.kind = .identifier ∧ t.value = name := by
  unfold ofToken at h
  repeat' split at h
  all_goals cases h
  all_goals cases he
  exact ⟨‹_›, rfl⟩

theorem ofToken_index {t : Token} {e i j : Expr} {s : Span} (h : ofToken t = .ok e) :
    e.bare ≠ (Expr.index s i j).bare := by
  intro he
  unfold ofToken at h
  repeat' split at h
  all_goals cases h
  all_goals cases he

/-- A second index makes a cell of the first. -/
theorem cell_of_index {ts us : List Token} {a z : Token} {s span : Span} {e i j : Expr}
    (h : Spells ts (.index s e i)) (ha : a.kind = .openBracket) (hj : Spells us j)
    (hz : z.kind = .closeBracket) : Spells (ts ++ a :: (us ++ [z])) (.cell span e i j) := by
  cases h with
  | token h he => exact absurd he (ofToken_index h)
  | binary he => cases he
  | index h he ha' hi hz' => exact .cell h he ha' hi hz' ha hj hz

theorem SpellsTo.indexed {c c' c'' : Cursor} {ts us : List Token} {e i e' : Expr} {span : Span}
    (h : SpellsTo c ts e c') (hk : c'.kind = .openBracket) (hi : SpellsTo c'.next us i c'')
    (hz : c''.kind = .closeBracket) (he : indexed e i span = .ok e') :
    (∃ us, SpellsTo c us e' c''.next) ∧ e'.binary? = none := by
  have htight := h.tight (by rw [hk]; decide)
  have hcorrect := h.correct
  have hpass := h.passes.trans ((h.passes.closed.next hk (by simp)).trans
    (hi.passes.trans (hi.passes.closed.next hz (by simp))))
  unfold Grammar.indexed at he
  split at he
  · cases he
    simp only [Expr.correct, Bool.and_eq_true] at hcorrect
    obtain ⟨⟨hordered, ht⟩, hrow⟩ := hcorrect
    refine ⟨⟨_, .plain hpass (cell_of_index h.spells hk hi.spells hz) ?_ rfl rfl⟩, rfl⟩
    simp only [Expr.correct, ht, hrow, hi.correct, Bool.and_true]
    exact hordered
  · cases he
  · rename_i hindex hcell
    cases he
    have helement : e.isElement = false := by
      cases e
      case index => exact absurd rfl (hindex _ _ _)
      case cell => exact absurd rfl (hcell _ _ _ _)
      all_goals rfl
    refine ⟨⟨_, .plain hpass (.index h.spells helement hk hi.spells hz) ?_ rfl rfl⟩, rfl⟩
    simp only [Expr.correct, hcorrect, hi.correct, Bool.and_true]
    exact htight

namespace Sound

variable {n : Nat} (ih : Sound n)
include ih

theorem expr_succ {p : Power} {c : Cursor} (hc : c.Closed) :
    Reads (Grammar.expr (n + 1) p) c (ReadsIn p c) := by
  simp only [Grammar.expr, reads_bind]
  refine (ih.head hc).imp ?_
  rintro e c' ⟨⟨ts, hts⟩, hb⟩
  exact ih.tail hts (Expr.withstands_of_plain hb)

theorem tail_succ {p : Power} {c c' : Cursor} {ts : List Token} {e : Expr}
    (h : SpellsTo c ts e c') (hp : e.Withstands p) :
    Reads (Grammar.tail (n + 1) p e) c' (ReadsIn p c) := by
  simp only [Grammar.tail, reads_bind, reads_kind]
  split_ifs with hk
  · simp only [reads_bind]
    refine (ih.extension h).imp ?_
    rintro e' c'' ⟨⟨us, hus⟩, hop⟩
    refine ih.tail hus fun op l r hb => ?_
    rw [hop op l r hb]
    simpa [Power.looser] using hk
  · refine reads_pure.2 ⟨⟨ts, h⟩, hp, ?_⟩
    simpa [Power.looser] using hk

theorem arguments_succ {closing : TokenKind} {c : Cursor} (hne : closing ≠ .eof)
    (hc : c.Closed) : Reads (Grammar.arguments (n + 1) closing) c (ReadsAll closing c) := by
  simp only [Grammar.arguments, reads_bind, reads_kind]
  split_ifs with hk
  · simp only [reads_bind, reads_advance, reads_pure]
    exact ⟨_, hc.next hk hne, .nil hk, rfl⟩
  · simp only [reads_bind]
    refine (ih.expr hc).imp ?_
    rintro e c' ⟨⟨ts, hts⟩, -, -⟩
    simp only [reads_kind]
    split_ifs with hk
    · simp only [reads_bind, reads_advance, reads_pure]
      refine ⟨_, hts.passes.trans (hts.passes.closed.next hk hne), .last hts.spells hk, ?_⟩
      simp [Expr.allCorrect, hts.correct]
    · simp only [reads_bind, reads_expect]
      intro hcomma
      have hnext := hts.passes.closed.next hcomma (by simp)
      refine (ih.arguments hne hnext.closed).imp ?_
      rintro es c'' ⟨us, hus, hes, hcorrect⟩
      refine reads_pure.2 ⟨_, hts.passes.trans (hnext.trans hus), .cons hts.spells hcomma hes, ?_⟩
      simp [Expr.allCorrect, hts.correct, hcorrect]

theorem parenthesised_succ {c : Cursor} (hc : c.Closed) (hk : c.kind = .openParen) :
    Reads (Grammar.parenthesised (n + 1)) c (ReadsPlain c) := by
  have h₁ := hc.next hk (by simp)
  simp only [Grammar.parenthesised, reads_bind, reads_advance, reads_kind]
  split_ifs with htype
  · simp only [reads_bind]
    refine (type_spells h₁.closed).imp ?_
    rintro ty c₁ ⟨ts, hts, hty⟩
    simp only [reads_expect]
    intro hz
    have h₂ := hts.closed.next hz (by simp)
    refine (ih.expr h₂.closed).imp fun e c' he => reads_pure.2 ?_
    refine he.marked (h₁.trans (hts.trans h₂)) (fun us hus => ?_) rfl rfl rfl
    simpa using Spells.cast hk hty hz hus
  · simp only [reads_bind]
    refine (ih.expr h₁.closed).imp ?_
    rintro e c' ⟨⟨ts, hts⟩, -, -⟩
    simp only [reads_expect, reads_spanFrom, reads_pure]
    intro hz
    have hpass := h₁.trans (hts.passes.trans (hts.passes.closed.next hz (by simp)))
    exact ⟨⟨_, .plain hpass (.group hk hts.spells hz) hts.correct rfl rfl⟩, rfl⟩

omit ih in
theorem newList_plain {c : Cursor} (hc : c.Closed) (hk : c.kind = .newWord) :
    Reads (Grammar.newList n) c (ReadsPlain c) := by
  have h₁ := hc.next hk (by simp)
  simp only [newList, listBase, reads_bind, reads_advance, reads_expectDetailed, reads_kind]
  intro hl
  have h₂ := h₁.trans (h₁.closed.next hl (by simp))
  split_ifs with hx
  · simp only [reads_bind, reads_advance, reads_position]
    have h₃ := h₂.trans (h₂.closed.next hx (by simp))
    refine (type_spells h₃.closed).imp ?_
    rintro ty c₁ ⟨ts, hts, hty⟩
    simp only [reads_expect, reads_ofOption, reads_pure, reads_spanFrom]
    intro hy b hb ha hz
    have h₄ := hts.closed.next hy (by simp)
    have h₅ := h₄.closed.next ha (by simp)
    have hpass := h₃.trans (hts.trans (h₄.trans (h₅.trans (h₅.closed.next hz (by simp)))))
    cases ty <;> cases hb
    refine ⟨⟨_, .plain hpass ?_ rfl rfl rfl⟩, rfl⟩
    simpa using Spells.newListOf hk hl hx hty hy ha hz
  · simp only [reads_pure, reads_expect, reads_spanFrom]
    intro ha hz
    have h₃ := h₂.closed.next ha (by simp)
    have hpass := h₂.trans (h₃.trans (h₃.closed.next hz (by simp)))
    exact ⟨⟨_, .plain hpass (.newList hk hl ha hz) rfl rfl rfl⟩, rfl⟩

theorem head_succ {c : Cursor} (hc : c.Closed) :
    Reads (Grammar.head (n + 1)) c (ReadsPlain c) := by
  have hprimary : c.kind ≠ .eof → Reads primary c (ReadsPlain c) := by
    intro hk
    simp only [primary, reads_bind, reads_advance, reads_ofExcept]
    intro e he
    obtain ⟨hb, hm, hcorrect⟩ := ofToken_plain he
    exact ⟨⟨_, .plain (Cursor.passes_next hc hk) (.token he rfl) hcorrect hb hm⟩, hb⟩
  simp only [Grammar.head, reads_bind, reads_kind]
  split
  case h_7 hk =>
    simp only [reads_bind, reads_advance]
    have h₁ := hc.next hk (by simp)
    refine (ih.expr h₁.closed).imp fun e c' he => reads_pure.2 ?_
    exact he.marked h₁ (fun us hus => .negate hk hus) rfl rfl rfl
  case h_8 hk =>
    simp only [reads_bind, reads_advance]
    have h₁ := hc.next hk (by simp)
    refine (ih.expr h₁.closed).imp fun e c' he => reads_pure.2 ?_
    exact he.marked h₁ (fun us hus => .not hk hus) rfl rfl rfl
  case h_9 hk => exact ih.parenthesised hc hk
  case h_10 hk =>
    simp only [reads_bind, reads_advance, reads_kind]
    have h₁ := hc.next hk (by simp)
    refine (ih.arguments (by simp) h₁.closed).imp ?_
    rintro es c' ⟨ts, hts, hes, hcorrect⟩
    simp only [reads_spanFrom, reads_pure]
    have hpass := h₁.trans hts
    split_ifs with hrows
    · have hn : ∀ t ∈ ts.head?, t.kind = .openBracket := fun t ht => hts.head t ht ▸ hrows
      exact ⟨⟨_, .plain hpass (.matrix hk hn hes) hcorrect rfl rfl⟩, rfl⟩
    · have hn : ∀ t ∈ ts.head?, t.kind ≠ .openBracket := fun t ht => hts.head t ht ▸ hrows
      exact ⟨⟨_, .plain hpass (.vector hk hn hes) hcorrect rfl rfl⟩, rfl⟩
  case h_11 hk => exact newList_plain hc hk
  case h_12 => exact reads_unexpected
  all_goals
    rename_i hk
    exact hprimary (by simp [hk])

theorem extension_succ {c c' : Cursor} {ts : List Token} {e : Expr} (h : SpellsTo c ts e c') :
    Reads (Grammar.extension (n + 1) e) c' fun e' c'' => (∃ us, SpellsTo c us e' c'') ∧
      ∀ op l r, e'.binary? = some (op, l, r) → op.power = c'.kind.power := by
  have hc := h.passes.closed
  simp only [Grammar.extension, reads_bind, reads_kind]
  split
  · rename_i op hop
    have hne : c'.kind ≠ .eof := fun hk => by
      rw [hk] at hop
      cases hop
    simp only [reads_bind, reads_advance]
    refine (ih.expr (Cursor.passes_next hc hne).closed).imp fun r c'' hr => reads_pure.2 ?_
    refine ⟨h.binary hop hr, fun op' l' r' hb => ?_⟩
    rw [binary?_build] at hb
    cases hb
    exact (TokenKind.power_of_binary? hop).symm
  · rename_i hb hk
    split
    · rename_i s name
      have h₁ := hc.next hk (by simp)
      simp only [reads_bind, reads_advance]
      refine (ih.arguments (by simp) h₁.closed).imp ?_
      rintro es c'' ⟨us, hus, hes, hcorrect⟩
      simp only [reads_spanFrom, reads_pure]
      refine ⟨⟨_, .plain (h.passes.trans (h₁.trans hus)) ?_ hcorrect rfl rfl⟩,
        by simp [Expr.binary?]⟩
      cases h.spells with
      | token ht he =>
        obtain ⟨ht, rfl⟩ := ofToken_name ht he
        exact .call ht hk hes
      | binary he => cases he
    · exact reads_unexpectedDetailed
  · rename_i hb hk
    simp only [reads_bind, reads_advance]
    refine (ih.expr (hc.next hk (by simp)).closed).imp ?_
    rintro i c₁ ⟨⟨us, hus⟩, -, -⟩
    simp only [reads_expect, reads_spanFrom, reads_ofExcept]
    intro hz e' he'
    obtain ⟨hs, hplain⟩ := h.indexed hk hus hz he'
    exact ⟨hs, by simp [hplain]⟩
  · rename_i hb hk
    have h₁ := hc.next hk (by simp)
    have htight := h.tight (by rw [hk]; decide)
    simp only [reads_bind, reads_advance, reads_expectDetailed, reads_expect]
    intro ht ha
    have h₂ := h₁.trans (h₁.closed.next ht (by simp))
    have h₃ := h₂.trans (h₂.closed.next ha (by simp))
    refine (ih.arguments (by simp) h₃.closed).imp ?_
    rintro es c'' ⟨us, hus, hes, hcorrect⟩
    simp only [reads_spanFrom, reads_pure]
    refine ⟨⟨_, .plain (h.passes.trans (h₃.trans hus)) (.method h.spells hk ht ha hes) ?_ rfl rfl⟩,
      by simp [Expr.binary?]⟩
    simp [Expr.correct, Expr.ordered, htight, h.correct, hcorrect]
  · exact reads_unexpected

end Sound

theorem sound (n : Nat) : Sound n := by
  induction n with
  | zero => exact sound_zero
  | succ n ih =>
    exact {
      expr := ih.expr_succ
      head := ih.head_succ
      parenthesised := ih.parenthesised_succ
      tail := ih.tail_succ
      extension := ih.extension_succ
      arguments := ih.arguments_succ }

end Grammar

end Primer
