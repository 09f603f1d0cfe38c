import Primer.Proofs.Nodes
import Primer.Proofs.ReadEnds

/-!
# Nodes are where they were read

A reader places the nodes it gives on the tokens it takes. The end of the token before a place is
the end of the last one taken, so a span up to there covers what was taken since its start. From
this and the order of tokens follows where the nodes of a program are (`Program.nodes_nest`).
-/

namespace Primer

namespace Cursor

/-- Tokens are taken on the way from a place to another, which knows where the last one ended. -/
structure Takes (c : Cursor) (ts : List Token) (c' : Cursor) : Prop extends c.Passes ts c' where
  last : c'.lastEnd? = (ts.getLast?.map (·.span.stop)).or c.lastEnd?

variable {c c' c'' : Cursor} {ts us : List Token} {s : Span}

theorem Takes.refl (hc : c.Closed) : c.Takes [] c := ⟨⟨rfl, hc⟩, rfl⟩

theorem Takes.trans (h : c.Takes ts c') (h' : c'.Takes us c'') : c.Takes (ts ++ us) c'' := by
  refine ⟨h.toPasses.trans h'.toPasses, ?_⟩
  rw [h'.last, h.last, List.getLast?_append]
  cases us.getLast? <;> rfl

theorem Closed.takes (hc : c.Closed) {k : TokenKind} (hk : c.kind = k) (hne : k ≠ .eof) :
    c.Takes [c.current] c.next := by
  have hpass := hc.next hk hne
  refine ⟨hpass, ?_⟩
  obtain ⟨current, _ | ⟨t, following⟩, lastEnd⟩ := c
  · cases hpass.rest
  · have hne : current.kind ≠ .eof := fun h => hne (hk.symm.trans h)
    simp [Cursor.next, Cursor.kind, hne]

theorem Takes.spanFrom (h : c.Takes ts c') (hs : ts.head?.map (·.span.start) = some s.start) :
    (c'.spanFrom s.start).Covers ts := by
  refine ⟨hs, ?_⟩
  have hlast := h.last
  cases ht : ts.getLast? with
  | none =>
    rw [List.getLast?_eq_none_iff.1 ht] at hs
    cases hs
  | some t =>
    rw [ht] at hlast
    simp [Cursor.spanFrom, lastEnd, hlast]

/-- The span from where tokens begin covers them. -/
theorem Takes.covers (h : c.Takes ts c') (hne : ts ≠ []) : (c'.spanFrom c.position).Covers ts := by
  refine h.spanFrom (s := ⟨c.position, c.position⟩) ?_
  cases ts with
  | nil => exact absurd rfl hne
  | cons t ts =>
    obtain rfl := h.head t rfl
    rfl

/-- The span from where earlier tokens begin covers them too. -/
theorem Takes.extends (h : c.Takes (ts ++ us) c') (hs : s.Covers ts) :
    (c'.spanFrom s.start).Covers (ts ++ us) := by
  refine h.spanFrom ?_
  obtain ⟨t, ts, rfl, ht⟩ := hs.first
  simp [ht]

/-- Constituents are spelled by the tokens taken on the way from a place to another, and nodes are
placed on some of these tokens, both in order. -/
def Holds (ns : List Node) (cs : List Constituent) (c c' : Cursor) : Prop :=
  ∃ ts, c.Takes ts c' ∧ Laid ts ns ∧ SpellsForm ts cs

variable {ns ms : List Node} {n m : Node} {cs ds : List Constituent} {k : TokenKind}

theorem Holds.closed (h : Holds ns cs c c') : c'.Closed := h.choose_spec.1.closed

theorem Holds.refl (hc : c.Closed) : Holds [] [] c c := ⟨[], .refl hc, .nil, .nil⟩

theorem Holds.trans (h : Holds ns cs c c') (h' : Holds ms ds c' c'') :
    Holds (ns ++ ms) (cs ++ ds) c c'' := by
  obtain ⟨ts, hts, hns, hcs⟩ := h
  obtain ⟨us, hus, hms, hds⟩ := h'
  exact ⟨ts ++ us, hts.trans hus, hns.append hms, hcs.append hds⟩

theorem Takes.one (h : c.Takes ts c') (hn : Placed ts n) : Holds [n] [n.constituent] c c' :=
  ⟨ts, h, .one hn, .one hn.written.spells⟩

/-- A constituent without nodes. -/
theorem Takes.plain {d : Constituent} (h : c.Takes ts c') (hd : d.Spells ts) :
    Holds [] [d] c c' :=
  ⟨ts, h, .nil, .one hd⟩

theorem Closed.skip (hc : c.Closed) (hk : c.kind = k) (hne : k ≠ .eof) :
    Holds [] [.mark k] c c.next :=
  (hc.takes hk hne).plain (.mark hk)

theorem Closed.skipName (hc : c.Closed) (hk : c.kind = .identifier) :
    Holds [] [.name c.current.value] c c.next :=
  (hc.takes hk (by simp)).plain (.name hk)

theorem Holds.take (h : Holds ns cs c c') (hk : c'.kind = k) (hne : k ≠ .eof) :
    Holds ns (cs ++ [.mark k]) c c'.next := by
  simpa only [List.append_nil] using h.trans (h.closed.skip hk hne)

theorem Holds.takeName (h : Holds ns cs c c') (hk : c'.kind = .identifier) :
    Holds ns (cs ++ [.name c'.current.value]) c c'.next := by
  simpa only [List.append_nil] using h.trans (h.closed.skipName hk)

/-- A node that begins with a token of its own is placed on it and on what its parts take. -/
theorem Holds.close (hc : c.Closed) (hk : c.kind = k) (hne : k ≠ .eof)
    (h : Holds n.parts cs c.next c') (hs : n.span = c'.spanFrom c.position)
    (hw : ∀ ts, SpellsForm ts (.mark k :: cs) → n.Written ts) : Holds [n] [n.constituent] c c' := by
  obtain ⟨ts, hts, hns, hcs⟩ := h
  have htakes := (hc.takes hk hne).trans hts
  refine htakes.one ⟨hw _ (.cons (.mark hk) hcs), ?_, hns.behind _⟩
  rw [hs]
  exact htakes.covers (by simp)

end Cursor

theorem Ty.Spells.ne_nil {ts : List Token} {ty : Ty} (h : ty.Spells ts) : ts ≠ [] := by
  cases h <;> simp

namespace Grammar

open Parse
open Cursor (Holds)

variable {n : Nat} {c c' : Cursor} {ts us : List Token}

/-! ## Types -/

/-- Tokens that were taken spell a type. -/
def TakesType (c : Cursor) (ty : Ty) (c' : Cursor) : Prop := ∃ ts, c.Takes ts c' ∧ ty.Spells ts

theorem arrays_takes {ty : Ty} (h : TakesType c ty c') : Reads (arrays n ty) c' (TakesType c) := by
  induction n generalizing ty c' with
  | zero => exact reads_exhausted
  | succ n ih =>
    obtain ⟨ts, hc, hs⟩ := id h
    simp only [arrays, reads_bind, reads_kind]
    split_ifs with hk
    · simp only [reads_bind, reads_advance, reads_expect]
      intro hz
      have h₁ := hc.closed.takes hk (by simp)
      have htakes := hc.trans (h₁.trans (h₁.closed.takes hz (by simp)))
      split
      · exact ih ⟨_, htakes, .matrix hs hk hz⟩
      · rename_i left _ _ _ _ hbase
        cases left <;> cases hbase
        exact ih ⟨_, htakes, .vector hs hk hz⟩
      · exact reads_fail
    · exact reads_pure.2 h

theorem type_takes (hc : c.Closed) : Reads (type n) c (TakesType c) := by
  induction n generalizing c with
  | zero => exact reads_exhausted
  | succ n ih =>
    simp only [type, reads_bind, reads_kind]
    split
    · rename_i hk
      simp only [reads_bind, reads_advance, reads_ofOption]
      intro ty hty
      exact arrays_takes ⟨_, hc.takes hk (by simp), .word hk hty⟩
    · rename_i hk
      simp only [reads_bind, reads_advance, reads_expect, reads_ofOption]
      intro ha
      have h₁ := hc.takes hk (by simp)
      have h₂ := h₁.closed.takes ha (by simp)
      refine (ih h₂.closed).imp ?_
      rintro elem c' ⟨ts, hts, hspells⟩ hz b hb
      have htakes := h₁.trans (h₂.trans (hts.trans (hts.closed.takes hz (by simp))))
      cases elem <;> cases hb
      exact arrays_takes ⟨_, htakes, .list hk ha hspells hz⟩
    · exact reads_unexpectedDetailed

theorem TakesType.holds {ty : Ty} (h : TakesType c ty c') : Holds [] [.type ty] c c' := by
  obtain ⟨ts, hts, hty⟩ := h
  exact hts.plain (.type hty)

theorem valueType_takes (hc : c.Closed) : Reads (valueType n) c (TakesType c) := by
  simp only [valueType, reads_bind, reads_position]
  refine (type_takes hc).imp fun ty c' h => ?_
  split_ifs
  · exact reads_fail
  · exact reads_pure.2 h

/-! ## Expressions -/

/-- An expression is placed on the tokens that were taken. -/
def Lays (c : Cursor) (e : Expr) (c' : Cursor) : Prop := ∃ ts, c.Takes ts c' ∧ Placed ts (.expr e)

/-- Expressions are placed on the tokens that were taken, up to what closes them. -/
def LaysAll (closing : TokenKind) (c : Cursor) (es : List Expr) (c' : Cursor) : Prop :=
  ∃ ts, c.Takes ts c' ∧ SpellsAll closing ts es ∧ Laid ts (es.map .expr)

theorem Lays.holds {e : Expr} (h : Lays c e c') : Holds [.expr e] [.expr e] c c' := by
  obtain ⟨ts, hts, he⟩ := h
  exact hts.one he

theorem LaysAll.holds {es : List Expr} (h : LaysAll .closeParen c es c') :
    Holds (es.map .expr) [.arguments es] c c' := by
  obtain ⟨ts, hts, hspells, hes⟩ := h
  exact ⟨ts, hts, hes, .one (.arguments hspells)⟩

theorem ofToken_placed {t : Token} {e : Expr} (h : ofToken t = .ok e) : Placed [t] (.expr e) := by
  have hw : Spells [t] e := .token h rfl
  have hs : e.span = t.span ∧ e.parts = [] := by
    unfold ofToken at h
    repeat' split at h
    all_goals cases h
    all_goals exact ⟨rfl, rfl⟩
  refine ⟨hw, ?_, ?_⟩
  · rw [Node.span, hs.1]
    exact .single t
  · rw [Node.parts, hs.2]
    exact .nil

theorem placed_build {op : BinaryOp} {l r : Expr} {t : Token} (hl : Placed ts (.expr l))
    (ht : t.kind.binary? = some op) (hr : Placed us (.expr r)) :
    Placed (ts ++ t :: us) (.expr (op.build l r)) := by
  refine ⟨.binary (binary?_build op l r) hl.written ht hr.written, ?_, ?_⟩
  · have h := hl.covers.append ((Span.Covers.single t).append hr.covers)
    cases op <;> exact h
  · have h := (Laid.one hl).append ((Laid.one hr).behind [t])
    cases op <;> exact h

theorem placed_indexed {e i e' : Expr} {a z : Token} {span : Span} (h : Placed ts (.expr e))
    (ha : a.kind = .openBracket) (hi : Placed us (.expr i)) (hz : z.kind = .closeBracket)
    (he : indexed e i span = .ok e') (hs : span.Covers (ts ++ a :: (us ++ [z]))) :
    Placed (ts ++ a :: (us ++ [z])) (.expr e') := by
  have hi' : Laid (a :: (us ++ [z])) [.expr i] := ((Laid.one hi).before [z]).behind [a]
  unfold indexed at he
  split at he
  · cases he
    exact ⟨cell_of_index h.written ha hi.written hz, hs, h.laid.append hi'⟩
  · cases he
  · rename_i hindex hcell
    cases he
    have helement : e.isElement = false := by
      cases e
      case index => exact absurd rfl (hindex _ _ _)
      case cell => exact absurd rfl (hcell _ _ _ _)
      all_goals rfl
    exact ⟨.index h.written helement ha hi.written hz, hs, (Laid.one h).append hi'⟩

/-- Every reader of expressions places what it gives on the tokens it takes. -/
structure Placing (n : Nat) : Prop where
  expr : ∀ {p c}, c.Closed → Reads (expr n p) c (Lays c)
  head : ∀ {c}, c.Closed → Reads (head n) c (Lays c)
  parenthesised : ∀ {c}, c.Closed → c.kind = .openParen → Reads (parenthesised n) c (Lays c)
  tail : ∀ {p c e c'}, Lays c e c' → Reads (tail n p e) c' (Lays c)
  extension : ∀ {c e c'}, Lays c e c' → Reads (extension n e) c' (Lays c)
  arguments : ∀ {closing c}, closing ≠ .eof → c.Closed →
    Reads (arguments n closing) c (LaysAll closing c)

namespace Placing

variable (ih : Placing n)
include ih

theorem expr_succ {p : Power} (hc : c.Closed) : Reads (Grammar.expr (n + 1) p) c (Lays c) := by
  simp only [Grammar.expr, reads_bind]
  exact (ih.head hc).imp fun e c' he => ih.tail he

theorem tail_succ {p : Power} {e : Expr} (h : Lays c e c') :
    Reads (Grammar.tail (n + 1) p e) c' (Lays c) := by
  simp only [Grammar.tail, reads_bind, reads_kind]
  split_ifs
  · simp only [reads_bind]
    exact (ih.extension h).imp fun e' c'' he => ih.tail he
  · exact reads_pure.2 h

theorem arguments_succ {closing : TokenKind} (hne : closing ≠ .eof) (hc : c.Closed) :
    Reads (Grammar.arguments (n + 1) closing) c (LaysAll closing c) := by
  simp only [Grammar.arguments, reads_bind, reads_kind]
  split_ifs with hk
  · simp only [reads_bind, reads_advance, reads_pure]
    exact ⟨_, hc.takes hk hne, .nil hk, .nil⟩
  · simp only [reads_bind]
    refine (ih.expr hc).imp ?_
    rintro e c' ⟨ts, hts, he⟩
    simp only [reads_kind]
    split_ifs with hk
    · simp only [reads_bind, reads_advance, reads_pure]
      exact ⟨_, hts.trans (hts.closed.takes hk hne), .last he.written hk, (Laid.one he).before _⟩
    · simp only [reads_bind, reads_expect]
      intro hcomma
      have hnext := hts.closed.takes hcomma (by simp)
      refine (ih.arguments hne hnext.closed).imp ?_
      rintro es c'' ⟨us, hus, hspells, hes⟩
      refine reads_pure.2 ⟨_, hts.trans (hnext.trans hus), .cons he.written hcomma hspells, ?_⟩
      exact (Laid.one he).append (hes.behind _)

theorem parenthesised_succ (hc : c.Closed) (hk : c.kind = .openParen) :
    Reads (Grammar.parenthesised (n + 1)) c (Lays c) := by
  have h₁ := hc.takes hk (by simp)
  simp only [Grammar.parenthesised, reads_bind, reads_advance, reads_kind]
  split_ifs with htype
  · simp only [reads_bind]
    refine (type_takes h₁.closed).imp ?_
    rintro ty c₁ ⟨ts, hts, hty⟩
    simp only [reads_expect]
    intro hz
    have h₂ := hts.closed.takes hz (by simp)
    refine (ih.expr h₂.closed).imp ?_
    rintro e c' ⟨us, hus, he⟩
    have hfront := h₁.trans (hts.trans h₂)
    refine reads_pure.2 ⟨_, hfront.trans hus, ?_, (hfront.covers (by simp)).append he.covers,
      (Laid.one he).behind _⟩
    have hspells : Spells _ (.cast ⟨c.current.span.start, e.span.stop⟩ ty e) :=
      .cast hk hty hz he.written
    simpa only [Node.Written, List.append_assoc, List.cons_append, List.nil_append] using hspells
  · simp only [reads_bind]
    refine (ih.expr h₁.closed).imp ?_
    rintro e c' ⟨ts, hts, he⟩
    simp only [reads_expect, reads_spanFrom, reads_pure]
    intro hz
    have htakes := h₁.trans (hts.trans (hts.closed.takes hz (by simp)))
    exact ⟨_, htakes, .group hk he.written hz, htakes.covers (by simp),
      ((Laid.one he).before _).behind _⟩

omit ih in
theorem newList_lays (hc : c.Closed) (hk : c.kind = .newWord) :
    Reads (Grammar.newList n) c (Lays c) := by
  have h₁ := hc.takes hk (by simp)
  simp only [newList, listBase, reads_bind, reads_advance, reads_expectDetailed, reads_kind]
  intro hl
  have h₂ := h₁.trans (h₁.closed.takes hl (by simp))
  split_ifs with hx
  · simp only [reads_bind, reads_advance, reads_position]
    have h₃ := h₂.trans (h₂.closed.takes hx (by simp))
    refine (type_takes h₃.closed).imp ?_
    rintro ty c₁ ⟨ts, hts, hty⟩
    simp only [reads_expect, reads_ofOption, reads_pure, reads_spanFrom]
    intro hy b hb ha hz
    have h₄ := hts.closed.takes hy (by simp)
    have h₅ := h₄.closed.takes ha (by simp)
    have htakes := h₃.trans (hts.trans (h₄.trans (h₅.trans (h₅.closed.takes hz (by simp)))))
    cases ty <;> cases hb
    refine ⟨_, htakes, ?_, htakes.covers (by simp), .nil⟩
    have hspells : Spells _ (.newList (c₁.next.next.next.spanFrom c.current.span.start) _) :=
      .newListOf hk hl hx hty hy ha hz
    simpa only [Node.Written, List.append_assoc, List.cons_append, List.nil_append] using hspells
  · simp only [reads_pure, reads_expect, reads_spanFrom]
    intro ha hz
    have h₃ := h₂.closed.takes ha (by simp)
    have htakes := h₂.trans (h₃.trans (h₃.closed.takes hz (by simp)))
    exact ⟨_, htakes, .newList hk hl ha hz, htakes.covers (by simp), .nil⟩

theorem head_succ (hc : c.Closed) : Reads (Grammar.head (n + 1)) c (Lays c) := by
  have hprimary : c.kind ≠ .eof → Reads primary c (Lays c) := by
    intro hk
    simp only [primary, reads_bind, reads_advance, reads_ofExcept]
    exact fun e he => ⟨_, hc.takes rfl hk, ofToken_placed he⟩
  simp only [Grammar.head, reads_bind, reads_kind]
  split
  case h_7 hk =>
    simp only [reads_bind, reads_advance]
    have h₁ := hc.takes hk (by simp)
    refine (ih.expr h₁.closed).imp ?_
    rintro e c' ⟨ts, hts, he⟩
    refine reads_pure.2 ⟨_, h₁.trans hts, .negate hk he.written, ?_, (Laid.one he).behind _⟩
    exact (Span.Covers.single c.current).append he.covers
  case h_8 hk =>
    simp only [reads_bind, reads_advance]
    have h₁ := hc.takes hk (by simp)
    refine (ih.expr h₁.closed).imp ?_
    rintro e c' ⟨ts, hts, he⟩
    refine reads_pure.2 ⟨_, h₁.trans hts, .not hk he.written, ?_, (Laid.one he).behind _⟩
    exact (Span.Covers.single c.current).append he.covers
  case h_9 hk => exact ih.parenthesised hc hk
  case h_10 hk =>
    simp only [reads_bind, reads_advance, reads_kind]
    have h₁ := hc.takes hk (by simp)
    refine (ih.arguments (by simp) h₁.closed).imp ?_
    rintro es c' ⟨ts, hts, hspells, hes⟩
    simp only [reads_spanFrom, reads_pure]
    have htakes := h₁.trans hts
    split_ifs with hrows
    · have hn : ∀ t ∈ ts.head?, t.kind = .openBracket := fun t ht => hts.head t ht ▸ hrows
      exact ⟨_, htakes, .matrix hk hn hspells, htakes.covers (by simp), hes.behind _⟩
    · have hn : ∀ t ∈ ts.head?, t.kind ≠ .openBracket := fun t ht => hts.head t ht ▸ hrows
      exact ⟨_, htakes, .vector hk hn hspells, htakes.covers (by simp), hes.behind _⟩
  case h_11 hk => exact newList_lays hc hk
  case h_12 => exact reads_unexpected
  all_goals
    rename_i hk
    exact hprimary (by simp [hk])

theorem extension_succ {e : Expr} (h : Lays c e c') :
    Reads (Grammar.extension (n + 1) e) c' (Lays c) := by
  obtain ⟨ts, hts, he⟩ := h
  have hc := hts.closed
  simp only [Grammar.extension, reads_bind, reads_kind]
  split
  · rename_i op hop
    have hne : c'.kind ≠ .eof := fun hk => by
      rw [hk] at hop
      cases hop
    simp only [reads_bind, reads_advance]
    have h₁ := hc.takes rfl hne
    refine (ih.expr h₁.closed).imp ?_
    rintro r c'' ⟨us, hus, hr⟩
    exact reads_pure.2 ⟨_, hts.trans (h₁.trans hus), placed_build he hop hr⟩
  · rename_i hb hk
    split
    · rename_i s name
      have h₁ := hc.takes hk (by simp)
      simp only [reads_bind, reads_advance]
      refine (ih.arguments (by simp) h₁.closed).imp ?_
      rintro es c'' ⟨us, hus, hspells, hes⟩
      simp only [reads_spanFrom, reads_pure]
      have htakes := hts.trans (h₁.trans hus)
      refine ⟨_, htakes, ?_, htakes.extends he.covers, (hes.behind _).behind _⟩
      cases he.written with
      | token ht he =>
        obtain ⟨ht, rfl⟩ := ofToken_name ht he
        exact .call ht hk hspells
      | binary he => cases he
    · exact reads_unexpectedDetailed
  · rename_i hb hk
    have h₁ := hc.takes hk (by simp)
    simp only [reads_bind, reads_advance]
    refine (ih.expr h₁.closed).imp ?_
    rintro i c₁ ⟨us, hus, hi⟩
    simp only [reads_expect, reads_spanFrom, reads_ofExcept]
    intro hz e' he'
    have htakes := hts.trans (h₁.trans (hus.trans (hus.closed.takes hz (by simp))))
    exact ⟨_, htakes, placed_indexed he hk hi hz he' (htakes.extends he.covers)⟩
  · rename_i hb hk
    have h₁ := hc.takes hk (by simp)
    simp only [reads_bind, reads_advance, reads_expectDetailed, reads_expect]
    intro ht ha
    have h₂ := h₁.closed.takes ht (by simp)
    have h₃ := h₂.closed.takes ha (by simp)
    refine (ih.arguments (by simp) h₃.closed).imp ?_
    rintro es c'' ⟨us, hus, hspells, hes⟩
    simp only [reads_spanFrom, reads_pure]
    have htakes := hts.trans (h₁.trans (h₂.trans (h₃.trans hus)))
    refine ⟨_, htakes, .method he.written hk ht ha hspells, htakes.extends he.covers, ?_⟩
    exact (Laid.one he).append (((hes.behind _).behind _).behind _)
  · exact reads_unexpected

end Placing

theorem placing (n : Nat) : Placing n := by
  induction n with
  | zero => constructor <;> intros <;> exact reads_exhausted
  | succ n ih =>
    exact {
      expr := ih.expr_succ
      head := ih.head_succ
      parenthesised := ih.parenthesised_succ
      tail := ih.tail_succ
      extension := ih.extension_succ
      arguments := ih.arguments_succ }

theorem expr_lays {p : Power} (hc : c.Closed) : Reads (expr n p) c (Lays c) := (placing n).expr hc

/-! ## Statements -/

theorem spells_index {span : Span} {e i : Expr} (h : Spells ts (.index span e i)) :
    Spells ts (.index default e i) := by
  cases h with
  | token ht he => exact .token ht he
  | binary he => cases he
  | index he hn ha hi hz => exact .index he hn ha hi hz

theorem spells_cell {span : Span} {e i j : Expr} (h : Spells ts (.cell span e i j)) :
    Spells ts (.cell default e i j) := by
  cases h with
  | token ht he => exact .token ht he
  | binary he => cases he
  | cell he hn ha hi hz hb hj hy => exact .cell he hn ha hi hz hb hj hy

/-- An assignment is placed where what is assigned to and the value are. -/
theorem placed_assignment {e v : Expr} {t : Token} {span : Span} (h : Placed ts (.expr e))
    (he : e.isTarget = true) (ht : t.kind = .assignment) (hv : Placed us (.expr v))
    (hs : span.Covers (ts ++ t :: us)) :
    Placed (ts ++ t :: us) (.stmt (assignment span e v)) := by
  have hvalue : SpellsForm (t :: us) [.mark .assignment, .expr v] :=
    .cons (.mark ht) (.one (.expr hv.written))
  have hparts := h.laid.append ((Laid.one hv).behind [t])
  cases e with
  | name s x =>
    refine ⟨?_, hs, hparts⟩
    cases h.written with
    | token hu hx =>
      obtain ⟨hk, rfl⟩ := ofToken_name hu hx
      exact .cons (.name hk) hvalue
    | binary hx => cases hx
  | index s a i => exact ⟨.cons (.expr (spells_index h.written)) hvalue, hs, hparts⟩
  | cell s a i j => exact ⟨.cons (.expr (spells_cell h.written)) hvalue, hs, hparts⟩
  | _ => cases he

theorem step_holds {e : Expr} {up : Bool} (hts : c.Takes ts c') (he : Placed ts (.expr e))
    (hk : c'.kind = if up then .plusPlus else .minusMinus) :
    Holds [.stmt (.step (c'.next.spanFrom c.position) e up)]
      [.stmt (.step (c'.next.spanFrom c.position) e up)] c c'.next := by
  have htakes := hts.trans (hts.closed.takes hk (by cases up <;> simp))
  exact htakes.one ⟨.cons (.expr he.written) (.one (.mark hk)), htakes.covers (by simp),
    (Laid.one he).before _⟩

theorem simple_holds (hc : c.Closed) :
    Reads (simple n) c fun s => Holds [.stmt s] [.stmt s] c := by
  simp only [simple, reads_bind, reads_position]
  refine (expr_lays hc).imp ?_
  rintro e c₁ ⟨ts, hts, he⟩
  simp only [reads_kind]
  split
  case h_1 hk =>
    split_ifs with htarget
    · simp only [reads_bind, reads_advance]
      have h₁ := hts.closed.takes hk (by simp)
      refine (expr_lays h₁.closed).imp ?_
      rintro v c' ⟨us, hus, hv⟩
      simp only [reads_spanFrom, reads_pure]
      have htakes := hts.trans (h₁.trans hus)
      exact htakes.one (placed_assignment he htarget hk hv (htakes.covers (by simp)))
    · exact reads_unexpectedDetailed
  case h_2 hk =>
    split_ifs
    · simp only [reads_bind, reads_advance, reads_spanFrom, reads_pure]
      exact step_holds hts he hk
    · exact reads_unexpectedDetailed
  case h_3 hk =>
    split_ifs
    · simp only [reads_bind, reads_advance, reads_spanFrom, reads_pure]
      exact step_holds hts he hk
    · exact reads_unexpectedDetailed
  case h_4 =>
    simp only [reads_bind, reads_spanFrom, reads_pure]
    have hne : ts ≠ [] := by
      obtain ⟨t, us, rfl, -⟩ := he.covers.first
      simp
    exact hts.one ⟨.one (.expr he.written), hts.covers hne, .one he⟩

theorem declaration_holds (hc : c.Closed) :
    Reads (declaration n) c fun s => Holds [.stmt s] [.stmt s] c := by
  simp only [declaration, reads_bind, reads_expect, reads_expectDetailed]
  intro hvar hname hcolon
  have h₁ := (hc.skip hvar (by simp)).closed
  have h₂ := (h₁.skipName hname).take hcolon (by simp)
  refine (valueType_takes h₂.closed).imp fun ty c₁ hty => ?_
  have h₃ := h₂.trans hty.holds
  simp only [reads_kind]
  split_ifs with hk
  · simp only [reads_bind, reads_advance]
    have h₄ := h₃.take hk (by simp)
    refine (expr_lays h₄.closed).imp fun v c' hv => ?_
    simp only [reads_spanFrom, reads_pure]
    exact .close hc hvar (by simp) (h₄.trans hv.holds) rfl fun _ h => h
  · simp only [reads_bind, reads_spanFrom, reads_pure]
    exact .close hc hvar (by simp) h₃ rfl fun _ h => h

theorem condition_holds (hc : c.Closed) : Reads (condition n) c fun e =>
    Holds [.expr e] [.mark .openParen, .expr e, .mark .closeParen] c := by
  simp only [condition, reads_bind, reads_expect]
  intro ha
  have h₁ := hc.skip ha (by simp)
  refine (expr_lays h₁.closed).imp fun e c' he => ?_
  simp only [reads_pure]
  exact fun hz => (h₁.trans he.holds).take hz (by simp)

theorem jump_holds {make : Span → Stmt} {k : TokenKind} (hc : c.Closed) (hk : c.kind = k)
    (hne : k ≠ .eof) (hs : ∀ s, (make s).span = s) (hp : ∀ s, (make s).nodes = [])
    (hf : ∀ s, (make s).form = [.mark k, .mark .semicolon])
    (hr : ∀ s, (make s).row = [.stmt (make s)]) :
    Reads (jump make) c fun s => Holds [.stmt s] s.row c := by
  simp only [jump, reads_bind, reads_advance, reads_expect, reads_spanFrom, reads_pure]
  intro hz
  have h₁ := (hc.skip hk hne).closed
  have hnone : Holds (Node.stmt (make (c.next.next.spanFrom c.position))).parts
      [.mark .semicolon] c.next c.next.next := by
    simpa only [Node.parts, hp] using h₁.skip hz (by simp)
  rw [hr]
  exact .close hc hk hne hnone (hs _) fun ts h => by simpa only [Node.Written, hf] using h

theorem giveBack_holds (hc : c.Closed) (hk : c.kind = .returnWord) :
    Reads (giveBack n) c fun s => Holds [.stmt s] s.row c := by
  have h₁ := (hc.skip hk (by simp)).closed
  simp only [giveBack, reads_bind, reads_advance, reads_kind]
  split_ifs with hz
  · simp only [reads_bind, reads_advance, reads_spanFrom, reads_pure]
    exact .close hc hk (by simp) (h₁.skip hz (by simp)) rfl fun _ h => h
  · simp only [reads_bind]
    refine (expr_lays h₁).imp fun e c' he => ?_
    simp only [reads_expect, reads_spanFrom, reads_pure]
    exact fun hz => .close hc hk (by simp) (he.holds.take hz (by simp)) rfl fun _ h => h

theorem print_holds (hc : c.Closed) (hk : c.kind = .printWord) :
    Reads (print n) c fun s => Holds [.stmt s] s.row c := by
  have h₁ := (hc.skip hk (by simp)).closed
  simp only [print, reads_bind, reads_advance]
  refine (condition_holds h₁).imp fun e c' he => ?_
  simp only [reads_expect, reads_spanFrom, reads_pure]
  exact fun hz => .close hc hk (by simp) (he.take hz (by simp)) rfl fun _ h => h

theorem start_holds (hc : c.Closed) (hk : c.kind = .startWord) :
    Reads (start n) c fun s => Holds [.stmt s] s.row c := by
  have h₁ := (hc.skip hk (by simp)).closed
  simp only [start, reads_bind, reads_advance, reads_expectDetailed, reads_expect]
  intro hname ha
  have h₂ := (h₁.skipName hname).take ha (by simp)
  refine ((placing n).arguments (by simp) h₂.closed).imp fun es c' hes => ?_
  simp only [reads_spanFrom, reads_pure]
  exact fun hz => .close hc hk (by simp) ((h₂.trans hes.holds).take hz (by simp)) rfl fun _ h => h

theorem parameters_takes (hc : c.Closed) :
    Reads (parameters n) c fun qs c' => ∃ ts, c.Takes ts c' ∧ SpellsParameters ts qs := by
  induction n generalizing c with
  | zero => exact reads_exhausted
  | succ n ih =>
    simp only [parameters, reads_bind, reads_kind]
    split_ifs with hk
    · simp only [reads_bind, reads_advance, reads_pure]
      exact ⟨_, hc.takes hk (by simp), .nil hk⟩
    · simp only [reads_bind, reads_position]
      refine (valueType_takes hc).imp ?_
      rintro ty c₁ ⟨ts, hts, hty⟩
      simp only [reads_expectDetailed, reads_kind]
      intro hname
      have h₁ := hts.closed.takes hname (by simp)
      split_ifs with hk
      · simp only [reads_bind, reads_advance, reads_pure]
        exact ⟨_, hts.trans (h₁.trans (h₁.closed.takes hk (by simp))), .last hty hname rfl hk⟩
      · simp only [reads_bind, reads_expect]
        intro hcomma
        have h₂ := h₁.closed.takes hcomma (by simp)
        refine (ih h₂.closed).imp ?_
        rintro qs c' ⟨us, hus, hqs⟩
        exact reads_pure.2 ⟨_, hts.trans (h₁.trans (h₂.trans hus)),
          .cons hty hname rfl hcomma hqs⟩

theorem forFirst_holds (hc : c.Closed) :
    Reads (forFirst n) c fun s => Holds (s.toList.map .stmt) (s.toList.map .stmt) c := by
  simp only [forFirst, reads_bind, reads_kind]
  split
  · exact reads_pure.2 (.refl hc)
  · simp only [reads_bind]
    exact (declaration_holds hc).imp fun s c' hs => reads_pure.2 hs
  · simp only [reads_bind]
    exact (simple_holds hc).imp fun s c' hs => reads_pure.2 hs

theorem forCondition_holds (hc : c.Closed) :
    Reads (forCondition n) c fun e => Holds (e.toList.map .expr) (e.toList.map .expr) c := by
  simp only [forCondition, reads_bind, reads_kind]
  split_ifs
  · exact reads_pure.2 (.refl hc)
  · simp only [reads_bind]
    exact (expr_lays hc).imp fun e c' he => reads_pure.2 he.holds

theorem forNext_holds (hc : c.Closed) :
    Reads (forNext n) c fun s => Holds (s.toList.map .stmt) (s.toList.map .stmt) c := by
  simp only [forNext, reads_bind, reads_kind]
  split_ifs
  · exact reads_pure.2 (.refl hc)
  · simp only [reads_bind]
    exact (simple_holds hc).imp fun s c' hs => reads_pure.2 hs

/-- Every reader of statements places what it gives on the tokens it takes. -/
structure Settling (n : Nat) : Prop where
  stmt : ∀ {c}, c.Closed → Reads (stmt n) c fun s => Holds [.stmt s] s.row c
  stmts : ∀ {ends c}, c.Closed → Reads (stmts n ends) c fun ss =>
    Holds (ss.map .stmt) (ss.flatMap Stmt.row) c
  block : ∀ {c}, c.Closed → Reads (block n) c fun b => Holds [.block b] [.block b] c
  branch : ∀ {c}, c.Closed → c.kind = .ifWord →
    Reads (branch n) c fun s => Holds [.stmt s] [.stmt s] c
  switch : ∀ {c}, c.Closed → c.kind = .switchWord →
    Reads (switch n) c fun s => Holds [.stmt s] s.row c
  cases : ∀ {c}, c.Closed → Reads (cases n) c fun ks => Holds (ks.map .case) (ks.map .case) c
  fallback : ∀ {c}, c.Closed → Reads (fallback n) c fun d =>
    Holds ((d.getD []).map .stmt) (Stmt.fallbackForm d) c
  function : ∀ {c}, c.Closed → Reads (function n) c fun f =>
    Holds [.stmt (.function f)] [.stmt (.function f)] c

namespace Settling

variable (ih : Settling n)
include ih

theorem stmts_succ {ends : TokenKind → Bool} (hc : c.Closed) :
    Reads (Grammar.stmts (n + 1) ends) c fun ss =>
      Holds (ss.map .stmt) (ss.flatMap Stmt.row) c := by
  simp only [Grammar.stmts, reads_bind, reads_kind]
  split_ifs
  · exact reads_pure.2 (.refl hc)
  · simp only [reads_bind]
    refine (ih.stmt hc).imp fun s c₁ hs => (ih.stmts hs.closed).imp fun ss c' hss => ?_
    exact reads_pure.2 (hs.trans hss)

theorem block_succ (hc : c.Closed) :
    Reads (Grammar.block (n + 1)) c fun b => Holds [.block b] [.block b] c := by
  simp only [Grammar.block, reads_bind, reads_expect]
  intro hk
  refine (ih.stmts (hc.skip hk (by simp)).closed).imp fun ss c' hss => ?_
  simp only [reads_spanFrom, reads_pure]
  exact fun hz => .close hc hk (by simp) (hss.take hz (by simp)) rfl fun _ h => h

/-- A block stands for a statement where it is. -/
theorem block_stmt (hc : c.Closed) :
    Reads (Grammar.block n) c fun b => Holds [.stmt (.block b)] [.stmt (.block b)] c := by
  refine (ih.block hc).imp ?_
  rintro b c' ⟨ts, hts, hlaid, hform⟩
  exact ⟨ts, hts, hlaid.exchange fun h => ⟨.one (.block h.written), h.covers, .one h⟩,
    .one (.stmt hform)⟩

theorem branch_succ (hc : c.Closed) (hk : c.kind = .ifWord) :
    Reads (Grammar.branch (n + 1)) c fun s => Holds [.stmt s] [.stmt s] c := by
  simp only [Grammar.branch, reads_bind, reads_advance]
  refine (condition_holds (hc.skip hk (by simp)).closed).imp fun test c₁ htest => ?_
  refine (ih.block htest.closed).imp fun body c₂ hbody => ?_
  have h₁ := htest.trans hbody
  simp only [reads_kind]
  split_ifs with helse
  · have h₂ := h₁.take helse (by simp)
    simp only [reads_bind, reads_advance, reads_kind]
    split_ifs with hif
    · simp only [reads_bind]
      refine (ih.branch h₂.closed hif).imp fun other c' hother => ?_
      simp only [reads_spanFrom, reads_pure]
      exact .close hc hk (by simp) (h₂.trans hother) rfl fun _ h => h
    · simp only [reads_bind]
      refine (ih.block_stmt h₂.closed).imp fun other c' hother => ?_
      simp only [reads_spanFrom, reads_pure]
      exact .close hc hk (by simp) (h₂.trans hother) rfl fun _ h => h
  · simp only [reads_bind, reads_spanFrom, reads_pure]
    exact .close hc hk (by simp) h₁ rfl fun _ h => h

theorem switch_succ (hc : c.Closed) (hk : c.kind = .switchWord) :
    Reads (Grammar.switch (n + 1)) c fun s => Holds [.stmt s] s.row c := by
  simp only [Grammar.switch, reads_bind, reads_advance]
  refine (condition_holds (hc.skip hk (by simp)).closed).imp fun test c₁ htest => ?_
  simp only [reads_expect]
  intro hcurly
  have h₁ := htest.take hcurly (by simp)
  refine (ih.cases h₁.closed).imp fun cases c₂ hcases => ?_
  refine (ih.fallback hcases.closed).imp fun fallback c' hfallback => ?_
  simp only [reads_expectDetailed, reads_spanFrom, reads_pure]
  intro hz
  exact .close hc hk (by simp) (((h₁.trans hcases).trans hfallback).take hz (by simp)) rfl
    fun _ h => h

theorem cases_succ (hc : c.Closed) :
    Reads (Grammar.cases (n + 1)) c fun ks => Holds (ks.map .case) (ks.map .case) c := by
  simp only [Grammar.cases, reads_bind, reads_kind]
  split_ifs with hk
  · simp only [reads_bind, reads_advance]
    refine (expr_lays (hc.skip hk (by simp)).closed).imp fun value c₁ hvalue => ?_
    simp only [reads_expect]
    intro hcolon
    have h₁ := hvalue.holds.take hcolon (by simp)
    refine (ih.stmts h₁.closed).imp fun body c₂ hbody => ?_
    simp only [reads_spanFrom]
    have hcase : Holds [.case ⟨value, body, c₂.spanFrom c.position⟩]
        [.case ⟨value, body, c₂.spanFrom c.position⟩] c c₂ :=
      .close hc hk (by simp) (h₁.trans hbody) rfl fun _ h => h
    exact (ih.cases hcase.closed).imp fun ks c' hks => reads_pure.2 (hcase.trans hks)
  · exact reads_pure.2 (.refl hc)

theorem fallback_succ (hc : c.Closed) :
    Reads (Grammar.fallback (n + 1)) c fun d =>
      Holds ((d.getD []).map .stmt) (Stmt.fallbackForm d) c := by
  simp only [Grammar.fallback, reads_bind, reads_kind]
  split_ifs with hk
  · simp only [reads_bind, reads_advance, reads_expect]
    intro hcolon
    have h₁ := (hc.skip hk (by simp)).take hcolon (by simp)
    exact (ih.stmts h₁.closed).imp fun ss c' hss => reads_pure.2 (h₁.trans hss)
  · exact reads_pure.2 (.refl hc)

theorem function_succ (hc : c.Closed) :
    Reads (Grammar.function (n + 1)) c fun f =>
      Holds [.stmt (.function f)] [.stmt (.function f)] c := by
  simp only [Grammar.function, reads_bind, reads_position]
  refine (type_takes hc).imp ?_
  rintro ty c₁ ⟨ts, hts, hty⟩
  simp only [reads_expectDetailed, reads_expect]
  intro hname ha
  have h₁ := (hts.closed.skipName hname).take ha (by simp)
  refine (parameters_takes h₁.closed).imp ?_
  rintro qs c₂ ⟨us, hus, hqs⟩
  refine (ih.block hus.closed).imp fun body c' hbody => ?_
  simp only [reads_spanFrom, reads_pure]
  obtain ⟨vs, hvs, hlaid, hform⟩ := (h₁.trans (hus.plain (.parameters hqs))).trans hbody
  have htakes := hts.trans hvs
  have hne : ts ++ vs ≠ [] := by simp [hty.ne_nil]
  exact htakes.one ⟨.cons (.type hty) hform, htakes.covers hne, hlaid.behind _⟩

theorem stmt_succ (hc : c.Closed) :
    Reads (Grammar.stmt (n + 1)) c fun s => Holds [.stmt s] s.row c := by
  simp only [Grammar.stmt, reads_bind, reads_kind]
  split
  case h_1 =>
    simp only [reads_bind]
    refine ((declaration_holds hc).given declaration_gives).imp fun s c' hs => ?_
    simp only [reads_expect, reads_pure]
    intro hz
    rw [Stmt.row, if_pos hs.1.1]
    exact hs.2.take hz (by simp)
  case h_4 hk =>
    refine ((ih.branch hc hk).given branch_gives).imp fun s c' hs => ?_
    rw [Stmt.row_of_isAlternative hs.1.1]
    exact hs.2
  case h_5 hk => exact ih.switch hc hk
  case h_6 hk =>
    simp only [reads_bind, reads_advance]
    refine (condition_holds (hc.skip hk (by simp)).closed).imp fun test c₁ htest => ?_
    refine (ih.block htest.closed).imp fun body c' hbody => ?_
    simp only [reads_spanFrom, reads_pure]
    exact .close hc hk (by simp) (htest.trans hbody) rfl fun _ h => h
  case h_7 hk =>
    simp only [reads_bind, reads_advance]
    refine (ih.block (hc.skip hk (by simp)).closed).imp fun body c₁ hbody => ?_
    simp only [reads_expect]
    intro hwhile
    have h₁ := hbody.take hwhile (by simp)
    refine (condition_holds h₁.closed).imp fun test c' htest => ?_
    simp only [reads_spanFrom, reads_pure]
    exact fun hz => .close hc hk (by simp) ((h₁.trans htest).take hz (by simp)) rfl fun _ h => h
  case h_8 hk =>
    simp only [reads_bind, reads_advance, reads_expect]
    intro ha
    have h₁ := (hc.skip hk (by simp)).closed.skip ha (by simp)
    refine (forFirst_holds h₁.closed).imp fun first c₁ hfirst hsemi => ?_
    have h₂ := (h₁.trans hfirst).take hsemi (by simp)
    refine (forCondition_holds h₂.closed).imp fun test c₂ htest hsemi => ?_
    have h₃ := (h₂.trans htest).take hsemi (by simp)
    refine (forNext_holds h₃.closed).imp fun next c₃ hnext hz => ?_
    have h₄ := (h₃.trans hnext).take hz (by simp)
    refine (ih.block h₄.closed).imp fun body c' hbody => ?_
    simp only [reads_spanFrom, reads_pure]
    exact .close hc hk (by simp) (h₄.trans hbody) rfl fun _ h => h
  case h_9 =>
    simp only [reads_bind]
    exact (ih.block_stmt hc).imp fun b c' hb => reads_pure.2 hb
  case h_10 hk =>
    exact jump_holds hc hk (by simp) (fun _ => rfl) (fun _ => rfl) (fun _ => rfl) fun _ => rfl
  case h_11 hk =>
    exact jump_holds hc hk (by simp) (fun _ => rfl) (fun _ => rfl) (fun _ => rfl) fun _ => rfl
  case h_12 hk => exact giveBack_holds hc hk
  case h_13 hk => exact start_holds hc hk
  case h_14 hk => exact print_holds hc hk
  case h_15 =>
    simp only [reads_bind]
    refine ((simple_holds hc).given simple_gives).imp fun s c' hs => ?_
    simp only [reads_expect, reads_pure]
    intro hz
    rw [Stmt.row, if_pos (Stmt.isFirst_of_isSimple hs.1.1)]
    exact hs.2.take hz (by simp)
  all_goals
    simp only [reads_bind]
    exact (ih.function hc).imp fun f c' hf => reads_pure.2 hf

end Settling

theorem settling (n : Nat) : Settling n := by
  induction n with
  | zero => constructor <;> intros <;> exact reads_exhausted
  | succ n ih =>
    exact {
      stmt := ih.stmt_succ
      stmts := ih.stmts_succ
      block := ih.block_succ
      branch := ih.branch_succ
      switch := ih.switch_succ
      cases := ih.cases_succ
      fallback := ih.fallback_succ
      function := ih.function_succ }

end Grammar

namespace Parse

variable {c : Cursor}

theorem program_holds (hc : c.Closed) : Reads program c fun p =>
    Cursor.Holds (p.body.map .stmt) (p.body.flatMap Stmt.row) c := by
  have hstmts : Reads (Grammar.stmts c.fuel (· == .eof)) c fun ss =>
      Cursor.Holds (ss.map .stmt) (ss.flatMap Stmt.row) c :=
    (Grammar.settling c.fuel).stmts hc
  have hprogram : Reads (Grammar.stmts c.fuel (· == .eof) >>= fun ss => pure (Program.mk ss)) c
      fun p => Cursor.Holds (p.body.map .stmt) (p.body.flatMap Stmt.row) c :=
    reads_bind.2 (hstmts.imp fun ss c' h => reads_pure.2 h)
  rw [bind_pure_comp] at hprogram
  exact fun p c' hp => hprogram p c' hp

theorem program_stops (hc : c.Closed) : Reads program c fun _ c' => c'.kind = .eof := by
  intro p c' hp
  have hends := program_ends (Nat.le_refl _) hc
  rw [hp] at hends
  exact hends.2.2

end Parse

namespace Program

variable {tokens : List Token} {p : Program}

theorem program_of_ofTokens (h : ofTokens tokens = .ok p) :
    ∃ c, Parse.program (Cursor.ofTokens tokens) = .done p c := by
  unfold ofTokens at h
  dsimp only at h
  split at h
  · cases h
    exact ⟨_, ‹_›⟩
  · cases h
  · cases h

/-- The statements of a program are placed on the tokens before the end of the text, and these are
no others than theirs. -/
theorem ofTokens_laid {t : Token} (hne : ∀ u ∈ tokens, u.kind ≠ .eof) (ht : t.kind = .eof)
    (h : ofTokens (tokens ++ [t]) = .ok p) :
    Laid tokens (p.body.map .stmt) ∧ SpellsForm tokens (p.body.flatMap Stmt.row) := by
  have hrest : (Cursor.ofTokens (tokens ++ [t])).rest = tokens ++ [t] := by
    rw [Cursor.rest_ofTokens]
    simp [Cursor.closed, ht]
  have hclosed : (Cursor.ofTokens (tokens ++ [t])).Closed := ⟨tokens, t, hrest, ht⟩
  obtain ⟨c, hc⟩ := program_of_ofTokens h
  obtain ⟨ts, hts, hlaid, hform⟩ := Parse.program_holds hclosed p c hc
  obtain rfl := hts.whole hrest hne (Parse.program_stops hclosed p c hc)
  exact ⟨hlaid, hform⟩

/-- The tokens of a source that is read are those of the statements of the program. Every node lies
on tokens of that source which are written as it is, its span is from the first to the last of them,
spans of parts lie inside, and those of siblings are in order and do not overlap. -/
theorem nodes_nest {source : String} (h : ofSource source = .ok p) :
    ∃ tokens, Token.read source = .ok (tokens ++ [Token.eof (.behind source.toList)]) ∧
      SpellsForm tokens (p.body.flatMap Stmt.row) ∧
      (∀ n, p.Has n →
        (∃ before ts after, tokens = before ++ ts ++ after ∧ n.Written ts ∧ n.span.Covers ts) ∧
        n.span.start < n.span.stop ∧
        (∀ m ∈ n.parts, n.span.start ≤ m.span.start ∧ m.span.stop ≤ n.span.stop) ∧
        n.parts.Pairwise fun a b => a.span.stop ≤ b.span.start) ∧
      (p.body.map Stmt.span).Pairwise fun a b => a.stop ≤ b.start := by
  unfold ofSource at h
  rcases Token.read_partitions source with ⟨tokens, hread, hcut, hne⟩ | ⟨d, -, -, -, hread, -⟩
  · rw [hread] at h
    obtain ⟨hlaid, hform⟩ := ofTokens_laid hne rfl h
    have ho := hcut.ordered.1
    refine ⟨tokens, hread, hform, fun n hn => ?_, ?_⟩
    · obtain ⟨before, ts, after, hts, hplaced⟩ := hn.placed hlaid
      refine ⟨⟨before, ts, after, hts, hplaced.written, hplaced.covers⟩, hplaced.nested ?_⟩
      exact ho.sublist (by simp [hts])
    · have h := hlaid.pairwise ho
      rw [List.pairwise_map] at h ⊢
      exact h
  · rw [hread] at h
    cases h

/-- An element of a matrix that is assigned to, and a statement on the next line. -/
theorem nodes_nest_cell :
    ∃ p, ofSource "m[0][i + 1] = -x;\nx++;" = .ok p ∧
      p.body.map Stmt.span = [⟨⟨1, 1⟩, ⟨1, 17⟩⟩, ⟨⟨2, 1⟩, ⟨2, 4⟩⟩] ∧
      (∀ n, p.Has n → n.span.start < n.span.stop ∧
        ∀ m ∈ n.parts, n.span.start ≤ m.span.start ∧ m.span.stop ≤ n.span.stop) ∧
      (p.body.map Stmt.span).Pairwise fun a b => a.stop ≤ b.start := by
  have hspans : (ofSource "m[0][i + 1] = -x;\nx++;").toOption.map (fun p => p.body.map Stmt.span) =
      some [⟨⟨1, 1⟩, ⟨1, 17⟩⟩, ⟨⟨2, 1⟩, ⟨2, 4⟩⟩] := by decide +kernel
  cases h : ofSource "m[0][i + 1] = -x;\nx++;" with
  | error d =>
    rw [h] at hspans
    cases hspans
  | ok p =>
    rw [h] at hspans
    obtain ⟨tokens, -, -, hn, htop⟩ := nodes_nest h
    exact ⟨p, rfl, Option.some.inj hspans, fun n hp => ⟨(hn n hp).2.1, (hn n hp).2.2.1⟩, htop⟩

end Program

end Primer
