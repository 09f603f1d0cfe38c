import Mathlib
import Primer.Grammar.Statement

/-!
# How expressions are written

Tokens spell an expression (`Spells`) if they are those of its operands and of its operators in
order. How the operators nest does not show in the tokens: the tree is the one in which every
operator binds as its level says (`Expr.correct`).
-/

namespace Primer

open Grammar (ofToken)

namespace Expr

mutual

/-- An expression without its places. -/
def bare : Expr → Expr
  | int _ v => int default v
  | double _ v => double default v
  | bool _ v => bool default v
  | char _ v => char default v
  | string _ v => string default v
  | name _ n => name default n
  | arithmetic _ op l r => arithmetic default op l.bare r.bare
  | negate _ e => negate default e.bare
  | relational _ op l r => relational default op l.bare r.bare
  | logical _ op l r => logical default op l.bare r.bare
  | not _ e => not default e.bare
  | cast _ t e => cast default t e.bare
  | group _ e => group default e.bare
  | call _ n args => call default n (bareAll args)
  | method _ r n args => method default r.bare n (bareAll args)
  | index _ t i => index default t.bare i.bare
  | cell _ t i j => cell default t.bare i.bare j.bare
  | vector _ items => vector default (bareAll items)
  | matrix _ rows => matrix default (bareAll rows)
  | newList _ b => newList default b

def bareAll : List Expr → List Expr
  | [] => []
  | e :: es => e.bare :: bareAll es

end

/-- The operator an expression applies to two operands, unless it stands in brackets. -/
def binary? : Expr → Option (BinaryOp × Expr × Expr)
  | arithmetic _ op l r => some (.arithmetic op, l, r)
  | relational _ op l r => some (.relational op, l, r)
  | logical _ op l r => some (.logical op, l, r)
  | _ => none

/-- Whether an expression picks an element. -/
def isElement : Expr → Bool
  | index .. => true
  | cell .. => true
  | _ => false

theorem isElement_bare (e : Expr) : e.bare.isElement = e.isElement := by
  cases e <;> rfl

end Expr

/-- The tokens of a type. -/
inductive Ty.Spells : List Token → Ty → Prop
  | word {t ty} (ht : t.kind = .typeWord) (h : Ty.ofName? t.value = some ty) : Spells [t] ty
  | list {t a ts z b} (ht : t.kind = .listWord) (ha : a.kind = .less) (h : Spells ts (.scalar b))
    (hz : z.kind = .greater) : Spells (t :: a :: (ts ++ [z])) (.list b)
  | vector {ts a z b} (h : Spells ts (.scalar b)) (ha : a.kind = .openBracket)
    (hz : z.kind = .closeBracket) : Spells (ts ++ [a, z]) (.vector b)
  | matrix {ts a z b} (h : Spells ts (.vector b)) (ha : a.kind = .openBracket)
    (hz : z.kind = .closeBracket) : Spells (ts ++ [a, z]) (.matrix b)

mutual

/-- The tokens of an expression. A literal in brackets that opens with a bracket inside is a matrix,
and a second index makes a cell. -/
inductive Spells : List Token → Expr → Prop
  | token {t e e'} (h : ofToken t = .ok e') (he : e'.bare = e.bare) : Spells [t] e
  | binary {e op ts l t us r} (he : e.binary? = some (op, l, r)) (hl : Spells ts l)
    (ht : t.kind.binary? = some op) (hr : Spells us r) : Spells (ts ++ t :: us) e
  | negate {span t ts e} (ht : t.kind = .dash) (h : Spells ts e) : Spells (t :: ts) (.negate span e)
  | not {span t ts e} (ht : t.kind = .not) (h : Spells ts e) : Spells (t :: ts) (.not span e)
  | cast {span a ts ty z us e} (ha : a.kind = .openParen) (ht : ty.Spells ts)
    (hz : z.kind = .closeParen) (h : Spells us e) :
    Spells (a :: (ts ++ z :: us)) (.cast span ty e)
  | group {span a ts z e} (ha : a.kind = .openParen) (h : Spells ts e) (hz : z.kind = .closeParen) :
    Spells (a :: (ts ++ [z])) (.group span e)
  | call {span t a ts es} (ht : t.kind = .identifier) (ha : a.kind = .openParen)
    (h : SpellsAll .closeParen ts es) : Spells (t :: a :: ts) (.call span t.value es)
  | method {span ts e d t a us es} (h : Spells ts e) (hd : d.kind = .dot)
    (ht : t.kind = .identifier) (ha : a.kind = .openParen) (hes : SpellsAll .closeParen us es) :
    Spells (ts ++ d :: t :: a :: us) (.method span e t.value es)
  | index {span ts e a us i z} (h : Spells ts e) (he : e.isElement = false)
    (ha : a.kind = .openBracket) (hi : Spells us i) (hz : z.kind = .closeBracket) :
    Spells (ts ++ a :: (us ++ [z])) (.index span e i)
  | cell {span ts e a us i z b vs j y} (h : Spells ts e) (he : e.isElement = false)
    (ha : a.kind = .openBracket) (hi : Spells us i) (hz : z.kind = .closeBracket)
    (hb : b.kind = .openBracket) (hj : Spells vs j) (hy : y.kind = .closeBracket) :
    Spells (ts ++ a :: (us ++ [z]) ++ b :: (vs ++ [y])) (.cell span e i j)
  | vector {span a ts es} (ha : a.kind = .openBracket)
    (hn : ∀ t ∈ ts.head?, t.kind ≠ .openBracket) (h : SpellsAll .closeBracket ts es) :
    Spells (a :: ts) (.vector span es)
  | matrix {span a ts es} (ha : a.kind = .openBracket)
    (hn : ∀ t ∈ ts.head?, t.kind = .openBracket) (h : SpellsAll .closeBracket ts es) :
    Spells (a :: ts) (.matrix span es)
  | newList {span w l a z} (hw : w.kind = .newWord) (hl : l.kind = .listWord)
    (ha : a.kind = .openParen) (hz : z.kind = .closeParen) :
    Spells [w, l, a, z] (.newList span none)
  | newListOf {span w l x ts y a z b} (hw : w.kind = .newWord) (hl : l.kind = .listWord)
    (hx : x.kind = .less) (h : Ty.Spells ts (.scalar b)) (hy : y.kind = .greater)
    (ha : a.kind = .openParen) (hz : z.kind = .closeParen) :
    Spells (w :: l :: x :: (ts ++ [y, a, z])) (.newList span (some b))

/-- The tokens of expressions with commas between them and perhaps after the last, and of what
closes them. -/
inductive SpellsAll : TokenKind → List Token → List Expr → Prop
  | nil {closing t} (ht : t.kind = closing) : SpellsAll closing [t] []
  | last {closing ts e t} (h : Spells ts e) (ht : t.kind = closing) :
    SpellsAll closing (ts ++ [t]) [e]
  | cons {closing ts e t us es} (h : Spells ts e) (ht : t.kind = .comma)
    (hes : SpellsAll closing us es) : SpellsAll closing (ts ++ t :: us) (e :: es)

end

/-! ## Levels -/

namespace Expr

/-- Whether an expression is an operand with a mark in front. -/
def isMarked : Expr → Bool
  | negate .. => true
  | not .. => true
  | cast .. => true
  | _ => false

/-- How tightly an expression holds together. -/
def power (e : Expr) : Power :=
  match e.binary? with
  | some (op, _, _) => op.power
  | none => if e.isMarked then .unary else .primary

end Expr

namespace BinaryOp

/-- Whether operators of the same level nest to the right. -/
def leansRight (op : BinaryOp) : Bool := op = .arithmetic .power

/-- Whether operands hold together at least as tightly as an operator, and more tightly on the side
it does not lean to. -/
def admits (op : BinaryOp) (left right : Expr) : Bool :=
  if op.leansRight then op.power.looser left.power && !right.power.looser op.power
  else !left.power.looser op.power && op.power.looser right.power

end BinaryOp

namespace Expr

/-- Whether the last step of an expression takes its operands whole. -/
def ordered : Expr → Bool
  | arithmetic _ op l r => (BinaryOp.arithmetic op).admits l r
  | relational _ op l r => (BinaryOp.relational op).admits l r
  | logical _ op l r => (BinaryOp.logical op).admits l r
  | negate _ e => !e.power.looser .unary
  | not _ e => !e.power.looser .unary
  | cast _ _ e => !e.power.looser .unary
  | method _ e _ _ => Power.unary.looser e.power
  | index _ e _ => Power.unary.looser e.power
  | cell _ e _ _ => Power.unary.looser e.power
  | _ => true

mutual

/-- Whether every operator of an expression binds as its level says. -/
def correct : Expr → Bool
  | arithmetic s op l r => ordered (arithmetic s op l r) && l.correct && r.correct
  | relational s op l r => ordered (relational s op l r) && l.correct && r.correct
  | logical s op l r => ordered (logical s op l r) && l.correct && r.correct
  | negate s e => ordered (negate s e) && e.correct
  | not s e => ordered (not s e) && e.correct
  | cast s t e => ordered (cast s t e) && e.correct
  | group _ e => e.correct
  | call _ _ args => allCorrect args
  | method s e n args => ordered (method s e n args) && e.correct && allCorrect args
  | index s e i => ordered (index s e i) && e.correct && i.correct
  | cell s e i j => ordered (cell s e i j) && e.correct && i.correct && j.correct
  | vector _ items => allCorrect items
  | matrix _ rows => allCorrect rows
  | _ => true

def allCorrect : List Expr → Bool
  | [] => true
  | e :: es => e.correct && allCorrect es

end

end Expr

/-! ## Where an expression ends -/

/-- What binds more tightly than this after an expression belongs to its last operand. -/
def Expr.edge (e : Expr) : Power :=
  match e.binary? with
  | some (op, _, _) => op.rightPower
  | none => if e.isMarked then .unary else .primary

theorem TokenKind.power_lt (k : TokenKind) : k.power.rank < Power.primary.rank := by
  cases k <;> decide

theorem TokenKind.power_of_binary? {k : TokenKind} {op : BinaryOp} (h : k.binary? = some op) :
    k.power = op.power := by
  unfold power
  rw [h]

namespace BinaryOp

theorem power_lt (op : BinaryOp) : op.power.rank < Power.unary.rank := by
  rcases op with _ | _ | _ <;> rename_i o <;> cases o <;> decide

theorem power_pos (op : BinaryOp) : Power.lowest.rank < op.power.rank := by
  rcases op with _ | _ | _ <;> rename_i o <;> cases o <;> decide

theorem rightPower_eq (op : BinaryOp) :
    op.rightPower.rank = if op.leansRight then op.power.rank - 1 else op.power.rank := by
  rcases op with _ | _ | _ <;> rename_i o <;> cases o <;> decide

theorem admits_iff {op : BinaryOp} {l r : Expr} : op.admits l r = true ↔
    (if op.leansRight then op.power.rank < l.power.rank else op.power.rank ≤ l.power.rank) ∧
      op.rightPower.rank < r.power.rank := by
  have hpos : 0 < op.power.rank := op.power_pos
  rw [rightPower_eq]
  unfold admits Power.looser
  split <;> simp; omega

end BinaryOp

namespace Expr

variable {e l r : Expr} {op : BinaryOp} {p : Power}

theorem power_of_binary? (h : e.binary? = some (op, l, r)) :
    e.power = op.power ∧ e.edge = op.rightPower := by
  unfold power edge
  rw [h]
  exact ⟨rfl, rfl⟩

theorem power_of_plain (h : e.binary? = none) :
    e.edge = e.power ∧ Power.unary.rank ≤ e.power.rank := by
  unfold power edge
  rw [h]
  refine ⟨rfl, ?_⟩
  dsimp only
  split_ifs <;> decide

/-- An operator can follow an expression exactly where it takes it whole. -/
theorem power_le_edge : op.power.rank ≤ e.edge.rank ↔
    if op.leansRight then op.power.rank < e.power.rank else op.power.rank ≤ e.power.rank := by
  have hright : ∀ op : BinaryOp, op.leansRight = true ↔ op.power.rank = Power.power.rank := by
    intro op
    rcases op with _ | _ | _ <;> rename_i o <;> cases o <;> decide
  have hlt := op.power_lt
  cases hb : e.binary? with
  | none =>
    obtain ⟨he, hp⟩ := power_of_plain hb
    rw [he]
    split_ifs <;> omega
  | some b =>
    obtain ⟨op', l, r⟩ := b
    obtain ⟨hp, he⟩ := power_of_binary? hb
    have hop := hright op
    have hop' := hright op'
    have hlt' := op'.power_lt
    rw [hp, he, op'.rightPower_eq]
    simp only [Power.rank] at *
    split_ifs <;> simp_all <;> omega

/-- An expression stands in a context without being taken apart. -/
def Withstands (e : Expr) (p : Power) : Prop :=
  ∀ op l r, e.binary? = some (op, l, r) → p.rank < op.power.rank

theorem withstands_of_plain (h : e.binary? = none) : e.Withstands p := by
  intro op l r hb
  rw [h] at hb
  cases hb

theorem withstands_lowest : e.Withstands .lowest := fun op _ _ _ => op.power_pos

theorem withstands_iff (hp : p.rank < Power.unary.rank) :
    e.Withstands p ↔ p.rank < e.power.rank := by
  cases hb : e.binary? with
  | none =>
    exact ⟨fun _ => Nat.lt_of_lt_of_le hp (power_of_plain hb).2, fun _ => withstands_of_plain hb⟩
  | some b =>
    obtain ⟨op, l, r⟩ := b
    rw [(power_of_binary? hb).1]
    refine ⟨fun h => h op l r hb, fun h op' l' r' hb' => ?_⟩
    cases hb.symm.trans hb'
    exact h

theorem withstands_unary : e.Withstands .unary ↔ Power.unary.rank ≤ e.power.rank := by
  cases hb : e.binary? with
  | none => exact ⟨fun _ => (power_of_plain hb).2, fun _ => withstands_of_plain hb⟩
  | some b =>
    obtain ⟨op, l, r⟩ := b
    have hlt := op.power_lt
    rw [(power_of_binary? hb).1]
    exact ⟨fun h => absurd (h op l r hb) (by omega), fun h => absurd h (by omega)⟩

/-- What stands in a context leaves alone what the context does not take. -/
theorem Withstands.le_edge (h : e.Withstands p) (hp : p.rank ≤ Power.unary.rank) :
    p.rank ≤ e.edge.rank := by
  cases hb : e.binary? with
  | none =>
    obtain ⟨he, hu⟩ := power_of_plain hb
    rw [he]
    exact Nat.le_trans hp hu
  | some b =>
    obtain ⟨op, l, r⟩ := b
    have hlt := h op l r hb
    rw [(power_of_binary? hb).2, op.rightPower_eq]
    split_ifs <;> omega

end Expr

end Primer
