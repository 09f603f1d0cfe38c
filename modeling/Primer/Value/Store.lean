import Primer.Decimal.Layout
import Primer.Value

/-!
# Stored items

The store holds the items of all containers, addressed by handles. Items that are containers
themselves are followed through the store; no chain of them is longer than the store.
-/

namespace Primer

/-- The items of all containers. -/
structure Store where
  cells : Array (Array Value) := #[]
deriving Inhabited, Repr

namespace Store

def empty : Store := {}

/-- The items behind a handle. -/
def items (s : Store) (q : Sequence) : Array Value := s.cells[q.address]?.getD #[]

def length (s : Store) (q : Sequence) : Nat := (s.items q).size

/-- A handle on new items. -/
def alloc (s : Store) (base : Scalar) (items : Array Value) : Sequence × Store :=
  (⟨base, s.cells.size⟩, ⟨s.cells.push items⟩)

def get? (s : Store) (q : Sequence) (i : Nat) : Option Value := (s.items q)[i]?

/-- The store with one item replaced. -/
def set (s : Store) (q : Sequence) (i : Nat) (v : Value) : Store :=
  ⟨s.cells.modify q.address (·.setIfInBounds i v)⟩

/-- The store with one item added at the end. -/
def push (s : Store) (q : Sequence) (v : Value) : Store :=
  ⟨s.cells.modify q.address (·.push v)⟩

/-- The store with one item taken out. -/
def erase (s : Store) (q : Sequence) (i : Nat) : Store :=
  ⟨s.cells.modify q.address (·.eraseIdxIfInBounds i)⟩

theorem items_alloc (s : Store) (base : Scalar) (items : Array Value) :
    (s.alloc base items).2.items (s.alloc base items).1 = items := by
  simp [alloc, Store.items]

theorem items_alloc_of_lt (s : Store) (base : Scalar) (items : Array Value) (q : Sequence)
    (h : q.address < s.cells.size) : (s.alloc base items).2.items q = s.items q := by
  simp [alloc, Store.items, Array.getElem?_push, Nat.ne_of_lt h]

theorem items_set (s : Store) (q r : Sequence) (i : Nat) (v : Value) :
    (s.set q i v).items r =
      if q.address = r.address then (s.items r).setIfInBounds i v else s.items r := by
  simp only [set, Store.items, Array.getElem?_modify]
  split
  · cases s.cells[r.address]? <;> simp
  · rfl

/-- A write changes no length. -/
theorem length_set (s : Store) (q r : Sequence) (i : Nat) (v : Value) :
    (s.set q i v).length r = s.length r := by
  simp only [length, items_set]
  split <;> simp

end Store

/-- A change of the items of one container, or of none. -/
inductive Edit where
  | keep
  | push (q : Sequence) (v : Value)
  | set (q : Sequence) (i : Nat) (v : Value)
  | erase (q : Sequence) (i : Nat)
deriving Repr

/-- The store after a change. -/
def Edit.apply : Edit → Store → Store
  | keep, s => s
  | push q v, s => s.push q v
  | set q i v, s => s.set q i v
  | erase q i, s => s.erase q i

namespace Store

/-- The value a variable of a type holds before it is assigned. -/
def default (s : Store) : Ty → Value × Store
  | .int => (.int 0, s)
  | .double => (.double 0.0, s)
  | .bool => (.bool true, s)
  | .char => (.char '\x00', s)
  | .string => (.string "", s)
  | .void => (.void, s)
  | .error => (.void, s)
  | .vector base => let (q, t) := s.alloc base #[]; (.vector q, t)
  | .matrix base => let (q, t) := s.alloc base #[]; (.matrix q, t)
  | .list base => let (q, t) := s.alloc base #[]; (.list q, t)

/-- The text of a value that is no container. -/
def plainText : Value → String
  | .int x => toString x.toInt
  | .double x => Decimal.Layout.display.write x
  | .bool b => if b then "true" else "false"
  | .char c => String.singleton c
  | .string t => t
  | .void => "null"
  | _ => ""

/-- The text of a value, containers nested up to a depth. -/
def textTo (s : Store) : Nat → Value → String
  | 0, v => plainText v
  | n + 1, v =>
    match v.sequence? with
    | some q => "[" ++ ", ".intercalate ((s.items q).toList.map (s.textTo n)) ++ "]"
    | none => plainText v

/-- The text of a value. -/
def text (s : Store) (v : Value) : String := s.textTo s.cells.size v

/-- How close two doubles are that count as equal. -/
def tolerance : Float := 1e-9

/-- Equality of values that are not containers: numbers by size, others only with their kind. -/
def plainEqual (a b : Value) : Bool :=
  match a, b with
  | .bool x, .bool y => x == y
  | .string x, .string y => x == y
  | .int x, .int y => x == y
  | .char x, .char y => x == y
  | .void, .void => true
  | a, b =>
    match a.toDouble?, b.toDouble? with
    | some x, some y => (x - y).abs < tolerance
    | _, _ => false

/-- Equality of values, containers nested up to a depth. -/
def equalTo (s : Store) : Nat → Value → Value → Bool
  | 0, a, b => plainEqual a b
  | n + 1, a, b =>
    let itemwise (p q : Sequence) : Bool :=
      (s.items p).toList.isEqv (s.items q).toList (s.equalTo n)
    match a, b with
    | .vector p, .vector q => itemwise p q
    | .matrix p, .matrix q => itemwise p q
    | .list p, .list q => itemwise p q
    | a, b => plainEqual a b

/-- Whether two values are equal in the language: containers item by item. -/
def equal (s : Store) (a b : Value) : Bool := s.equalTo s.cells.size a b

/-- The same value in every respect, containers nested up to a depth. -/
def identicalTo (s : Store) : Nat → Value → Value → Bool
  | 0, _, _ => false
  | n + 1, a, b =>
    let itemwise (p q : Sequence) : Bool :=
      p.base == q.base && (s.items p).toList.isEqv (s.items q).toList (s.identicalTo n)
    match a, b with
    | .int x, .int y => x == y
    | .double x, .double y => x == y
    | .bool x, .bool y => x == y
    | .char x, .char y => x == y
    | .string x, .string y => x == y
    | .void, .void => true
    | .vector p, .vector q => itemwise p q
    | .matrix p, .matrix q => itemwise p q
    | .list p, .list q => itemwise p q
    | _, _ => false

/-- Whether two values are of the same kind and the same in every part. -/
def identical (s : Store) (a b : Value) : Bool := s.identicalTo (s.cells.size + 1) a b

/-- The index of the first item equal to a value. -/
def find? (s : Store) (q : Sequence) (v : Value) : Option Nat :=
  (s.items q).findIdx? (s.equal · v)

end Store

end Primer
