import Primer.Stmt
import Primer.Symbol
import Primer.Text.Line
import Primer.Value.Store

/-!
# The listing of symbols

Every declaration a pass meets has a row. A declaration met again, as in the body of a loop, goes
to the row it had the first time: the row keeps its place and takes the new type and value.
-/

namespace Primer

/-- What makes two declarations share a row. -/
structure RowKey where
  name : String
  scope : String
  category : Category
deriving DecidableEq, Repr

/-- A listed declaration. The rows of a check hold no values of variables. -/
structure Row extends Declaration where
  value : Option Value
  holdsDefault : Bool

def Row.rowKey (r : Row) : RowKey := ⟨r.key, r.scope, r.category⟩

/-- The row of a symbol. -/
def Row.ofSymbol (s : Symbol) : Row :=
  { s.toDeclaration with value := some s.value, holdsDefault := s.holdsDefault }

/-- The row of a function, which shows its signature. -/
def Row.ofFunction (f : Function) (scope : String) : Row where
  name := f.name
  ty := f.returns
  category := if f.isProcedure then .procedure else .function
  position := f.span.start
  scope := scope
  value := some (.string f.signature)
  holdsDefault := false

/-- A row with what another row says of its symbol. -/
def Row.refresh (row r : Row) : Row :=
  { r with ty := row.ty, value := row.value, holdsDefault := row.holdsDefault }

/-- A row that shows an assignment. -/
def Row.assign (v : Value) (r : Row) : Row := { r with value := some v, holdsDefault := false }

@[simp] theorem Row.rowKey_refresh (row r : Row) : (row.refresh r).rowKey = r.rowKey := rfl

@[simp] theorem Row.rowKey_assign (v : Value) (r : Row) : (r.assign v).rowKey = r.rowKey := rfl

/-- Without rows no key leads anywhere. -/
theorem Row.lookup_nil (key : RowKey) (i : Nat) : ([] : List (RowKey × Nat)).lookup key = some i ↔
    (#[] : Array Row)[i]?.map Row.rowKey = some key := by
  simp

/-- Rows in the order in which their declarations were first met, with an index of their keys. -/
structure Listing where
  rows : Array Row := #[]
  /-- The places of the rows by their keys, the latest first. -/
  index : List (RowKey × Nat) := []
  /-- A key leads to the one row that has it, and every row is found by its key. -/
  inStep : ∀ key i, index.lookup key = some i ↔ rows[i]?.map Row.rowKey = some key := by
    exact Row.lookup_nil

namespace Listing

def empty : Listing := {}

def size (l : Listing) : Nat := l.rows.size

/-- The index of the row of a key. -/
def index? (l : Listing) (key : RowKey) : Option Nat := l.index.lookup key

theorem index?_eq_some {l : Listing} {key : RowKey} {i : Nat} :
    l.index? key = some i ↔ l.rows[i]?.map Row.rowKey = some key := l.inStep key i

/-- The listing with a row changed, but not in its key. -/
def modify (l : Listing) (i : Nat) (f : Row → Row) (hf : ∀ r, (f r).rowKey = r.rowKey) :
    Listing where
  rows := l.rows.modify i f
  index := l.index
  inStep key j := by
    rw [l.inStep, Array.getElem?_modify]
    split
    · rw [Option.map_map, show Row.rowKey ∘ f = Row.rowKey from funext hf]
    · rfl

theorem lt_size {l : Listing} {key : RowKey} {i : Nat} (h : l.index? key = some i) :
    i < l.size := by
  obtain ⟨r, hr, -⟩ := Option.map_eq_some_iff.1 (index?_eq_some.1 h)
  exact (Array.getElem?_eq_some_iff.1 hr).1

/-- A new key leads to the row behind the others. -/
theorem lookup_push (l : Listing) {row : Row} (h : l.index? row.rowKey = none) (key : RowKey)
    (i : Nat) : ((row.rowKey, l.size) :: l.index).lookup key = some i ↔
      (l.rows.push row)[i]?.map Row.rowKey = some key := by
  have hold : l.index.lookup key = some i → i ≠ l.rows.size := fun hi => Nat.ne_of_lt (lt_size hi)
  have hnew : ¬ l.rows[i]?.map Row.rowKey = some row.rowKey := fun hi => by
    cases h.symm.trans (index?_eq_some.2 hi)
  rw [List.lookup_cons, Array.getElem?_push]
  by_cases hkey : key = row.rowKey <;> by_cases hi : i = l.rows.size
  · simp [hkey, hi, size]
  · simpa [hkey, hi, size, eq_comm] using hnew
  · have hne : (key == row.rowKey) = false := beq_eq_false_iff_ne.2 hkey
    simpa [hne, hi, Ne.symm hkey] using fun hl => hold hl hi
  · have hne : (key == row.rowKey) = false := beq_eq_false_iff_ne.2 hkey
    rw [if_neg hi, hne]
    exact l.inStep key i

/-- The listing with one row more, whose key is new. -/
def push (l : Listing) (row : Row) (h : l.index? row.rowKey = none) : Listing where
  rows := l.rows.push row
  index := (row.rowKey, l.size) :: l.index
  inStep := l.lookup_push h

/-- Lists a declaration, and says in which row. -/
def record (l : Listing) (row : Row) : Nat × Listing :=
  match h : l.index? row.rowKey with
  | some i => (i, l.modify i (Row.refresh row) row.rowKey_refresh)
  | none => (l.size, l.push row h)

/-- Shows an assignment in a row. -/
def setValue (l : Listing) (i : Nat) (v : Value) : Listing :=
  l.modify i (Row.assign v) (Row.rowKey_assign v)

theorem record_some {l : Listing} {row : Row} {i : Nat} (h : l.index? row.rowKey = some i) :
    l.record row = (i, l.modify i (Row.refresh row) row.rowKey_refresh) := by
  unfold record
  split
  · simp_all
  · simp_all

theorem record_none {l : Listing} {row : Row} (h : l.index? row.rowKey = none) :
    l.record row = (l.size, l.push row h) := by
  unfold record
  split
  · simp_all
  · rfl

/-- The first row of a name. -/
def find? (l : Listing) (name : String) : Option Row :=
  l.rows.find? (·.key == Text.fold name)

/-- The first row of a name in a scope. -/
def findIn? (l : Listing) (name scope : String) : Option Row :=
  l.rows.find? fun r => r.scope == scope && r.key == Text.fold name

/-- Columns of a printed line. -/
def columns (name type category position value scope : String) : String :=
  Text.padEnd 16 name ++ " " ++ Text.padEnd 14 type ++ " " ++ Text.padEnd 10 category ++ " " ++
    Text.padEnd 8 position ++ " " ++ Text.padEnd 16 value ++ " " ++ scope

/-- The listing as it is printed, line by line. -/
def lines (l : Listing) (s : Store) : List String :=
  columns "name" "type" "category" "at" "value" "scope" ::
    l.rows.toList.map fun r =>
      columns r.name r.ty.text r.category.name r.position.text
        ((r.value.map s.text).getD "-") r.scope

end Listing

end Primer
