import Primer.Fault
import Primer.Value.Store

/-!
# Elements of containers

Reading and writing by index, and the containers that literals build. A write is settled before
anything changes: it is refused, or it sets one item.
-/

namespace Primer

namespace Value

/-- A value as a slot takes it, or the complaint about the slot's owner. -/
def convert (target : Ty) (owner : String) (v : Value) : Except Fault Value :=
  match v.coerce? target with
  | some w => .ok w
  | none => .error (.runtimeTypeMismatch owner target.text v.ty.text)

/-- The scalar that holds values of both scalars. -/
def unifyBases (a b : Scalar) : Except Fault Scalar :=
  match Ty.unifyScalar? a b with
  | some c => .ok c
  | none => .error (.incompatibleElementTypes a.text b.text)

/-- The scalar for one value more. -/
def widen (base : Option Scalar) (next : Scalar) : Except Fault Scalar :=
  match base with
  | none => .ok next
  | some b => unifyBases b next

/-- The scalar that holds all values, given the one for the values before them. -/
def commonBase : Option Scalar → List Value → Except Fault Scalar
  | none, [] => .error .emptyAggregateLiteral
  | some b, [] => .ok b
  | base, v :: rest =>
    match v.ty.scalar? with
    | none => .error (.incompatibleElementTypes ((base.map Scalar.text).getD "?") v.ty.text)
    | some next =>
      match widen base next with
      | .ok b => commonBase (some b) rest
      | .error f => .error f

/-- The scalar that holds the items of all rows, given the one for the rows before them. -/
def commonRowBase : Option Scalar → List Value → Except Fault Scalar
  | none, [] => .error .emptyAggregateLiteral
  | some b, [] => .ok b
  | base, .vector q :: rest =>
    match widen base q.base with
    | .ok b => commonRowBase (some b) rest
    | .error f => .error f
  | _, v :: _ => .error (.matrixRowNotVector v.ty.text)

/-- A value as an item over a scalar, itself if it does not convert. -/
def toItem (base : Scalar) (v : Value) : Value := (v.coerce? (.scalar base)).getD v

end Value

/-- A place in the store that takes values of one type. -/
structure Slot where
  sequence : Sequence
  index : Int64
  ty : Ty

namespace Store

/-- The index into stored items, if there is an item. -/
def inBounds (s : Store) (q : Sequence) (i : Int64) : Except Fault Nat :=
  match i.toInt.toNat?.filter (· < s.length q) with
  | some n => .ok n
  | none => .error (.indexOutOfBounds i.toInt (s.length q))

/-- An element of a vector or list, or a row of a matrix. -/
def element (s : Store) (container : Value) (i : Int64) : Except Fault Value :=
  match container.sequence? with
  | none => .error (.notIndexable container.ty.text)
  | some q =>
    match i.toInt.toNat?.bind (s.get? q) with
    | some v => .ok v
    | none => .error (.indexOutOfBounds i.toInt (s.length q))

/-- An element of a row of a matrix. -/
def cell (s : Store) (container row : Value) (column : Int64) : Except Fault Value :=
  match container with
  | .matrix _ => s.element row column
  | other => .error (.doubleIndexOnNonMatrix other.ty.text)

/-- The slot that one or two indices pick. One index on a matrix picks a whole row. -/
def slot (s : Store) (container : Value) (row : Int64) (column : Option Int64) :
    Except Fault Slot :=
  match container, column with
  | .vector q, none => .ok ⟨q, row, .scalar q.base⟩
  | .list q, none => .ok ⟨q, row, .scalar q.base⟩
  | .matrix q, none => .ok ⟨q, row, .vector q.base⟩
  | .matrix q, some column =>
    match s.element container row with
    | .ok (.vector r) => .ok ⟨r, column, .scalar q.base⟩
    | .ok other => .error (.notIndexable other.ty.text)
    | .error f => .error f
  | .vector q, some _ => .error (.doubleIndexOnNonMatrix (Ty.vector q.base).text)
  | .list q, some _ => .error (.doubleIndexOnNonMatrix (Ty.list q.base).text)
  | other, _ => .error (.notIndexable other.ty.text)

/-- What a write to the slot that one or two indices pick changes. -/
def write (s : Store) (container : Value) (row : Int64) (column : Option Int64) (v : Value)
    (owner : String) : Except Fault Edit := do
  let slot ← s.slot container row column
  let w ← v.convert slot.ty owner
  let i ← s.inBounds slot.sequence slot.index
  return .set slot.sequence i w

/-- The vector a literal builds over a scalar. -/
def vector (s : Store) (base : Scalar) (values : List Value) : Value × Store :=
  let (q, t) := s.alloc base (values.map (Value.toItem base)).toArray
  (.vector q, t)

/-- A row as it goes into a matrix over a scalar: a row over another scalar is copied. -/
def row (s : Store) (base : Scalar) : Value → Value × Store
  | .vector q =>
    if q.base = base then (.vector q, s)
    else
      let (r, t) := s.alloc base ((s.items q).map (Value.toItem base))
      (.vector r, t)
  | v => (v, s)

/-- The rows as they go into a matrix over a scalar. -/
def rows (s : Store) (base : Scalar) : List Value → List Value × Store
  | [] => ([], s)
  | v :: rest =>
    let (w, t) := s.row base v
    let (ws, u) := t.rows base rest
    (w :: ws, u)

/-- The matrix a literal builds over a scalar. -/
def matrix (s : Store) (base : Scalar) (values : List Value) : Value × Store :=
  let (ws, t) := s.rows base values
  let (q, u) := t.alloc base ws.toArray
  (.matrix q, u)

end Store

end Primer
