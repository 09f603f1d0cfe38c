import Primer.Ty

/-!
# Values

A container value is a handle: its items live in the store, and every copy of the handle sees
their changes. Ints wrap around at sixty-four bits.
-/

namespace Primer

/-- A handle on stored items. -/
structure Sequence where
  base : Scalar
  address : Nat
deriving DecidableEq, Repr

inductive Value where
  | int (value : Int64)
  | double (value : Float)
  | bool (value : Bool)
  | char (value : Char)
  | string (value : String)
  | void
  | vector (items : Sequence)
  | matrix (rows : Sequence)
  | list (items : Sequence)
deriving Inhabited, Repr

namespace Value

def ty : Value → Ty
  | int _ => .int
  | double _ => .double
  | bool _ => .bool
  | char _ => .char
  | string _ => .string
  | void => .void
  | vector q => .vector q.base
  | matrix q => .matrix q.base
  | list q => .list q.base

/-- The number a value counts as: ints, doubles, and chars by their code. -/
def toDouble? : Value → Option Float
  | int x => some x.toFloat
  | double x => some x
  | char c => some (Float.ofNat c.toNat)
  | _ => none

/-- The whole number a value counts as: ints, and chars by their code. -/
def toInt? : Value → Option Int64
  | int x => some x
  | char c => some (Int64.ofNat c.toNat)
  | _ => none

def toBool? : Value → Option Bool
  | bool b => some b
  | _ => none

/-- The handle of a container. -/
def sequence? : Value → Option Sequence
  | vector q => some q
  | matrix q => some q
  | list q => some q
  | _ => none

def isString : Value → Bool
  | string _ => true
  | _ => false

/-- The character with a code. -/
def charOf? (code : Int) : Option Char :=
  match code.toNat? with
  | some n => if n.isValidChar then some (Char.ofNat n) else none
  | none => none

/-- A value as a slot of a type takes it. A bool becomes 0 or 1 in an int slot. -/
def coerce? (target : Ty) (v : Value) : Option Value :=
  if v.ty = target then some v
  else match target, v with
    | .int, bool b => some (int (if b then 1 else 0))
    | .double, int x => some (double x.toFloat)
    | .double, char c => some (double (Float.ofNat c.toNat))
    | _, _ => none

end Value

end Primer
