import Primer.Text.Blank
import Primer.Text.Search

/-!
# Types

Five scalar types, containers over a scalar, `void` for procedures, and the type `error` of what
has already been reported. Containers take a scalar, so they never nest.
-/

namespace Primer

/-- The types a container can hold. -/
inductive Scalar where
  | int
  | double
  | bool
  | char
  | string
deriving DecidableEq, Repr

/-- The type of a value or an expression. -/
inductive Ty where
  | scalar (s : Scalar)
  | void
  | error
  | vector (base : Scalar)
  | matrix (base : Scalar)
  | list (base : Scalar)
deriving DecidableEq, Repr

namespace Scalar

/-- A scalar type as it is written. -/
def text : Scalar → String
  | int => "int"
  | double => "double"
  | bool => "bool"
  | char => "char"
  | string => "string"

/-- The scalar type a lower-case word names. -/
def ofWord? (word : List Char) : Option Scalar :=
  match String.ofList word with
  | "int" => some int
  | "double" => some double
  | "bool" => some bool
  | "boolean" => some bool
  | "char" => some char
  | "string" => some string
  | _ => none

end Scalar

namespace Ty

@[match_pattern] abbrev int : Ty := scalar .int
@[match_pattern] abbrev double : Ty := scalar .double
@[match_pattern] abbrev bool : Ty := scalar .bool
@[match_pattern] abbrev char : Ty := scalar .char
@[match_pattern] abbrev string : Ty := scalar .string

/-- A type as it is written. -/
def text : Ty → String
  | scalar s => s.text
  | void => "void"
  | error => "error"
  | vector b => b.text ++ "[]"
  | matrix b => b.text ++ "[][]"
  | list b => "List<" ++ b.text ++ ">"

/-- The scalar a type is. -/
def scalar? : Ty → Option Scalar
  | scalar s => some s
  | _ => none

/-- The scalar a container holds. -/
def base? : Ty → Option Scalar
  | vector b => some b
  | matrix b => some b
  | list b => some b
  | _ => none

def isContainer (t : Ty) : Bool := t.base?.isSome

def isError (t : Ty) : Bool := t == error

/-- Whether values of the type count as numbers. -/
def isNumeric : Ty → Bool
  | int => true
  | double => true
  | char => true
  | _ => false

/-- Whether values of the type count as whole numbers. -/
def isIntegral : Ty → Bool
  | int => true
  | char => true
  | _ => false

/-- The vector type over a type, `error` unless it is a scalar. -/
def vectorOf (t : Ty) : Ty := (t.scalar?.map vector).getD error

/-- The matrix type over a type, `error` unless it is a scalar. -/
def matrixOf (t : Ty) : Ty := (t.scalar?.map matrix).getD error

/-- The list type over a type, `error` unless it is a scalar. -/
def listOf (t : Ty) : Ty := (t.scalar?.map list).getD error

/-- Whether a slot of type `t` takes a value of type `source`. -/
def assignable (t source : Ty) : Bool :=
  t == source ||
    match t, source with
    | int, bool => true
    | double, int => true
    | double, char => true
    | _, _ => false

/-- The scalar that holds values of both scalars in one container. -/
def unifyScalar? (a b : Scalar) : Option Scalar :=
  if a = b then some a
  else match a, b with
    | .int, .double => some .double
    | .double, .int => some .double
    | _, _ => none

/-- The type that holds values of both types in one literal. -/
def unify? (a b : Ty) : Option Ty :=
  if a = b then some a
  else match a, b with
    | scalar x, scalar y => (unifyScalar? x y).map scalar
    | _, _ => none

/-- The type a text names. Case and white space do not count. -/
def ofName? (name : String) : Option Ty :=
  let word := (name.toList.filter (!Text.isBlank ·)).map Char.toLower
  match (Text.after? "list<".toList word).bind (Text.before? ">".toList) with
  | some inner => (Scalar.ofWord? inner).map list
  | none =>
    match Text.before? "[][]".toList word with
    | some inner => (Scalar.ofWord? inner).map matrix
    | none =>
      match Text.before? "[]".toList word with
      | some inner => (Scalar.ofWord? inner).map vector
      | none => if word = "void".toList then some void else (Scalar.ofWord? word).map scalar

end Ty

end Primer
