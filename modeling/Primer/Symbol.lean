import Primer.Position
import Primer.Text.Fold
import Primer.Value

/-!
# Symbols

A declaration gives a name its type at a place in a scope. A symbol is a declaration that is alive
in a running program and holds a value.
-/

namespace Primer

/-- What a name was declared as. -/
inductive Category where
  | plain
  | parameter
  | function
  | procedure
  | container
deriving DecidableEq, Repr

namespace Category

def name : Category → String
  | plain => "Variable"
  | parameter => "Parameter"
  | function => "Function"
  | procedure => "Procedure"
  | container => "Structure"

/-- The category of a name. -/
def ofName? (name : String) : Option Category :=
  [plain, parameter, function, procedure, container].find? (·.name == name)

/-- The category of a variable of a type. -/
def ofTy (t : Ty) : Category := if t.isContainer then container else plain

end Category

/-- A name with its type, as declared. -/
structure Declaration where
  /-- The name as it was written. -/
  name : String
  ty : Ty
  category : Category
  position : Position
  /-- The path of the scope, such as `Global> func(main)`. -/
  scope : String
deriving DecidableEq, Repr

/-- The form of the name in which it is found. -/
def Declaration.key (d : Declaration) : String := Text.fold d.name

/-- A declared name with the value it holds. -/
structure Symbol extends Declaration where
  value : Value
  /-- Whether no value has been assigned yet. -/
  holdsDefault : Bool
  /-- The row that lists the symbol. -/
  row : Option Nat

end Primer
