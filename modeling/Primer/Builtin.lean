import Primer.Text.Fold
import Primer.Text.Search
import Primer.Value.Element

/-!
# Built-in functions and methods

A fixed set of names, compared without case. Functions only look at values; of the methods,
`append` and `remove` change a list.
-/

namespace Primer

/-- The functions every program has. -/
inductive Builtin where
  | round
  | length
  | toString
  | find
  | startsWith
deriving DecidableEq, Repr

/-- What is called as `receiver.method(argument)`. -/
inductive Method where
  | append
  | remove
  | find
  | startsWith
deriving DecidableEq, Repr

/-- Whether as many arguments were given as a function takes. -/
def checkArity (function : String) (expected received : Nat) : Except Fault Unit :=
  if expected < received then .error (.unexpectedArguments function expected received)
  else if received < expected then .error (.missingArguments function expected received)
  else .ok ()

namespace Builtin

/-- The function of a name. -/
def ofName? (name : String) : Option Builtin :=
  match Text.fold name with
  | "round" => some round
  | "length" => some length
  | "tostring" => some toString
  | "find" => some find
  | "startswith" => some startsWith
  | "start_with" => some startsWith
  | "startwith" => some startsWith
  | _ => none

def name : Builtin → String
  | round => "round"
  | length => "length"
  | toString => "toString"
  | find => "find"
  | startsWith => "startsWith"

def arity : Builtin → Nat
  | round => 1
  | length => 1
  | toString => 1
  | find => 2
  | startsWith => 2

/-- The complaint about an argument. -/
def invalid (b : Builtin) (v : Value) : Fault := .invalidBuiltinArgument b.name v.ty.text

/-- An index as a value, -1 for none. -/
def indexValue : Option Nat → Value
  | some i => .int (Int64.ofNat i)
  | none => .int (-1)

/-- A value from what an argument may have. -/
def orInvalid (b : Builtin) (v : Value) : Option Value → Except Fault Value
  | some w => .ok w
  | none => .error (b.invalid v)

/-- A function on arguments of the right number. -/
def apply (b : Builtin) (s : Store) : List Value → Except Fault Value
  | [] => .error (b.invalid .void)
  | [v] =>
    match b, v with
    | round, .double x => .ok (.int x.round.toInt64)
    | round, v => b.orInvalid v (v.toInt?.map .int)
    | length, .string t => .ok (.int (Int64.ofNat t.length))
    | length, v => b.orInvalid v (v.sequence?.map fun q => .int (Int64.ofNat (s.length q)))
    | toString, v => .ok (.string (s.text v))
    | _, v => .error (b.invalid v)
  | v :: w :: _ =>
    match b, v, w with
    | find, .string t, .string u => .ok (indexValue (Text.find? u.toList t.toList))
    | find, v, w => b.orInvalid v (v.sequence?.map fun q => indexValue (s.find? q w))
    | startsWith, .string t, .string u => .ok (.bool (u.toList.isPrefixOf t.toList))
    | _, v, _ => .error (b.invalid v)

/-- A function on its arguments. -/
def call (b : Builtin) (s : Store) (arguments : List Value) : Except Fault Value := do
  checkArity b.name b.arity arguments.length
  b.apply s arguments

end Builtin

namespace Method

/-- The method of a name. -/
def ofName? (name : String) : Option Method :=
  match Text.fold name with
  | "append" => some append
  | "remove" => some remove
  | "find" => some find
  | "startswith" => some startsWith
  | "start_with" => some startsWith
  | "startwith" => some startsWith
  | _ => none

def name : Method → String
  | append => "append"
  | remove => "remove"
  | find => "find"
  | startsWith => "startsWith"

/-- Every method takes one argument. -/
def arity (_ : Method) : Nat := 1

/-- The complaint about an argument. -/
def invalid (m : Method) (v : Value) : Fault := .invalidBuiltinArgument m.name v.ty.text

/-- Adds a value to the end of a list. -/
def appendTo (q : Sequence) (v : Value) : Except Fault (Value × Edit) := do
  let w ← v.convert (.scalar q.base) append.name
  return (.void, .push q w)

/-- Takes an item out of a list. -/
def removeFrom (s : Store) (q : Sequence) (v : Value) : Except Fault (Value × Edit) :=
  match v.toInt? with
  | none => .error (remove.invalid v)
  | some i =>
    match i.toInt.toNat?.bind fun n => (s.get? q n).map (n, ·) with
    | some (n, w) => .ok (w, .erase q n)
    | none => .error (.indexOutOfBounds i.toInt (s.length q))

/-- A method on a receiver and its argument: its value, and what it changes. -/
def apply (m : Method) (s : Store) (receiver argument : Value) : Except Fault (Value × Edit) :=
  match m, receiver, argument with
  | append, .list q, v => appendTo q v
  | remove, .list q, v => removeFrom s q v
  | find, .vector q, v => .ok (.bool (s.find? q v).isSome, .keep)
  | find, .list q, v => .ok (.bool (s.find? q v).isSome, .keep)
  | find, .string t, .string u => .ok (.bool (Text.find? u.toList t.toList).isSome, .keep)
  | find, .string t, .char c => .ok (.bool (t.toList.contains c), .keep)
  | find, .string _, v => .error (m.invalid v)
  | startsWith, .string t, .string u => .ok (.bool (u.toList.isPrefixOf t.toList), .keep)
  | startsWith, .string _, v => .error (m.invalid v)
  | _, receiver, _ => .error (.unknownMethod m.name receiver.ty.text)

/-- A method on a receiver and its arguments: its value, and what it changes. -/
def call (m : Method) (s : Store) (receiver : Value) (arguments : List Value) :
    Except Fault (Value × Edit) := do
  checkArity m.name m.arity arguments.length
  match arguments with
  | [] => .error (m.invalid .void)
  | argument :: _ => m.apply s receiver argument

end Method

end Primer
