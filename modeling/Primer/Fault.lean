import Primer.Text.Quoted

/-!
# Faults

Everything that can be wrong with a program, found while reading, checking or running it, with its
name, its family, its message and the advice that goes with it.
-/

namespace Primer

/-- What is wrong. Types are given as they are written. -/
inductive Fault where
  | unrecognisedToken (token : String)
  | unterminatedLiteral (literal : String)
  | unexpectedToken (token : String)
  | unexpectedTokenDetailed (token message : String)
  | numberParseError (token : String)
  | unknownType (type : String)
  | duplicateDeclaration (identifier : String)
  | undeclaredIdentifier (identifier : String)
  | undeclaredFunction (function : String)
  | functionAlreadyDeclared (function : String)
  | reservedFunctionName (function : String)
  | nestedFunctionDeclaration (function : String)
  | duplicateParameter (parameter function : String)
  | unexpectedArguments (function : String) (expected received : Nat)
  | missingArguments (function : String) (expected received : Nat)
  | argumentTypeMatchError (function : String) (index : Nat) (expected received : String)
  | typeMatchError (identifier expected received : String)
  | incompatibleTypes (operator left right : String)
  | invalidOperand (operator operand : String)
  | invalidCast (source target : String)
  | conditionNotBool (construct received : String)
  | indexNotInt (received : String)
  | notIndexable (type : String)
  | doubleIndexOnNonMatrix (type : String)
  | incompatibleElementTypes (first second : String)
  | matrixRowNotVector (received : String)
  | emptyAggregateLiteral
  | newListOutsideList (expected : String)
  | missingReturn (function : String)
  | voidReturnsValue (function : String)
  | missingReturnValue (function : String)
  | returnTypeMismatch (function expected received : String)
  | returnOutsideFunction
  | missingEntryPoint
  | multipleEntryPoints (count : Nat)
  | unknownMethod (method type : String)
  | invalidBuiltinArgument (function received : String)
  | incDecNonNumeric (received : String)
  | divisionByZero
  | moduloByZero
  | indexOutOfBounds (index : Int) (length : Nat)
  | runtimeTypeMismatch (identifier expected received : String)
  | unconsumedControlSignal (signal : String)
  | callDepthExceeded (limit : Nat)
deriving DecidableEq, Repr

/-- The family of a fault, in the order in which families are listed. -/
inductive Family where
  | lexical
  | semantic
  | syntactic
deriving DecidableEq, Repr

namespace Family

def name : Family → String
  | lexical => "Lexical"
  | semantic => "Semantic"
  | syntactic => "Syntactic"

/-- The place of a family in a sorted listing. -/
def rank : Family → Nat
  | lexical => 0
  | semantic => 1
  | syntactic => 2

end Family

namespace Fault

open Text (quoted)

def family : Fault → Family
  | unrecognisedToken _ => .lexical
  | unterminatedLiteral _ => .lexical
  | unexpectedToken _ => .syntactic
  | unexpectedTokenDetailed .. => .syntactic
  | numberParseError _ => .syntactic
  | unknownType _ => .syntactic
  | _ => .semantic

def name : Fault → String
  | unrecognisedToken _ => "UnrecognisedToken"
  | unterminatedLiteral _ => "UnterminatedLiteral"
  | unexpectedToken _ => "UnexpectedToken"
  | unexpectedTokenDetailed .. => "UnexpectedTokenDetailed"
  | numberParseError _ => "NumberParseError"
  | unknownType _ => "UnknownType"
  | duplicateDeclaration _ => "DuplicateDeclaration"
  | undeclaredIdentifier _ => "UndeclaredIdentifier"
  | undeclaredFunction _ => "UndeclaredFunction"
  | functionAlreadyDeclared _ => "FunctionAlreadyDeclared"
  | reservedFunctionName _ => "ReservedFunctionName"
  | nestedFunctionDeclaration _ => "NestedFunctionDeclaration"
  | duplicateParameter .. => "DuplicateParameter"
  | unexpectedArguments .. => "UnexpectedArguments"
  | missingArguments .. => "MissingArguments"
  | argumentTypeMatchError .. => "ArgumentTypeMatchError"
  | typeMatchError .. => "TypeMatchError"
  | incompatibleTypes .. => "IncompatibleTypes"
  | invalidOperand .. => "InvalidOperand"
  | invalidCast .. => "InvalidCast"
  | conditionNotBool .. => "ConditionNotBool"
  | indexNotInt _ => "IndexNotInt"
  | notIndexable _ => "NotIndexable"
  | doubleIndexOnNonMatrix _ => "DoubleIndexOnNonMatrix"
  | incompatibleElementTypes .. => "IncompatibleElementTypes"
  | matrixRowNotVector _ => "MatrixRowNotVector"
  | emptyAggregateLiteral => "EmptyAggregateLiteral"
  | newListOutsideList _ => "NewListOutsideList"
  | missingReturn _ => "MissingReturn"
  | voidReturnsValue _ => "VoidReturnsValue"
  | missingReturnValue _ => "MissingReturnValue"
  | returnTypeMismatch .. => "ReturnTypeMismatch"
  | returnOutsideFunction => "ReturnOutsideFunction"
  | missingEntryPoint => "MissingEntryPoint"
  | multipleEntryPoints _ => "MultipleEntryPoints"
  | unknownMethod .. => "UnknownMethod"
  | invalidBuiltinArgument .. => "InvalidBuiltinArgument"
  | incDecNonNumeric _ => "IncDecNonNumeric"
  | divisionByZero => "DivisionByZero"
  | moduloByZero => "ModuloByZero"
  | indexOutOfBounds .. => "IndexOutOfBounds"
  | runtimeTypeMismatch .. => "RuntimeTypeMismatch"
  | unconsumedControlSignal _ => "UnconsumedControlSignal"
  | callDepthExceeded _ => "CallDepthExceeded"

/-- What a fault says. -/
def message : Fault → String
  | unrecognisedToken t => "unrecognised token " ++ quoted t
  | unterminatedLiteral l => "unterminated " ++ l ++ " literal"
  | unexpectedToken t => "unexpected token " ++ quoted t
  | unexpectedTokenDetailed t m => "unexpected token " ++ quoted t ++ ": " ++ m
  | numberParseError t => "failed to parse number " ++ quoted t
  | unknownType t => "unknown type " ++ quoted t
  | duplicateDeclaration i =>
    "identifier " ++ quoted i ++ " is already declared in this scope"
  | undeclaredIdentifier i => "identifier " ++ quoted i ++ " is not declared"
  | undeclaredFunction f => "function " ++ quoted f ++ " is not declared"
  | functionAlreadyDeclared f =>
    "function " ++ quoted f ++ " is already declared, overloading is not supported"
  | reservedFunctionName f => quoted f ++ " is a built-in function and cannot be redefined"
  | nestedFunctionDeclaration f =>
    "function " ++ quoted f ++ " must be declared at the top level"
  | duplicateParameter p f => "parameter " ++ quoted p ++ " is declared twice in " ++ quoted f
  | unexpectedArguments f e r =>
    "too many arguments for " ++ quoted f ++ ": expected " ++ toString e ++ ", received " ++
      toString r
  | missingArguments f e r =>
    "missing arguments for " ++ quoted f ++ ": expected " ++ toString e ++ ", received " ++
      toString r
  | argumentTypeMatchError f i e r =>
    "argument " ++ toString i ++ " of " ++ quoted f ++ " expects " ++ e ++ ", received " ++ r
  | typeMatchError i e r => "cannot assign " ++ r ++ " to " ++ quoted i ++ " of type " ++ e
  | incompatibleTypes o l r => "incompatible types for " ++ o ++ ": " ++ l ++ " and " ++ r
  | invalidOperand o t => "operator " ++ o ++ " cannot be applied to " ++ t
  | invalidCast s t => "invalid cast from " ++ s ++ " to " ++ t
  | conditionNotBool c r => c ++ " condition must be bool, found " ++ r
  | indexNotInt r => "index must be int, found " ++ r
  | notIndexable t => "type " ++ t ++ " cannot be indexed"
  | doubleIndexOnNonMatrix t => "double index requires a matrix, found " ++ t
  | incompatibleElementTypes a b =>
    "incompatible element types in literal: " ++ a ++ " and " ++ b
  | matrixRowNotVector r => "matrix rows must be vectors, found " ++ r
  | emptyAggregateLiteral => "cannot infer the element type of an empty literal"
  | newListOutsideList e => "new List() cannot initialise a value of type " ++ e
  | missingReturn f => "function " ++ quoted f ++ " must return a value"
  | voidReturnsValue f => "procedure " ++ quoted f ++ " cannot return a value"
  | missingReturnValue f => "function " ++ quoted f ++ " must return a value here"
  | returnTypeMismatch f e r => "function " ++ quoted f ++ " returns " ++ e ++ ", found " ++ r
  | returnOutsideFunction => "return outside of a function"
  | missingEntryPoint => "no entry statement: add exactly one `start`"
  | multipleEntryPoints n =>
    "found " ++ toString n ++ " entry statements, expected exactly one"
  | unknownMethod m t => "unknown method " ++ quoted m ++ " on " ++ t
  | invalidBuiltinArgument f r => "invalid argument for " ++ quoted f ++ ": " ++ r
  | incDecNonNumeric r => "increment and decrement require int, double or char, found " ++ r
  | divisionByZero => "division by zero"
  | moduloByZero => "modulo by zero"
  | indexOutOfBounds i n =>
    "index " ++ toString i ++ " out of bounds for length " ++ toString n
  | runtimeTypeMismatch i e r =>
    "runtime type mismatch for " ++ quoted i ++ ": expected " ++ e ++ ", found " ++ r
  | unconsumedControlSignal s => s ++ " outside loop/switch"
  | callDepthExceeded n => "call depth limit of " ++ toString n ++ " exceeded"

/-- The advice that goes with a fault. -/
def advice? : Fault → Option String
  | unterminatedLiteral _ => some "Close the literal on the same line"
  | unexpectedToken t =>
    some ("Unexpected token: `" ++ t ++ "`, did you miss a semicolon?")
  | unexpectedTokenDetailed t m => some ("Unexpected token: `" ++ t ++ "`, " ++ m)
  | numberParseError t =>
    some ("Invalid number: `" ++ t ++ "`, is it above the integer limit?")
  | unknownType t =>
    some ("`" ++ t ++
      "` is not a type; use int, double, bool, char, string, T[], T[][] or List<T>")
  | duplicateDeclaration i => some ("Rename `" ++ i ++ "` or assign to the existing one")
  | undeclaredIdentifier i => some ("Declare `" ++ i ++ "` with `var` before using it")
  | undeclaredFunction f => some ("Define a function named `" ++ f ++ "`")
  | functionAlreadyDeclared _ => some "Functions cannot be overloaded"
  | reservedFunctionName _ =>
    some "round, length, toString, find and startsWith are built in"
  | nestedFunctionDeclaration _ => some "Move the declaration to the top level"
  | unexpectedArguments _ e r =>
    some ("Expected " ++ toString e ++ " arguments, received " ++ toString r)
  | missingArguments _ e r =>
    some ("Expected " ++ toString e ++ " arguments, received " ++ toString r)
  | argumentTypeMatchError _ _ e r =>
    some ("Expected argument type `" ++ e ++ "`, received `" ++ r ++ "`")
  | typeMatchError _ e r => some ("Expected type `" ++ e ++ "`, received `" ++ r ++ "`")
  | runtimeTypeMismatch _ e r => some ("Expected type `" ++ e ++ "`, received `" ++ r ++ "`")
  | invalidCast .. =>
    some ("Legal casts are int<->double, int->char, char->int, char->double and " ++
      "int|double->string")
  | conditionNotBool .. => some "Compare the value to produce a bool"
  | emptyAggregateLiteral =>
    some "Declare the variable without an initializer to get an empty container"
  | newListOutsideList _ => some "`new List()` can only initialise a List<T>"
  | missingReturn f => some ("Add a `return` with a value to `" ++ f ++ "`")
  | missingEntryPoint => some "Add `start main();` after the declarations"
  | multipleEntryPoints _ => some "Keep a single `start` statement"
  | divisionByZero => some "Check the divisor before dividing"
  | moduloByZero => some "Check the divisor before dividing"
  | indexOutOfBounds _ n => some ("Valid indices are 0 to " ++ toString (n - 1))
  | callDepthExceeded _ => some "Check the recursion for a missing base case"
  | _ => none

end Fault

end Primer
