import Primer.Decimal.Layout
import Primer.Position
import Primer.Ty

/-!
# Expressions

Every expression carries the span of its source. Parentheses are kept, so the text of an
expression shows the tree it was read into.
-/

namespace Primer

inductive ArithmeticOp where
  | add
  | subtract
  | multiply
  | divide
  | modulo
  | power
deriving DecidableEq, Repr

inductive RelationalOp where
  | equal
  | notEqual
  | less
  | lessEqual
  | greater
  | greaterEqual
deriving DecidableEq, Repr

inductive LogicalOp where
  | and
  | or
  | xor
deriving DecidableEq, Repr

namespace ArithmeticOp

def symbol : ArithmeticOp → String
  | add => "+"
  | subtract => "-"
  | multiply => "*"
  | divide => "/"
  | modulo => "%"
  | power => "**"

/-- The operator with a symbol. -/
def ofSymbol? (s : String) : Option ArithmeticOp :=
  [add, subtract, multiply, divide, modulo, power].find? (·.symbol == s)

end ArithmeticOp

namespace RelationalOp

def symbol : RelationalOp → String
  | equal => "=="
  | notEqual => "!="
  | less => "<"
  | lessEqual => "<="
  | greater => ">"
  | greaterEqual => ">="

/-- The operator with a symbol. -/
def ofSymbol? (s : String) : Option RelationalOp :=
  [equal, notEqual, less, lessEqual, greater, greaterEqual].find? (·.symbol == s)

/-- Whether the operator compares for equality and not for order. -/
def isEquality : RelationalOp → Bool
  | equal => true
  | notEqual => true
  | _ => false

end RelationalOp

def LogicalOp.symbol : LogicalOp → String
  | and => "&&"
  | or => "||"
  | xor => "^"

/-- An expression. `index` picks an element or a row, `cell` an element of a row. -/
inductive Expr where
  | int (span : Span) (value : Int64)
  | double (span : Span) (value : Float)
  | bool (span : Span) (value : Bool)
  | char (span : Span) (value : Char)
  | string (span : Span) (value : String)
  | name (span : Span) (name : String)
  | arithmetic (span : Span) (op : ArithmeticOp) (left right : Expr)
  | negate (span : Span) (operand : Expr)
  | relational (span : Span) (op : RelationalOp) (left right : Expr)
  | logical (span : Span) (op : LogicalOp) (left right : Expr)
  | not (span : Span) (operand : Expr)
  | cast (span : Span) (target : Ty) (operand : Expr)
  | group (span : Span) (inner : Expr)
  | call (span : Span) (name : String) (arguments : List Expr)
  | method (span : Span) (receiver : Expr) (name : String) (arguments : List Expr)
  | index (span : Span) (target index : Expr)
  | cell (span : Span) (target index column : Expr)
  | vector (span : Span) (items : List Expr)
  | matrix (span : Span) (rows : List Expr)
  | newList (span : Span) (base : Option Scalar)

namespace Expr

/-- Where an expression stands. -/
def span : Expr → Span
  | int s _ => s
  | double s _ => s
  | bool s _ => s
  | char s _ => s
  | string s _ => s
  | name s _ => s
  | arithmetic s _ _ _ => s
  | negate s _ => s
  | relational s _ _ _ => s
  | logical s _ _ _ => s
  | not s _ => s
  | cast s _ _ => s
  | group s _ => s
  | call s _ _ => s
  | method s _ _ _ => s
  | index s _ _ => s
  | cell s _ _ _ => s
  | vector s _ => s
  | matrix s _ => s
  | newList s _ => s

/-- Where an expression begins. -/
def position (e : Expr) : Position := e.span.start

/-- Whether an expression may stand on the left of `=`, `++` or `--`. -/
def isTarget : Expr → Bool
  | name .. => true
  | index .. => true
  | cell .. => true
  | _ => false

mutual

/-- The text of an expression. -/
def text : Expr → String
  | int _ v => toString v.toInt
  | double _ v => Decimal.Layout.literal.write v
  | bool _ v => if v then "true" else "false"
  | char _ v => "'" ++ String.singleton v ++ "'"
  | string _ v => "\"" ++ v ++ "\""
  | name _ n => n
  | arithmetic _ op l r => l.text ++ " " ++ op.symbol ++ " " ++ r.text
  | negate _ e => "-" ++ e.text
  | relational _ op l r => l.text ++ " " ++ op.symbol ++ " " ++ r.text
  | logical _ op l r => l.text ++ " " ++ op.symbol ++ " " ++ r.text
  | not _ e => "!" ++ e.text
  | cast _ t e => "(" ++ t.text ++ ") " ++ e.text
  | group _ e => "(" ++ e.text ++ ")"
  | call _ n args => n ++ "(" ++ listText args ++ ")"
  | method _ r n args => r.text ++ "." ++ n ++ "(" ++ listText args ++ ")"
  | index _ t i => t.text ++ "[" ++ i.text ++ "]"
  | cell _ t i j => t.text ++ "[" ++ i.text ++ "][" ++ j.text ++ "]"
  | vector _ items => "[" ++ listText items ++ "]"
  | matrix _ rows => "[" ++ listText rows ++ "]"
  | newList _ (some b) => "new List<" ++ b.text ++ ">()"
  | newList _ none => "new List()"

/-- The texts of expressions, with commas between them. -/
def listText : List Expr → String
  | [] => ""
  | [e] => e.text
  | e :: rest => e.text ++ ", " ++ listText rest

end

end Expr

end Primer
