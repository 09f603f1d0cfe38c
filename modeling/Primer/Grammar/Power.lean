import Primer.Expr
import Primer.Token

/-!
# How tightly operators bind

An operator takes what stands before it as its operand if it binds more tightly than the context
allows. All operators lean left but `**`, whose right operand may be another `**`.
-/

namespace Primer

/-- How tightly something binds, from the loosest on. -/
inductive Power where
  | lowest
  | logicalOr
  | logicalAnd
  | relational
  | additive
  | multiplicative
  | power
  | unary
  | call
  | member
  | primary
deriving DecidableEq, Repr

namespace Power

def rank : Power → Nat
  | lowest => 0
  | logicalOr => 1
  | logicalAnd => 2
  | relational => 3
  | additive => 4
  | multiplicative => 5
  | power => 6
  | unary => 7
  | call => 8
  | member => 9
  | primary => 10

def name : Power → String
  | lowest => "Default"
  | logicalOr => "LogicalOr"
  | logicalAnd => "LogicalAnd"
  | relational => "Relational"
  | additive => "Additive"
  | multiplicative => "Multiplicative"
  | power => "Power"
  | unary => "Unary"
  | call => "Call"
  | member => "Member"
  | primary => "Primary"

/-- The power of a name. -/
def ofName? (name : String) : Option Power :=
  [lowest, logicalOr, logicalAnd, relational, additive, multiplicative, power, unary, call,
    member, primary].find? (·.name == name)

/-- Whether `p` is looser than `q`. -/
def looser (p q : Power) : Bool := p.rank < q.rank

end Power

/-- The operators between two operands. -/
inductive BinaryOp where
  | arithmetic (op : ArithmeticOp)
  | relational (op : RelationalOp)
  | logical (op : LogicalOp)
deriving DecidableEq, Repr

namespace BinaryOp

def power : BinaryOp → Power
  | arithmetic .add => .additive
  | arithmetic .subtract => .additive
  | arithmetic .multiply => .multiplicative
  | arithmetic .divide => .multiplicative
  | arithmetic .modulo => .multiplicative
  | arithmetic .power => .power
  | relational _ => .relational
  | logical .and => .logicalAnd
  | logical .or => .logicalOr
  | logical .xor => .logicalOr

/-- What the right operand has to exceed. -/
def rightPower : BinaryOp → Power
  | arithmetic .power => .multiplicative
  | op => op.power

/-- An operator with its operands. -/
def build (op : BinaryOp) (left right : Expr) : Expr :=
  let span : Span := ⟨left.span.start, right.span.stop⟩
  match op with
  | arithmetic o => .arithmetic span o left right
  | relational o => .relational span o left right
  | logical o => .logical span o left right

end BinaryOp

namespace TokenKind

/-- The operator a token stands for between two operands. -/
def binary? : TokenKind → Option BinaryOp
  | or => some (.logical .or)
  | caret => some (.logical .xor)
  | and => some (.logical .and)
  | less => some (.relational .less)
  | lessEquals => some (.relational .lessEqual)
  | greater => some (.relational .greater)
  | greaterEquals => some (.relational .greaterEqual)
  | equals => some (.relational .equal)
  | notEquals => some (.relational .notEqual)
  | plus => some (.arithmetic .add)
  | dash => some (.arithmetic .subtract)
  | star => some (.arithmetic .multiply)
  | slash => some (.arithmetic .divide)
  | percent => some (.arithmetic .modulo)
  | starStar => some (.arithmetic .power)
  | _ => none

/-- How tightly a token binds the expression before it. -/
def power (k : TokenKind) : Power :=
  match k.binary? with
  | some op => op.power
  | none =>
    match k with
    | openParen => .call
    | openBracket => .call
    | dot => .member
    | _ => .lowest

/-- How tightly a token binds the type before it. -/
def typePower : TokenKind → Power
  | openBracket => .call
  | _ => .lowest

/-- Whether an expression can begin with the token. -/
def opensExpr : TokenKind → Bool
  | number | identifier | string | char | trueWord | falseWord => true
  | dash | not | openParen | openBracket | newWord => true
  | _ => false

/-- Whether an expression can go on with the token. -/
def extendsExpr (k : TokenKind) : Bool := k.power != .lowest

/-- Whether a type can begin with the token. -/
def opensType : TokenKind → Bool
  | typeWord | listWord => true
  | _ => false

/-- Whether a type can go on with the token. -/
def extendsType (k : TokenKind) : Bool := k.typePower != .lowest

/-- Whether the token alone settles what statement it begins. -/
def opensStmt : TokenKind → Bool
  | varWord | typeWord | listWord | ifWord | switchWord | whileWord | doWord | forWord => true
  | openCurly | breakWord | continueWord | returnWord | startWord | printWord => true
  | _ => false

end TokenKind

end Primer
