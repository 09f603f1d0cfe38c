import Primer.Expr
import Primer.Fault
import Primer.Value.Store

/-!
# Operators on values

Arithmetic on whole numbers wraps around and stays whole, except that `/` always gives a double.
`+` joins texts as soon as one side is a string.
-/

namespace Primer

namespace Value

/-- A power of a whole number, by repeated squaring. -/
def powerOf (x : Int64) (n : Nat) : Int64 :=
  if n = 0 then 1
  else
    let half := powerOf (x * x) (n / 2)
    if n % 2 = 0 then half else half * x
termination_by n

/-- The greatest exponent a whole power is taken to. -/
def greatestExponent : Nat := 4294967295

/-- A whole number to a whole power. A negative exponent goes through the doubles. -/
def power (x y : Int64) : Int64 :=
  if y < 0 then (x.toFloat.pow y.toFloat).toInt64
  else powerOf x (min y.toNatClampNeg greatestExponent)

/-- Two values an operator does not take together. -/
def incompatible (symbol : String) (a b : Value) : Fault :=
  .incompatibleTypes symbol a.ty.text b.ty.text

/-- A value an operator does not take. -/
def invalidOperand (symbol : String) (v : Value) : Fault := .invalidOperand symbol v.ty.text

/-- A quotient of doubles, refused where the divisor counts as zero. -/
def divide (a b : Float) : Except Fault Value :=
  if b.abs < Store.tolerance then .error .divisionByZero else .ok (double (a / b))

/-- Arithmetic on whole numbers. -/
def intArithmetic (op : ArithmeticOp) (x y : Int64) : Except Fault Value :=
  match op with
  | .add => .ok (int (x + y))
  | .subtract => .ok (int (x - y))
  | .multiply => .ok (int (x * y))
  | .divide => divide x.toFloat y.toFloat
  | .modulo => if y = 0 then .error .moduloByZero else .ok (int (x % y))
  | .power => .ok (int (power x y))

/-- Arithmetic on doubles, which have no remainder. -/
def doubleArithmetic (op : ArithmeticOp) (a b : Float) (noRemainder : Fault) :
    Except Fault Value :=
  match op with
  | .add => .ok (double (a + b))
  | .subtract => .ok (double (a - b))
  | .multiply => .ok (double (a * b))
  | .divide => divide a b
  | .modulo => .error noRemainder
  | .power => .ok (double (a.pow b))

/-- `-value`. -/
def negate : Value → Except Fault Value
  | int x => .ok (int (-x))
  | double x => .ok (double (-x))
  | char c => .ok (int (-Int64.ofNat c.toNat))
  | v => .error (invalidOperand "-" v)

/-- `!value`. -/
def not : Value → Except Fault Value
  | bool b => .ok (bool !b)
  | v => .error (invalidOperand "!" v)

/-- The operand of a logical operator. -/
def truth (op : LogicalOp) (v : Value) : Except Fault Bool :=
  match v.toBool? with
  | some b => .ok b
  | none => .error (invalidOperand op.symbol v)

/-- An order on whole numbers. -/
def intOrder (op : RelationalOp) (x y : Int64) : Bool :=
  match op with
  | .less => x < y
  | .lessEqual => x ≤ y
  | .greater => y < x
  | _ => y ≤ x

/-- An order on doubles. -/
def doubleOrder (op : RelationalOp) (a b : Float) : Bool :=
  match op with
  | .less => a < b
  | .lessEqual => a ≤ b
  | .greater => b < a
  | _ => b ≤ a

/-- A value as another type. -/
def cast (target : Ty) (v : Value) : Except Fault Value :=
  if v.ty = target then .ok v
  else match v, target with
    | int x, .double => .ok (double x.toFloat)
    | double x, .int => .ok (int x.toInt64)
    | int x, .char =>
      match charOf? x.toInt with
      | some c => .ok (char c)
      | none => .error (.invalidCast v.ty.text target.text)
    | char c, .int => .ok (int (Int64.ofNat c.toNat))
    | char c, .double => .ok (double (Float.ofNat c.toNat))
    | int x, .string => .ok (string (toString x.toInt))
    | double x, .string => .ok (string (Decimal.Layout.display.write x))
    | v, target => .error (.invalidCast v.ty.text target.text)

/-- A value one step up or down. -/
def step (up : Bool) : Value → Except Fault Value
  | int x => .ok (int (if up then x + 1 else x - 1))
  | double x => .ok (double (if up then x + 1.0 else x + -1.0))
  | char c =>
    match charOf? ((c.toNat : Int) + (if up then 1 else -1)) with
    | some d => .ok (char d)
    | none => .error (.invalidOperand (if up then "++" else "--") Ty.char.text)
  | v => .error (.incDecNonNumeric v.ty.text)

end Value

namespace Store

open Value (incompatible intArithmetic doubleArithmetic intOrder doubleOrder)

/-- `a op b` for an arithmetic operator. -/
def arithmetic (s : Store) (op : ArithmeticOp) (a b : Value) : Except Fault Value :=
  if op = .add && (a.isString || b.isString) then .ok (.string (s.text a ++ s.text b))
  else match a.toInt?, b.toInt? with
    | some x, some y => intArithmetic op x y
    | _, _ =>
      match a.toDouble?, b.toDouble? with
      | some x, some y => doubleArithmetic op x y (incompatible op.symbol a b)
      | _, _ => .error (incompatible op.symbol a b)

/-- `a op b` for a relational operator. -/
def relational (s : Store) (op : RelationalOp) (a b : Value) : Except Fault Bool :=
  match op with
  | .equal => .ok (s.equal a b)
  | .notEqual => .ok !(s.equal a b)
  | op =>
    match a.toInt?, b.toInt? with
    | some x, some y => .ok (intOrder op x y)
    | _, _ =>
      match a.toDouble?, b.toDouble? with
      | some x, some y => .ok (doubleOrder op x y)
      | _, _ => .error (incompatible op.symbol a b)

end Store

end Primer
