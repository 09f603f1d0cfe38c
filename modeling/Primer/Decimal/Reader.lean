import Primer.Decimal.Binary

/-!
# Numbers in source text

An integer is a run of digits with an optional sign, in the range of sixty-four signed bits. A
double is digits with an optional sign, point and power of ten, at least one digit standing before
the power; it reads as the nearest double, infinite if it is too large.
-/

namespace Primer.Decimal

/-- The natural a run of digits stands for. -/
def natOf (cs : List Char) : Nat :=
  cs.foldl (fun n c => 10 * n + (c.toNat - '0'.toNat)) 0

/-- Splits a sign off a text: whether it is a minus, and what follows. -/
def takeSign : List Char → Bool × List Char
  | '-' :: rest => (true, rest)
  | '+' :: rest => (false, rest)
  | cs => (false, cs)

/-- A run of digits and nothing else. -/
def readNat? (cs : List Char) : Option Nat :=
  if cs.isEmpty || !cs.all Char.isDigit then none else some (natOf cs)

/-- A run of digits with an optional sign. -/
def readSigned? (cs : List Char) : Option Int :=
  let (negative, rest) := takeSign cs
  (readNat? rest).map fun n => if negative then -(n : Int) else n

/-- A signed sixty-four bit integer. -/
def readInt? (s : String) : Option Int64 :=
  (readSigned? s.toList).bind fun n =>
    if Int64.minValue.toInt ≤ n && n ≤ Int64.maxValue.toInt then some (Int64.ofInt n) else none

/-- The power of ten at the end of a number, zero if there is none. -/
def readPower? : List Char → Option Int
  | [] => some 0
  | c :: rest => if c = 'e' || c = 'E' then readSigned? rest else none

/-- Digits with an optional point, and what follows them. -/
def takeDecimal (cs : List Char) : List Char × List Char × List Char :=
  let whole := cs.takeWhile Char.isDigit
  match cs.dropWhile Char.isDigit with
  | '.' :: rest => (whole, rest.takeWhile Char.isDigit, rest.dropWhile Char.isDigit)
  | rest => (whole, [], rest)

/-- A double. -/
def readDouble? (s : String) : Option Float :=
  let (negative, unsigned) := takeSign s.toList
  let (whole, fraction, rest) := takeDecimal unsigned
  if whole.isEmpty && fraction.isEmpty then none
  else (readPower? rest).map fun power =>
    let bits := decimalBits (natOf (whole ++ fraction)) (power - fraction.length)
    Float.ofBits (UInt64.ofNat (if negative then Nat.pow 2 63 + bits else bits))

end Primer.Decimal
