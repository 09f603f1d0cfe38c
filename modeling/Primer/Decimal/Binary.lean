/-!
# Doubles as exact numbers

A finite double is a natural number times a power of two. Here it is taken apart into the two, and
built as the one nearest to a quotient of naturals, a tie going to the even neighbour.
-/

namespace Primer.Decimal

/-- The size of a finite double as `mantissa · 2^exponent`. -/
structure Binary where
  mantissa : Nat
  exponent : Int
  /-- Whether the next double below is half as far away as the next one above. -/
  narrow : Bool
deriving Repr

/-- The size of a finite double. -/
def Binary.ofFloat (x : Float) : Binary :=
  let bits := x.toBits.toNat
  let field : Nat := bits / Nat.pow 2 52 % Nat.pow 2 11
  let fraction := bits % Nat.pow 2 52
  if field = 0 then ⟨fraction, -1074, false⟩
  else ⟨Nat.pow 2 52 + fraction, (field : Int) - 1075, fraction == 0 && field != 1⟩

/-- Whether a double carries a minus sign, zero and infinity included. -/
def isNegative (x : Float) : Bool :=
  Nat.pow 2 63 ≤ x.toBits.toNat

/-- The natural nearest to a quotient, a tie going to the even neighbour. -/
def nearest (n d : Nat) : Nat :=
  let q := n / d
  let r := n % d
  if 2 * r < d || (2 * r == d && q % 2 == 0) then q else q + 1

/-- The greatest `e` with `2^e ≤ n / d`, for positive naturals. -/
def binaryOrder (n d : Nat) : Int :=
  let e : Int := (n.log2 : Int) - d.log2
  if d * Nat.pow 2 e.toNat ≤ n * Nat.pow 2 (-e).toNat then e else e - 1

/-- The bits of an infinite double. -/
def infinityBits : Nat := 2047 * Nat.pow 2 52

/-- The bits of the double nearest to a quotient of positive naturals. -/
def ratioBits (n d : Nat) : Nat :=
  let e := max (binaryOrder n d - 52) (-1074)
  let mantissa := nearest (n * Nat.pow 2 (-e).toNat) (d * Nat.pow 2 e.toNat)
  min ((e + 1074).toNat * Nat.pow 2 52 + mantissa) infinityBits

/-- The bits of the double nearest to `digits · 10^exponent`. Sizes far outside the range of
doubles are settled by their order of magnitude. -/
def decimalBits (digits : Nat) (exponent : Int) : Nat :=
  let order : Int := (Nat.toDigits 10 digits).length + exponent
  if digits = 0 || order < -400 then 0
  else if 400 < order then infinityBits
  else ratioBits (digits * Nat.pow 10 exponent.toNat) (Nat.pow 10 (-exponent).toNat)

end Primer.Decimal
