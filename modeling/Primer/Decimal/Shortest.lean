import Primer.Decimal.Binary

/-!
# The fewest digits that read back

A double stands for all reals that round to it. `shortest` gives the decimal with the fewest
digits among these reals, and of several with that many digits the nearest to the double; of two
equally near the greater.
-/

namespace Primer.Decimal

/-- The decimal `digits · 10^exponent`. -/
structure Digits where
  digits : Nat
  exponent : Int
deriving Repr

/-- The number of digits of a natural. -/
def digitCount (n : Nat) : Nat := (Nat.toDigits 10 n).length

namespace Digits

/-- The digits as characters. -/
def chars (d : Digits) : List Char := Nat.toDigits 10 d.digits

/-- The power of ten of the first digit. -/
def order (d : Digits) : Int := digitCount d.digits - 1 + d.exponent

/-- The same decimal without the last `n` of its digits, as far as they are zero. -/
def trim : Nat → Digits → Digits
  | 0, d => d
  | n + 1, d => if d.digits % 10 = 0 then trim n ⟨d.digits / 10, d.exponent + 1⟩ else d

end Digits

namespace Binary

/-- What numerators over `scaleDown` are multiplied by on the grid of `10^k`. -/
def scaleUp (b : Binary) (k : Int) : Nat := Nat.pow 2 b.exponent.toNat * Nat.pow 10 (-k).toNat

/-- The denominator on the grid of `10^k`. -/
def scaleDown (b : Binary) (k : Int) : Nat := Nat.pow 2 (-b.exponent).toNat * Nat.pow 10 k.toNat

/-- Whether `d · 10^k` rounds to the double. The ends of the interval do so iff the mantissa is
even. -/
def accepts (b : Binary) (k : Int) (d : Nat) : Bool :=
  let low := (4 * b.mantissa - (if b.narrow then 1 else 2)) * b.scaleUp k
  let high := (4 * b.mantissa + 2) * b.scaleUp k
  let point := 4 * d * b.scaleDown k
  if b.mantissa % 2 = 0 then low ≤ point && point ≤ high else low < point && point < high

/-- The point of the grid of `10^k` nearest to the double among those that round to it. -/
def onGrid? (b : Binary) (k : Int) : Option Nat :=
  let n := b.mantissa * b.scaleUp k
  let below := n / b.scaleDown k
  let nearer := if 2 * (n % b.scaleDown k) < b.scaleDown k then below else below + 1
  let farther := 2 * below + 1 - nearer
  if b.accepts k nearer then some nearer
  else if b.accepts k farther then some farther
  else none

/-- The power of ten at or just below the double. -/
def order (b : Binary) : Int :=
  let n := b.mantissa * b.scaleUp 0
  let d := b.scaleDown 0
  if d ≤ n then digitCount (n / d) - 1 else -(digitCount ((d - 1) / n) : Int)

/-- The first of the grids `10^k`, `10^(k-1)`, … with a point that rounds to the double. -/
def search (b : Binary) : Nat → Int → Digits
  | 0, k => ⟨b.mantissa * b.scaleUp k / b.scaleDown k, k⟩
  | n + 1, k =>
    match b.onGrid? k with
    | some d => ⟨d, k⟩
    | none => b.search n (k - 1)

/-- The fewest digits that read back; seventeen always do. -/
def shortest (b : Binary) : Digits :=
  if b.mantissa = 0 then ⟨0, 0⟩ else (b.search 17 b.order).trim 18

end Binary

end Primer.Decimal
