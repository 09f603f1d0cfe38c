import Primer.Decimal.Shortest

/-!
# Doubles in writing

Two layouts share the digits. `display` is how a running program shows a double, `literal` how the
text of an expression spells one. Both write sizes from `10^-4` to below `10^16` with at least one
decimal; they part on the other sizes and on the word for an infinite double.
-/

namespace Primer.Decimal

namespace Digits

/-- The decimal with its point in place and at least `places` decimals. -/
def positional (d : Digits) (places : Nat) : String :=
  let decimals := (-d.exponent).toNat
  let all := d.chars ++ List.replicate d.exponent.toNat '0'
  let padded := List.replicate (decimals + 1 - all.length) '0' ++ all
  let whole := padded.take (padded.length - decimals)
  let fraction := padded.drop (padded.length - decimals)
  let filled := fraction ++ List.replicate (places - fraction.length) '0'
  String.ofList (if filled.isEmpty then whole else whole ++ '.' :: filled)

/-- The decimal with one digit before the point and a power of ten. -/
def scientific (d : Digits) : String :=
  let point := match d.chars with
    | [] => []
    | [c] => [c]
    | c :: rest => c :: '.' :: rest
  String.ofList point ++ "e" ++ toString d.order

end Digits

/-- How a double is written. -/
structure Layout where
  /-- The word for an infinite double. -/
  infinite : String
  /-- Whether sizes below `10^-4` and from `10^16` on get a power of ten. -/
  powers : Bool

namespace Layout

/-- How a running program shows a double. -/
def display : Layout := ⟨"Infinity", false⟩

/-- How the text of an expression spells a double. -/
def literal : Layout := ⟨"inf", true⟩

/-- The digits of a size in a layout. -/
def digits (l : Layout) (d : Digits) : String :=
  if -4 ≤ d.order && d.order < 16 then d.positional 1
  else if l.powers then d.scientific
  else d.positional 0

/-- A double in a layout. -/
def write (l : Layout) (x : Float) : String :=
  if x.isNaN then "NaN"
  else
    (if isNegative x then "-" else "") ++
      (if x.isInf then l.infinite else l.digits (Binary.ofFloat x).shortest)

end Layout

end Primer.Decimal
