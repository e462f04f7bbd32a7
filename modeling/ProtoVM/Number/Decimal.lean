import ProtoVM.Number.Binary64

/-!
# Decimal text of numbers

A finite number is written with the fewest digits that read back as the same number; among those
the nearest to it wins, and of two equally near ones the larger. The text is always positional,
never with an exponent, and a whole number has no fractional part.

The search runs over the grids of multiples of `10 ^ p`, from coarse to fine. The first grid with
a point among the numbers that round to `x` gives the fewest digits, and it is enough to look at
the two neighbours of `x` on each grid.
-/

namespace ProtoVM

/-- The number `digits * 10 ^ exponent`. -/
structure Decimal where
  digits : Nat
  exponent : Int
deriving DecidableEq

namespace Decimal

/-- Positional text: zeros are filled in on the side that lacks digits. -/
def text (d : Decimal) : String :=
  let shown := Nat.toDigits 10 d.digits
  match d.exponent with
  | .ofNat zeros => String.ofList (shown ++ List.replicate zeros '0')
  | .negSucc n =>
    let places := n + 1
    if places < shown.length then
      String.ofList
        (shown.take (shown.length - places) ++ '.' :: shown.drop (shown.length - places))
    else
      String.ofList ('0' :: '.' :: List.replicate (places - shown.length) '0' ++ shown)

end Decimal

namespace Binary64

/-- The interval of reals that round to a positive finite number, in quarters of a unit. -/
structure Rounding where
  lower : Nat
  middle : Nat
  upper : Nat
  /-- The two ends round to the number as well. -/
  closed : Bool

namespace Rounding

/-- The interval around `x`. Its ends lie halfway to the neighbours of `x`, and the lower
neighbour of a power of two is half as far away as the upper one. -/
def around (x : Binary64) : Rounding :=
  let unit := 1 <<< x.scale
  let below := if x.fraction = 0 ∧ 1 < x.exponentField then 1 else 2
  { lower := (4 * x.significand - below) * unit
    middle := 4 * x.significand * unit
    upper := (4 * x.significand + 2) * unit
    closed := x.significand % 2 = 0 }

/-- The same interval with every length multiplied. -/
def scaled (r : Rounding) (factor : Nat) : Rounding :=
  { r with lower := r.lower * factor, middle := r.middle * factor, upper := r.upper * factor }

/-- The point rounds to the number. -/
def holds (r : Rounding) (point : Nat) : Bool :=
  if r.closed then decide (r.lower ≤ point ∧ point ≤ r.upper)
  else decide (r.lower < point ∧ point < r.upper)

/-- The multiple of `step` in the interval nearest to its middle, the larger one on a tie. -/
def multipleOf? (r : Rounding) (step : Nat) : Option Nat :=
  let below := r.middle / step
  let above := below + 1
  match r.holds (below * step), r.holds (above * step) with
  | true, true => some (if r.middle - below * step < above * step - r.middle then below else above)
  | true, false => some below
  | false, true => some above
  | false, false => none

/-- The multiple of `10 ^ exponent` in the interval nearest to its middle. -/
def onGrid? (r : Rounding) (exponent : Int) : Option Nat :=
  (r.scaled (Nat.pow 10 (-exponent).toNat)).multipleOf?
    (4 * unitsPerOne * Nat.pow 10 exponent.toNat)

/-- The first grid with a point in the interval, from `10 ^ exponent` down over `count` grids. -/
def coarsest (r : Rounding) : (count : Nat) → (exponent : Int) → Decimal
  | 0, exponent => ⟨0, exponent⟩
  | count + 1, exponent =>
    match r.onGrid? exponent with
    | some digits => ⟨digits, exponent⟩
    | none => r.coarsest count (exponent - 1)

end Rounding

/-- The decimal with the fewest digits that rounds to a positive finite number.

The number lies below `10 ^ (power + 2)`, and seventeen digits always suffice, so twenty grids
from there are enough. -/
def shortest (x : Binary64) : Decimal :=
  let r := Rounding.around x
  let power := ((Nat.log2 r.middle : Int) - 1076) * 30103 / 100000
  r.coarsest 20 (power + 2)

/-- The text of a number. -/
def text (x : Binary64) : String :=
  if x.isNaN then "NaN"
  else
    let sign := if x.negative then "-" else ""
    if x.isInfinite then sign ++ "inf"
    else if x.magnitude = 0 then sign ++ "0"
    else sign ++ x.shortest.text

end Binary64

end ProtoVM
