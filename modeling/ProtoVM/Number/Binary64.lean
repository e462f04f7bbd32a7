/-!
# Binary64 numbers

The 64-bit binary interchange format, kept as its bits. A finite number is an integer count of
`2 ^ -1074`, the smallest positive number of the format (`units`), so sums and products are
exact integers before the single rounding step `ofRatio`. Comparison goes through `key`, which
orders the bit patterns as the numbers they stand for.
-/

namespace ProtoVM

/-- A number of the 64-bit binary format: one sign bit, eleven exponent bits, fifty-two
fraction bits, most significant first. -/
structure Binary64 where
  bits : UInt64
deriving DecidableEq

namespace Binary64

/-- The sign bit is set. -/
def negative (x : Binary64) : Bool := decide (1 <<< 63 ≤ x.bits.toNat)

/-- The bits below the sign. -/
def magnitude (x : Binary64) : Nat := x.bits.toNat % (1 <<< 63)

/-- The magnitude whose exponent bits are all ones and whose fraction is zero. -/
def infinityMagnitude : Nat := 2047 <<< 52

/-- Builds a number from its sign and the bits below it. -/
def ofMagnitude (negative : Bool) (magnitude : Nat) : Binary64 :=
  ⟨UInt64.ofNat (if negative then (1 <<< 63) + magnitude else magnitude)⟩

/-- Exponent bits all ones with a nonzero fraction. -/
def isNaN (x : Binary64) : Bool := decide (infinityMagnitude < x.magnitude)

/-- One of the two infinities. -/
def isInfinite (x : Binary64) : Bool := decide (x.magnitude = infinityMagnitude)

/-- Neither infinite nor a NaN. -/
def isFinite (x : Binary64) : Bool := decide (x.magnitude < infinityMagnitude)

/-- The quiet NaN every invalid operation answers with. -/
def nan : Binary64 := ⟨0x7ff8000000000000⟩

/-- The infinity of a given sign. -/
def infinity (negative : Bool) : Binary64 := ofMagnitude negative infinityMagnitude

/-- The zero of a given sign. -/
def zero (negative : Bool) : Binary64 := ofMagnitude negative 0

/-- The eleven exponent bits. -/
def exponentField (x : Binary64) : Nat := x.magnitude >>> 52

/-- The fifty-two fraction bits. -/
def fraction (x : Binary64) : Nat := x.magnitude % (1 <<< 52)

/-- The significand of a finite number, with the leading bit that normal numbers leave out. -/
def significand (x : Binary64) : Nat :=
  if x.exponentField = 0 then x.fraction else (1 <<< 52) + x.fraction

/-- The power of two, in units of `2 ^ -1074`, that the significand of a finite number counts. -/
def scale (x : Binary64) : Nat := x.exponentField - 1

/-- The absolute value of a finite number in units of `2 ^ -1074`. -/
def absUnits (x : Binary64) : Nat := x.significand <<< x.scale

/-- The exact value of a finite number in units of `2 ^ -1074`. -/
def units (x : Binary64) : Int := if x.negative then -(x.absUnits : Int) else x.absUnits

/-- The units of `2 ^ -1074` that make up one. -/
def unitsPerOne : Nat := 1 <<< 1074

/-! ## Order -/

/-- Orders the numbers other than NaN as integers; the two zeros share one key. -/
def key (x : Binary64) : Int := if x.negative then -(x.magnitude : Int) else x.magnitude

/-- Equality of numbers: a NaN equals nothing, the two zeros are equal. -/
def equals (x y : Binary64) : Bool := !x.isNaN && !y.isNaN && decide (x.key = y.key)

/-- Strict order of numbers: a NaN is unordered. -/
def less (x y : Binary64) : Bool := !x.isNaN && !y.isNaN && decide (x.key < y.key)

/-- The order of numbers with equality: a NaN is unordered. -/
def atMost (x y : Binary64) : Bool := x.less y || x.equals y

/-! ## Rounding -/

/-- The integer nearest to `num / 2 ^ places`, a tie going to the even one. -/
def roundEven (num places : Nat) : Nat :=
  let quotient := num >>> places
  let one := 1 <<< places
  let remainder := num % one
  if 2 * remainder > one ∨ (2 * remainder = one ∧ quotient % 2 = 1) then quotient + 1
  else quotient

/-- The number of a given sign nearest to `num / 2 ^ places` units, a tie going to the even
significand and a magnitude past the largest finite one to infinity.

A number of `s` scale and significand `m` has the magnitude `s * 2 ^ 52 + m`, also when rounding
carries `m` up to `2 ^ 53` and when the number is subnormal (`s = 0`, `m < 2 ^ 52`). -/
def ofRatio (negative : Bool) (num places : Nat) : Binary64 :=
  let scale := Nat.log2 (num >>> places) - 52
  let significand := roundEven num (places + scale)
  ofMagnitude negative (min ((scale <<< 52) + significand) infinityMagnitude)

/-- The number nearest to an integer. -/
def ofInt (i : Int) : Binary64 := ofRatio (decide (i < 0)) (i.natAbs * unitsPerOne) 0

/-! ## Arithmetic -/

/-- Flips the sign. -/
def neg (x : Binary64) : Binary64 := ofMagnitude (!x.negative) x.magnitude

/-- The sum rounded once. An exact sum of zero is positive unless both operands are negative;
infinities of opposite signs have no sum. -/
def add (x y : Binary64) : Binary64 :=
  if x.isNaN || y.isNaN then nan
  else if x.isInfinite then
    if y.isInfinite && x.negative != y.negative then nan else x
  else if y.isInfinite then y
  else
    let sum := x.units + y.units
    let sign := if sum = 0 then x.negative && y.negative else decide (sum < 0)
    ofRatio sign sum.natAbs 0

/-- The difference rounded once. -/
def sub (x y : Binary64) : Binary64 := x.add y.neg

/-- The product rounded once; zero times infinity has no value. -/
def mul (x y : Binary64) : Binary64 :=
  let sign := x.negative != y.negative
  if x.isNaN || y.isNaN then nan
  else if x.isInfinite || y.isInfinite then
    if x.magnitude = 0 ∨ y.magnitude = 0 then nan else infinity sign
  else ofRatio sign (x.absUnits * y.absUnits) 1074

/-! ## Integers -/

/-- The number without the digits behind its point. They are the fraction bits that count less
than one: a number below one has only those, and one of `2 ^ 52` or more has none. -/
def trunc (x : Binary64) : Binary64 :=
  let behind := 1075 - x.exponentField
  if x.exponentField < 1023 then zero x.negative
  else ofMagnitude x.negative ((x.magnitude >>> behind) <<< behind)

/-- The digits behind the point; an infinity has none that could be told. -/
def fract (x : Binary64) : Binary64 := x.sub x.trunc

/-- The integer that is left without the digits behind the point. A number out of range gives the
nearest integer of 64 bits, and a NaN zero. -/
def toInt64 (x : Binary64) : Int64 :=
  if x.isNaN then 0
  else if x.isFinite then
    Int64.ofInt (max Int64.minValue.toInt (min Int64.maxValue.toInt (x.units.tdiv unitsPerOne)))
  else if x.negative then Int64.minValue
  else Int64.maxValue

/-- The first number past the integers of 64 bits, `2 ^ 63`. -/
def int64Limit : Binary64 := ⟨0x43e0000000000000⟩

/-- Equality with an integer (`int_equals_float`). Only a number that is whole and in range is read
as an integer, so that nothing is lost on either side. -/
def equalsInt (x : Binary64) (i : Int64) : Bool :=
  x.fract.equals (zero false) && (int64Limit.neg.atMost x && x.less int64Limit) && x.toInt64 == i

end Binary64

end ProtoVM
