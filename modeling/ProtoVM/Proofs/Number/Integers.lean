import Mathlib
import ProtoVM.Proofs.Number.NumberLine

/-!
# Numbers and integers

An integer of 64 bits that becomes a number of the binary format is rounded to one of its
neighbours, and no number of the format lies strictly between the two. Equality with an integer
looks at the digits behind the point and at the range first, and so rounds nothing.
-/

namespace ProtoVM

namespace Magnitude

theorem two_pow_mul {a b c : Nat} (sum : a + b = c) : 2 ^ a * 2 ^ b = 2 ^ c := by
  rw [← pow_add, sum]

/-- The number that is left without the digits behind its point. -/
def whole (m : Nat) : Nat :=
  if m / 2 ^ 52 < 1023 then 0 else m / 2 ^ (1075 - m / 2 ^ 52) * 2 ^ (1075 - m / 2 ^ 52)

theorem whole_le (m : Nat) : whole m ≤ m := by
  rw [whole]
  split
  · exact Nat.zero_le m
  · exact Nat.div_mul_le_self m _

/-- The last digits of a significand stand at the end of the bits, clear of the scale. -/
theorem Normal.units_cut {s g k : Nat} (normal : Normal s g) (high : 2 ^ 52 ≤ g) (few : k ≤ 52) :
    Magnitude.units ((s * 2 ^ 52 + g) / 2 ^ k * 2 ^ k) = g / 2 ^ k * 2 ^ k * 2 ^ s := by
  have size : 0 < 2 ^ k := pow_pos two_pos k
  have aligned : s * 2 ^ 52 = s * 2 ^ (52 - k) * 2 ^ k := by
    rw [Nat.mul_assoc, two_pow_mul (Nat.sub_add_cancel few)]
  have cut : (s * 2 ^ 52 + g) / 2 ^ k * 2 ^ k = s * 2 ^ 52 + g / 2 ^ k * 2 ^ k := by
    rw [aligned, Nat.add_comm, Nat.add_mul_div_right _ _ size, Nat.add_mul, Nat.add_comm]
  have kept : 2 ^ 52 ≤ g / 2 ^ k * 2 ^ k := by
    have lowest : 2 ^ (52 - k) * 2 ^ k = 2 ^ 52 := two_pow_mul (Nat.sub_add_cancel few)
    rw [← lowest] at high ⊢
    exact Nat.mul_le_mul_right _ ((Nat.le_div_iff_mul_le size).mpr high)
  have less : g / 2 ^ k * 2 ^ k ≤ g := Nat.div_mul_le_self g _
  rw [cut, units_of_le (Nat.le_trans less (Nat.le_of_lt normal.1)) (.inr kept)]

/-- What is left is the largest multiple of one that is not larger. -/
theorem units_whole (m : Nat) :
    units (whole m) = units m / Binary64.unitsPerOne * Binary64.unitsPerOne := by
  rw [whole, Binary64.unitsPerOne_eq]
  by_cases small : m / 2 ^ 52 < 1023
  · have one : units (1022 * 2 ^ 52 + 2 ^ 52) = 2 ^ 52 * 2 ^ 1022 :=
      units_of_le (by decide) (.inr (Nat.le_refl _))
    have below : units m < units (1022 * 2 ^ 52 + 2 ^ 52) := units_strictMono (by omega)
    rw [one, two_pow_mul (show 52 + 1022 = 1074 from rfl)] at below
    rw [if_pos small, Nat.div_eq_of_lt below, Nat.zero_mul, units_zero]
  · rw [if_neg small]
    obtain ⟨s, g, normal, split⟩ : ∃ s g, Normal s g ∧ m = s * 2 ^ 52 + g := exists_normal m
    have fits := normal.1
    have high : 2 ^ 52 ≤ g := by
      rcases normal.2 with rfl | high
      · omega
      · exact high
    have field : m / 2 ^ 52 = s + 1 := by omega
    have behind : 1075 - (s + 1) = 1074 - s := by omega
    rw [field, behind, split, normal.units]
    generalize digits : 1074 - s = k
    rw [normal.units_cut high (by omega)]
    rcases Nat.le_total s 1074 with inside | past
    · have one : 2 ^ k * 2 ^ s = 2 ^ 1074 := two_pow_mul (by omega)
      rw [← one, Nat.mul_div_mul_right _ _ (pow_pos two_pos s), Nat.mul_assoc]
    · obtain rfl : k = 0 := by omega
      have many : g * 2 ^ s = g * 2 ^ (s - 1074) * 2 ^ 1074 := by
        rw [Nat.mul_assoc, two_pow_mul (Nat.sub_add_cancel past)]
      rw [pow_zero, Nat.div_one, Nat.mul_one, many, Nat.mul_div_cancel _ (pow_pos two_pos 1074)]

/-- An integer of at most 53 bits needs no rounding. -/
theorem exists_units_eq {n : Nat} (small : n ≤ 2 ^ 53) :
    ∃ m, units m = n * Binary64.unitsPerOne := by
  by_cases zero : n = 0
  · exact ⟨0, by rw [zero, Nat.zero_mul, units_zero]⟩
  -- the significand is filled up with zeros
  have filled : 2 ^ 52 ≤ n * 2 ^ (52 - Nat.log2 n) ∧ n * 2 ^ (52 - Nat.log2 n) ≤ 2 ^ 53 := by
    rcases Nat.lt_or_ge 52 (Nat.log2 n) with full | short
    · have high : 2 ^ (Nat.log2 n) ≤ n := Nat.log2_self_le zero
      have : 2 ^ 52 ≤ 2 ^ (Nat.log2 n) := Nat.pow_le_pow_right (by decide) (Nat.le_of_lt full)
      rw [Nat.sub_eq_zero_of_le (Nat.le_of_lt full), pow_zero, Nat.mul_one]
      exact ⟨Nat.le_trans this high, small⟩
    · have low : 2 ^ Nat.log2 n * 2 ^ (52 - Nat.log2 n) = 2 ^ 52 := two_pow_mul (by omega)
      have high : 2 ^ (Nat.log2 n + 1) * 2 ^ (52 - Nat.log2 n) = 2 ^ 53 := two_pow_mul (by omega)
      rw [← low, ← high]
      exact ⟨Nat.mul_le_mul_right _ (Nat.log2_self_le zero),
        Nat.mul_le_mul_right _ (Nat.le_of_lt Nat.lt_log2_self)⟩
  refine ⟨(1074 - (52 - Nat.log2 n)) * 2 ^ 52 + n * 2 ^ (52 - Nat.log2 n), ?_⟩
  rw [units_of_le filled.2 (.inr filled.1), Nat.mul_assoc, Binary64.unitsPerOne_eq]
  exact congrArg (n * ·) (two_pow_mul (by omega))

end Magnitude

namespace Binary64

variable {x y : Binary64} {i : Int64}

theorem natCast_unitsPerOne_pos : (0 : Int) < unitsPerOne := by
  rw [unitsPerOne_eq]
  positivity

/-! ## Results that are rounded -/

theorem magnitude_ofRatio (negative : Bool) (n : Nat) :
    (ofRatio negative n 0).magnitude = min (Magnitude.nearest n) infinityMagnitude := by
  have rounded : ofRatio negative n 0 =
      ofMagnitude negative (min (Magnitude.nearest n) infinityMagnitude) := by
    simp only [ofRatio, Magnitude.nearest, Nat.shiftRight_zero, Nat.zero_add, Nat.shiftLeft_eq]
  rw [rounded, magnitude_ofMagnitude]
  exact Nat.lt_of_le_of_lt (Nat.min_le_right _ _) (by decide)

theorem isNaN_ofRatio (negative : Bool) (n : Nat) : (ofRatio negative n 0).isNaN = false := by
  rw [isNaN, magnitude_ofRatio]
  exact decide_eq_false (Nat.not_lt.mpr (Nat.min_le_right _ _))

/-- Nothing but zero is rounded to zero. -/
theorem equals_zero_ofRatio_iff {negative : Bool} {n : Nat} :
    (ofRatio negative n 0).equals (zero false) ↔ n = 0 := by
  have known : (zero false).isNaN = false := by decide
  have place : (zero false).key = 0 := by decide
  have size := natAbs_key (ofRatio negative n 0)
  have wide : 0 < infinityMagnitude := by decide
  rw [magnitude_ofRatio] at size
  rw [equals, isNaN_ofRatio, known, place]
  simp only [Bool.not_false, Bool.true_and, decide_eq_true_eq]
  rw [← Magnitude.nearest_eq_zero_iff]
  omega

/-! ## From integers -/

theorem units_magnitude_int64Limit :
    Magnitude.units (1085 * 2 ^ 52 + 2 ^ 52) = 2 ^ 63 * unitsPerOne := by
  rw [Magnitude.units_of_le (by decide) (.inr (Nat.le_refl _)), unitsPerOne_eq,
    Magnitude.two_pow_mul (show 52 + 1085 = 1137 from rfl),
    Magnitude.two_pow_mul (show 63 + 1074 = 1137 from rfl)]

theorem units_int64Limit : int64Limit.units = ((2 ^ 63 * unitsPerOne : Nat) : Int) := by
  have place : int64Limit.key = ((1085 * 2 ^ 52 + 2 ^ 52 : Nat) : Int) := by decide
  rw [units_eq, place, Magnitude.signed, if_neg (Int.not_lt.mpr (Int.natCast_nonneg _)),
    Int.natAbs_natCast, units_magnitude_int64Limit]

theorem natAbs_toInt_le (i : Int64) : i.toInt.natAbs ≤ 2 ^ 63 := by
  have low := i.le_toInt
  have high := i.toInt_lt
  omega

theorem nearest_of_int64 (i : Int64) :
    Magnitude.nearest (i.toInt.natAbs * unitsPerOne) < infinityMagnitude := by
  have le := Magnitude.nearest_mono (Nat.mul_le_mul_right unitsPerOne (natAbs_toInt_le i))
  rw [← units_magnitude_int64Limit, Magnitude.nearest_units] at le
  rw [infinityMagnitude_eq]
  omega

theorem magnitude_ofInt (i : Int64) :
    (ofInt i.toInt).magnitude = Magnitude.nearest (i.toInt.natAbs * unitsPerOne) := by
  rw [ofInt, magnitude_ofRatio]
  exact Nat.min_eq_left (Nat.le_of_lt (nearest_of_int64 i))

theorem isFinite_ofInt (i : Int64) : (ofInt i.toInt).isFinite := by
  rw [isFinite_iff, magnitude_ofInt]
  exact nearest_of_int64 i

theorem key_ofInt (i : Int64) :
    (ofInt i.toInt).key = Magnitude.signed Magnitude.nearest (i.toInt * unitsPerOne) := by
  have positive := natCast_unitsPerOne_pos
  have size : (i.toInt * unitsPerOne).natAbs = i.toInt.natAbs * unitsPerOne := by
    rw [Int.natAbs_mul, Int.natAbs_natCast]
  have sign : i.toInt * unitsPerOne < 0 ↔ i.toInt < 0 := by
    rw [mul_neg_iff]
    omega
  have negative : (ofInt i.toInt).negative = decide (i.toInt < 0) := by
    rw [ofInt, ofRatio, negative_ofMagnitude]
    exact Nat.lt_of_le_of_lt (Nat.min_le_right _ _) (by decide)
  rw [key, negative, magnitude_ofInt, Magnitude.signed, size]
  by_cases below : i.toInt < 0
  · simp [below, sign]
  · simp [below, sign]

/-- Rounding an integer to a number moves it past no other number. -/
theorem ofInt_le_of_le (le : i.toInt * unitsPerOne ≤ y.units) : (ofInt i.toInt).key ≤ y.key := by
  rw [key_ofInt, ← nearest_units]
  exact Magnitude.signed_mono (fun _ _ => Magnitude.nearest_mono) le

theorem le_ofInt_of_le (le : y.units ≤ i.toInt * unitsPerOne) : y.key ≤ (ofInt i.toInt).key := by
  rw [key_ofInt, ← nearest_units]
  exact Magnitude.signed_mono (fun _ _ => Magnitude.nearest_mono) le

/-- An integer of few digits is not changed by rounding. -/
theorem units_ofInt_of_natAbs_le (small : i.toInt.natAbs ≤ 2 ^ 53) :
    (ofInt i.toInt).units = i.toInt * unitsPerOne := by
  obtain ⟨m, size⟩ := Magnitude.exists_units_eq small
  have value : i.toInt * unitsPerOne = Magnitude.signed Magnitude.units
      (if decide (i.toInt < 0) then -(m : Int) else m) := by
    rw [Magnitude.signed_of_neg_or _ _ Magnitude.units_zero, size]
    by_cases negative : i.toInt < 0
    · rw [decide_eq_true negative, if_pos rfl, Int.natCast_mul, ← Int.neg_mul]
      congr 1
      omega
    · rw [decide_eq_false negative, if_neg Bool.false_ne_true, Int.natCast_mul]
      congr 1
      omega
  rw [units_eq, key_ofInt, value,
    Magnitude.signed_signed Magnitude.nearest_units Magnitude.units_zero]

/-! ## The digits behind the point -/

theorem trunc_eq (x : Binary64) :
    x.trunc = ofMagnitude x.negative (Magnitude.whole x.magnitude) := by
  simp only [trunc, exponentField, Magnitude.whole, zero, Nat.shiftRight_eq_div_pow,
    Nat.shiftLeft_eq]
  split <;> rfl

theorem magnitude_trunc (x : Binary64) : x.trunc.magnitude = Magnitude.whole x.magnitude := by
  rw [trunc_eq, magnitude_ofMagnitude]
  exact Nat.lt_of_le_of_lt (Magnitude.whole_le _) x.magnitude_lt

theorem negative_trunc (x : Binary64) : x.trunc.negative = x.negative := by
  rw [trunc_eq, negative_ofMagnitude]
  exact Nat.lt_of_le_of_lt (Magnitude.whole_le _) x.magnitude_lt

theorem units_trunc (x : Binary64) : x.trunc.units = x.units.tdiv unitsPerOne * unitsPerOne := by
  rw [units, units, negative_trunc, absUnits_eq, absUnits_eq, magnitude_trunc,
    Magnitude.units_whole]
  generalize unitsPerOne = one
  cases x.negative <;> simp [Int.neg_tdiv]

theorem magnitude_neg (x : Binary64) : x.neg.magnitude = x.magnitude :=
  magnitude_ofMagnitude x.magnitude_lt

theorem negative_neg (x : Binary64) : x.neg.negative = !x.negative :=
  negative_ofMagnitude x.magnitude_lt

theorem units_neg (x : Binary64) : x.neg.units = -x.units := by
  rw [units, units, negative_neg, absUnits_eq, absUnits_eq, magnitude_neg]
  cases x.negative <;> simp

theorem isFinite_neg_trunc (finite : x.isFinite) : x.trunc.neg.isFinite := by
  rw [isFinite_iff] at finite ⊢
  rw [magnitude_neg, magnitude_trunc]
  exact Nat.lt_of_le_of_lt (Magnitude.whole_le _) finite

/-- A finite number has no digits behind its point exactly if it is a number of ones. -/
theorem fract_equals_zero_iff (finite : x.isFinite) :
    x.fract.equals (zero false) ↔ x.units = x.units.tdiv unitsPerOne * unitsPerOne := by
  have cut := isFinite_neg_trunc finite
  simp only [fract, sub, add, isNaN_of_isFinite finite, isNaN_of_isFinite cut,
    isInfinite_of_isFinite finite, isInfinite_of_isFinite cut, Bool.or_self, Bool.false_eq_true,
    if_false, equals_zero_ofRatio_iff, Int.natAbs_eq_zero, units_neg, units_trunc]
  omega

theorem isNaN_fract_of_not_isFinite (endless : x.isFinite = false) : x.fract.isNaN := by
  have quiet : nan.isNaN := by decide
  by_cases known : x.isNaN
  · simp [fract, sub, add, known, quiet]
  -- an infinity has no digits to leave out, and less itself it is nothing
  have magnitude : x.magnitude = infinityMagnitude := by
    have low := of_decide_eq_false endless
    have high : ¬ infinityMagnitude < x.magnitude := of_decide_eq_false (Bool.not_eq_true _ ▸ known)
    omega
  have whole : Magnitude.whole infinityMagnitude = infinityMagnitude := by decide
  have infinite : x.isInfinite := decide_eq_true magnitude
  have opposite : x.trunc.neg.isInfinite := by
    rw [isInfinite, magnitude_neg, magnitude_trunc, magnitude, whole]
    decide
  have sign : x.trunc.neg.negative = !x.negative := by rw [negative_neg, negative_trunc]
  simp [fract, sub, add, infinite, opposite, sign, quiet]

/-! ## Equality with integers -/

theorem equals_of_isNaN (known : x.isNaN) : x.equals y = false := by
  simp [equals, known]

theorem atMost_iff (known : x.isNaN = false) (alsoKnown : y.isNaN = false) :
    x.atMost y ↔ x.key ≤ y.key := by
  simp only [atMost, less, equals, known, alsoKnown, Bool.not_false, Bool.true_and,
    Bool.or_eq_true, decide_eq_true_eq]
  omega

/-- The numbers in the range of the integers of 64 bits are read as what they have in front of the
point. -/
theorem toInt64_of_finite (finite : x.isFinite) (low : -2 ^ 63 ≤ x.units.tdiv unitsPerOne)
    (high : x.units.tdiv unitsPerOne < 2 ^ 63) :
    x.toInt64.toInt = x.units.tdiv unitsPerOne := by
  have least : Int64.minValue.toInt = -2 ^ 63 := by decide
  have most : Int64.maxValue.toInt = 2 ^ 63 - 1 := by decide
  rw [toInt64, isNaN_of_isFinite finite, if_neg Bool.false_ne_true, if_pos finite, least, most,
    Int.min_eq_right (by omega), Int.max_eq_right low, Int64.toInt_ofInt_of_le low high]

theorem less_int64Limit_iff (finite : x.isFinite) :
    x.less int64Limit ↔ x.units < 2 ^ 63 * unitsPerOne := by
  have limit : int64Limit.isNaN = false := by decide
  simp [less, isNaN_of_isFinite finite, limit, ← units_lt_units_iff, units_int64Limit]

theorem neg_int64Limit_atMost_iff (finite : x.isFinite) :
    int64Limit.neg.atMost x ↔ -(2 ^ 63 * unitsPerOne) ≤ x.units := by
  have limit : int64Limit.neg.isNaN = false := by decide
  rw [atMost_iff limit (isNaN_of_isFinite finite), ← not_lt, ← units_lt_units_iff, units_neg,
    units_int64Limit, not_lt]
  push_cast
  rfl

theorem mul_unitsPerOne_in_range_iff {n : Int} :
    -(2 ^ 63 * unitsPerOne) ≤ n * unitsPerOne ∧ n * unitsPerOne < 2 ^ 63 * unitsPerOne ↔
      -2 ^ 63 ≤ n ∧ n < 2 ^ 63 := by
  rw [← Int.neg_mul, mul_le_mul_iff_of_pos_right natCast_unitsPerOne_pos,
    mul_lt_mul_iff_of_pos_right natCast_unitsPerOne_pos]

/-- A number is equal to an integer exactly if its value is that integer. -/
theorem equalsInt_iff : x.equalsInt i ↔ x.isFinite ∧ x.toRat = i.toInt := by
  cases finite : x.isFinite with
  | false =>
    have nothing : x.fract.equals (zero false) = false :=
      equals_of_isNaN (isNaN_fract_of_not_isFinite finite)
    simp [equalsInt, nothing]
  | true =>
    rw [toRat_eq_intCast_iff, equalsInt, Bool.and_eq_true, Bool.and_eq_true, Bool.and_eq_true,
      fract_equals_zero_iff finite, less_int64Limit_iff finite, neg_int64Limit_atMost_iff finite,
      beq_iff_eq, ← Int64.toInt_inj]
    constructor
    · rintro ⟨⟨whole, inside⟩, same⟩
      rw [whole, mul_unitsPerOne_in_range_iff] at inside
      rw [toInt64_of_finite finite inside.1 inside.2] at same
      exact ⟨rfl, same ▸ whole⟩
    · rintro ⟨-, value⟩
      have front : x.units.tdiv unitsPerOne = i.toInt := by
        rw [value, Int.mul_tdiv_cancel _ natCast_unitsPerOne_pos.ne']
      have read := toInt64_of_finite finite (front ▸ i.le_toInt) (front ▸ i.toInt_lt)
      rw [front] at read ⊢
      refine ⟨⟨value, ?_⟩, read⟩
      rw [value, mul_unitsPerOne_in_range_iff]
      exact ⟨i.le_toInt, i.toInt_lt⟩

end Binary64

end ProtoVM
