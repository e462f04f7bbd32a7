import Mathlib
import ProtoVM.Proofs.Number.Magnitudes

/-!
# The number line

Every number of the binary format but a NaN has its place among the rationals, or at one of the two
ends of their line. Comparing numbers by their keys is comparing these places.
-/

namespace ProtoVM

/-- The rationals with an end on either side. -/
abbrev Extended := WithBot (WithTop ℚ)

namespace Extended

/-- A rational on the line. -/
def ofRat (q : ℚ) : Extended := ((q : WithTop ℚ) : Extended)

variable {p q : ℚ}

@[simp] theorem ofRat_lt_ofRat : ofRat p < ofRat q ↔ p < q := by
  rw [ofRat, ofRat, WithBot.coe_lt_coe, WithTop.coe_lt_coe]

@[simp] theorem ofRat_inj : ofRat p = ofRat q ↔ p = q := by
  rw [ofRat, ofRat, WithBot.coe_inj, WithTop.coe_inj]

@[simp] theorem bot_lt_ofRat : ⊥ < ofRat q := WithBot.bot_lt_coe _

@[simp] theorem ofRat_lt_top : ofRat q < ⊤ := WithBot.coe_lt_coe.mpr (WithTop.coe_lt_top q)

end Extended

namespace Binary64

variable {x y : Binary64}

/-! ## Fields -/

theorem infinityMagnitude_eq : infinityMagnitude = 2047 * 2 ^ 52 := rfl

theorem unitsPerOne_eq : unitsPerOne = 2 ^ 1074 := by
  have power (n : Nat) : 1 <<< n = 2 ^ n := Nat.one_shiftLeft n
  exact power 1074

theorem magnitude_eq (x : Binary64) : x.magnitude = x.bits.toNat % 2 ^ 63 := rfl

theorem negative_iff : x.negative ↔ 2 ^ 63 ≤ x.bits.toNat := decide_eq_true_iff

theorem magnitude_lt (x : Binary64) : x.magnitude < 2 ^ 63 := Nat.mod_lt _ (by decide)

theorem eq_of_magnitude_eq (signs : x.negative = y.negative)
    (magnitudes : x.magnitude = y.magnitude) : x = y := by
  have first := x.bits.toNat_lt
  have second := y.bits.toNat_lt
  rw [Bool.eq_iff_iff, negative_iff, negative_iff] at signs
  rw [magnitude_eq, magnitude_eq] at magnitudes
  have bits : x.bits = y.bits := UInt64.toNat_inj.mp (by omega)
  cases x
  cases y
  exact congrArg mk bits

section

variable {negative : Bool} {m : Nat} (fits : m < 2 ^ 63)
include fits

theorem toNat_bits_ofMagnitude :
    (ofMagnitude negative m).bits.toNat = if negative then 2 ^ 63 + m else m := by
  rw [ofMagnitude, UInt64.toNat_ofNat', Nat.one_shiftLeft]
  apply Nat.mod_eq_of_lt
  split <;> omega

theorem magnitude_ofMagnitude : (ofMagnitude negative m).magnitude = m := by
  rw [magnitude_eq, toNat_bits_ofMagnitude fits]
  split <;> omega

theorem negative_ofMagnitude : (ofMagnitude negative m).negative = negative := by
  rw [Bool.eq_iff_iff, negative_iff, toNat_bits_ofMagnitude fits]
  cases negative with
  | false => exact iff_of_false (Nat.not_le.mpr fits) Bool.false_ne_true
  | true => exact iff_of_true (Nat.le_add_right _ _) rfl

end

theorem ofMagnitude_magnitude (x : Binary64) : ofMagnitude x.negative x.magnitude = x :=
  eq_of_magnitude_eq (negative_ofMagnitude x.magnitude_lt) (magnitude_ofMagnitude x.magnitude_lt)

theorem isFinite_iff : x.isFinite ↔ x.magnitude < infinityMagnitude := decide_eq_true_iff

theorem isNaN_of_isFinite (finite : x.isFinite) : x.isNaN = false := by
  rw [isFinite_iff] at finite
  exact decide_eq_false (Nat.not_lt.mpr (Nat.le_of_lt finite))

theorem isInfinite_of_isFinite (finite : x.isFinite) : x.isInfinite = false := by
  rw [isFinite_iff] at finite
  exact decide_eq_false (Nat.ne_of_lt finite)

/-! ## Keys -/

theorem natAbs_key (x : Binary64) : x.key.natAbs = x.magnitude := by
  rw [key]
  split <;> simp

theorem absUnits_eq (x : Binary64) : x.absUnits = Magnitude.units x.magnitude := by
  simp only [absUnits, significand, scale, exponentField, fraction, Magnitude.units,
    Nat.shiftLeft_eq, Nat.shiftRight_eq_div_pow, Nat.one_mul]

/-- The value of a number is told by its key. -/
theorem units_eq (x : Binary64) : x.units = Magnitude.signed Magnitude.units x.key := by
  rw [units, key, Magnitude.signed_of_neg_or _ _ Magnitude.units_zero, absUnits_eq]

theorem nearest_units (x : Binary64) : Magnitude.signed Magnitude.nearest x.units = x.key := by
  rw [units_eq]
  exact Magnitude.signed_signed Magnitude.nearest_units Magnitude.units_zero x.key

theorem units_lt_units_iff : x.units < y.units ↔ x.key < y.key := by
  rw [units_eq, units_eq, (Magnitude.signed_strictMono Magnitude.units_strictMono).lt_iff_lt]

theorem units_eq_units_iff : x.units = y.units ↔ x.key = y.key := by
  rw [units_eq, units_eq,
    (Magnitude.signed_strictMono Magnitude.units_strictMono).injective.eq_iff]

/-! ## Exact values -/

/-- The exact value of a finite number. -/
def toRat (x : Binary64) : ℚ :=
  (if x.negative then -1 else 1) * x.significand * 2 ^ ((x.scale : ℤ) - 1074)

theorem unitsPerOne_pos : (0 : ℚ) < unitsPerOne := by
  rw [unitsPerOne_eq]
  positivity

theorem toRat_eq (x : Binary64) : x.toRat = x.units / unitsPerOne := by
  have power : (2 : ℚ) ^ ((x.scale : ℤ) - 1074) = 2 ^ x.scale / unitsPerOne := by
    rw [zpow_sub₀ two_ne_zero, zpow_natCast, unitsPerOne_eq]
    norm_cast
  rw [toRat, power, units, absUnits, Nat.shiftLeft_eq]
  split <;> push_cast <;> ring

theorem toRat_lt_toRat_iff : x.toRat < y.toRat ↔ x.key < y.key := by
  rw [toRat_eq, toRat_eq, div_lt_div_iff_of_pos_right unitsPerOne_pos, Int.cast_lt,
    units_lt_units_iff]

theorem toRat_eq_toRat_iff : x.toRat = y.toRat ↔ x.key = y.key := by
  rw [toRat_eq, toRat_eq, div_left_inj' unitsPerOne_pos.ne', Int.cast_inj, units_eq_units_iff]

/-- A finite number is an integer if it is that many ones. -/
theorem toRat_eq_intCast_iff {i : Int} : x.toRat = i ↔ x.units = i * unitsPerOne := by
  rw [toRat_eq, div_eq_iff unitsPerOne_pos.ne']
  norm_cast

/-! ## Places -/

/-- The place of a number on the line; a NaN has none. -/
def place? (x : Binary64) : Option Extended :=
  if x.isNaN then none
  else if x.isInfinite then some (if x.negative then ⊥ else ⊤)
  else some (.ofRat x.toRat)

theorem place?_eq_none_iff : x.place? = none ↔ x.isNaN := by
  rw [place?]
  by_cases nan : x.isNaN
  · simp [nan]
  · cases x.isInfinite <;> simp [nan]

theorem place?_of_isFinite (finite : x.isFinite) : x.place? = some (.ofRat x.toRat) := by
  rw [place?, isNaN_of_isFinite finite, isInfinite_of_isFinite finite]
  rfl

/-- What has a place is no NaN. -/
theorem isNaN_of_place? {a : Extended} (place : x.place? = some a) : x.isNaN = false := by
  rw [← Bool.not_eq_true, ← place?_eq_none_iff, place]
  exact nofun

/-- What the place of a number tells of its key. -/
inductive Placed (x : Binary64) : Extended → Prop
  | bottom : x.key = -infinityMagnitude → Placed x ⊥
  | between : x.isFinite → -infinityMagnitude < x.key → x.key < infinityMagnitude →
    Placed x (.ofRat x.toRat)
  | top : x.key = infinityMagnitude → Placed x ⊤

theorem placed_of_place? {a : Extended} (place : x.place? = some a) : x.Placed a := by
  rw [place?] at place
  by_cases nan : x.isNaN
  · rw [if_pos nan] at place
    cases place
  rw [if_neg nan] at place
  by_cases infinite : x.isInfinite
  · rw [if_pos infinite, Option.some.injEq] at place
    subst place
    have magnitude : x.magnitude = infinityMagnitude := of_decide_eq_true infinite
    cases negative : x.negative with
    | false => exact .top (by simp [key, negative, magnitude])
    | true => exact .bottom (by simp [key, negative, magnitude])
  · rw [if_neg infinite, Option.some.injEq] at place
    subst place
    have size := natAbs_key x
    simp only [isNaN, isInfinite, decide_eq_true_eq] at nan infinite
    refine .between (isFinite_iff.mpr ?_) ?_ ?_ <;> omega

section

variable {a b : Extended} (first : x.place? = some a) (second : y.place? = some b)
include first second

/-- The keys of two numbers are ordered as their places on the line. -/
theorem key_lt_key_iff : x.key < y.key ↔ a < b := by
  have wide : 0 < infinityMagnitude := by decide
  cases placed_of_place? first with
  | bottom k =>
    cases placed_of_place? second with
    | bottom l => simp [k, l]
    | between _ low high => simpa [k] using low
    | top l =>
      rw [k, l]
      exact iff_of_true (by omega) bot_lt_top
  | between _ low high =>
    cases placed_of_place? second with
    | bottom l =>
      rw [l]
      exact iff_of_false (by omega) not_lt_bot
    | between => rw [Extended.ofRat_lt_ofRat, toRat_lt_toRat_iff]
    | top l => simpa [l] using high
  | top k =>
    refine iff_of_false ?_ not_top_lt
    cases placed_of_place? second with
    | bottom l => omega
    | between _ low high => omega
    | top l => omega

theorem key_eq_key_iff : x.key = y.key ↔ a = b := by
  have less := key_lt_key_iff first second
  have more := key_lt_key_iff second first
  constructor
  · intro same
    exact le_antisymm (not_lt.mp (mt more.mpr (by omega))) (not_lt.mp (mt less.mpr (by omega)))
  · rintro rfl
    have below := mt less.mp (lt_irrefl a)
    have above := mt more.mp (lt_irrefl a)
    omega

theorem less_iff : x.less y ↔ a < b := by
  simp [less, isNaN_of_place? first, isNaN_of_place? second, key_lt_key_iff first second]

theorem equals_iff : x.equals y ↔ a = b := by
  simp [equals, isNaN_of_place? first, isNaN_of_place? second, key_eq_key_iff first second]

end

end Binary64

end ProtoVM
