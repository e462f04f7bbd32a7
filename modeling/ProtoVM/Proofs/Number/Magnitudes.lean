import Mathlib
import ProtoVM.Number.Binary64

/-!
# Magnitudes

The bits below the sign of a finite number count the numbers from zero on. `Magnitude.units` is
the size of the number that a count leads to, and it grows with the count, so that keys are ordered
as the numbers are. Rounding goes the other way (`Magnitude.nearest`): it is monotone, and it gives
the count back of a number that needs no rounding.
-/

namespace ProtoVM

/-! ## Counting numbers -/

namespace Magnitude

/-- The number that comes at a place, in units of `2 ^ -1074`. -/
def units (m : Nat) : Nat :=
  (if m / 2 ^ 52 = 0 then m % 2 ^ 52 else 2 ^ 52 + m % 2 ^ 52) * 2 ^ (m / 2 ^ 52 - 1)

/-- A significand has its leading bit, or it counts the smallest units. -/
def Normal (scale significand : Nat) : Prop :=
  significand < 2 ^ 53 ∧ (scale = 0 ∨ 2 ^ 52 ≤ significand)

theorem exists_normal (m : Nat) : ∃ s g, Normal s g ∧ m = s * 2 ^ 52 + g := by
  by_cases small : m < 2 ^ 53
  · exact ⟨0, m, ⟨small, .inl rfl⟩, by simp⟩
  · refine ⟨m / 2 ^ 52 - 1, 2 ^ 52 + m % 2 ^ 52, ⟨?_, ?_⟩, ?_⟩ <;> omega

/-- A significand that is rounded up past the last one is the first one of the next scale. -/
theorem units_of_le {s g : Nat} (fits : g ≤ 2 ^ 53) (normal : s = 0 ∨ 2 ^ 52 ≤ g) :
    units (s * 2 ^ 52 + g) = g * 2 ^ s := by
  rw [units]
  rcases Nat.lt_or_ge g (2 ^ 52) with low | high
  · obtain rfl : s = 0 := normal.resolve_right (Nat.not_le.mpr low)
    have field : (0 * 2 ^ 52 + g) / 2 ^ 52 = 0 := by omega
    simp only [field, if_true]
    omega
  · rcases Nat.lt_or_ge g (2 ^ 53) with inside | last
    · have field : (s * 2 ^ 52 + g) / 2 ^ 52 = s + 1 := by omega
      have fraction : (s * 2 ^ 52 + g) % 2 ^ 52 = g - 2 ^ 52 := by omega
      rw [field, fraction, if_neg (Nat.succ_ne_zero s), Nat.add_sub_cancel,
        Nat.add_sub_cancel' high]
    · obtain rfl : g = 2 ^ 53 := Nat.le_antisymm fits last
      have field : (s * 2 ^ 52 + 2 ^ 53) / 2 ^ 52 = s + 2 := by omega
      have fraction : (s * 2 ^ 52 + 2 ^ 53) % 2 ^ 52 = 0 := by omega
      rw [field, fraction, if_neg (Nat.succ_ne_zero _)]
      show (2 ^ 52 + 0) * 2 ^ (s + 1) = 2 ^ 53 * 2 ^ s
      rw [pow_succ]
      ring

theorem Normal.units {s g : Nat} (normal : Normal s g) :
    Magnitude.units (s * 2 ^ 52 + g) = g * 2 ^ s :=
  units_of_le (Nat.le_of_lt normal.1) normal.2

theorem units_lt_units_succ (m : Nat) : units m < units (m + 1) := by
  obtain ⟨s, g, normal, rfl⟩ := exists_normal m
  have next : Magnitude.units (s * 2 ^ 52 + (g + 1)) = (g + 1) * 2 ^ s :=
    units_of_le normal.1 (normal.2.imp_right Nat.le_succ_of_le)
  rw [Nat.add_assoc, normal.units, next, Nat.succ_mul]
  exact Nat.lt_add_of_pos_right (Nat.two_pow_pos s)

theorem units_strictMono : StrictMono units := strictMono_nat_of_lt_succ units_lt_units_succ

@[simp] theorem units_zero : units 0 = 0 := rfl

/-! ## Rounding -/

/-- The place of the number nearest to a count of units, a tie going to the even significand. -/
def nearest (n : Nat) : Nat :=
  (Nat.log2 n - 52) * 2 ^ 52 + Binary64.roundEven n (Nat.log2 n - 52)

theorem roundEven_eq (n s : Nat) : Binary64.roundEven n s =
    if 2 ^ s < 2 * (n % 2 ^ s) ∨ (2 * (n % 2 ^ s) = 2 ^ s ∧ n / 2 ^ s % 2 = 1) then n / 2 ^ s + 1
    else n / 2 ^ s := by
  simp only [Binary64.roundEven, Nat.shiftRight_eq_div_pow, Nat.one_shiftLeft, gt_iff_lt]

theorem roundEven_mul (g s : Nat) : Binary64.roundEven (g * 2 ^ s) s = g := by
  have pos : 0 < 2 ^ s := Nat.two_pow_pos s
  rw [roundEven_eq, Nat.mul_mod_left, Nat.mul_div_cancel g pos, if_neg]
  omega

theorem roundEven_mono {n n' : Nat} (s : Nat) (le : n ≤ n') :
    Binary64.roundEven n s ≤ Binary64.roundEven n' s := by
  have quotients : n / 2 ^ s ≤ n' / 2 ^ s := Nat.div_le_div_right le
  rw [roundEven_eq, roundEven_eq]
  rcases Nat.lt_or_eq_of_le quotients with less | same
  · -- one is rounded up to the quotient of the other at most
    split <;> split <;> omega
  · have remainders : n % 2 ^ s ≤ n' % 2 ^ s := by
      have first := Nat.div_add_mod n (2 ^ s)
      have second := Nat.div_add_mod n' (2 ^ s)
      rw [same] at first
      omega
    split <;> split <;> omega

theorem log2_of_normal {s g : Nat} (high : 2 ^ 52 ≤ g) (fits : g < 2 ^ 53) :
    Nat.log2 (g * 2 ^ s) = 52 + s := by
  have pos : 0 < 2 ^ s := Nat.two_pow_pos s
  have nonzero : g * 2 ^ s ≠ 0 := Nat.mul_ne_zero (by omega) (Nat.ne_of_gt pos)
  rw [Nat.log2_eq_iff nonzero, Nat.pow_add, Nat.add_right_comm, Nat.pow_add]
  exact ⟨Nat.mul_le_mul_right _ high, Nat.mul_lt_mul_of_pos_right fits pos⟩

/-- A number that needs no rounding is its own nearest one. -/
theorem nearest_units (m : Nat) : nearest (units m) = m := by
  obtain ⟨s, g, normal, rfl⟩ := exists_normal m
  rw [normal.units, nearest]
  have scale : Nat.log2 (g * 2 ^ s) - 52 = s := by
    rcases Nat.lt_or_ge g (2 ^ 52) with low | high
    · obtain rfl : s = 0 := normal.2.resolve_right (Nat.not_le.mpr low)
      rw [Nat.pow_zero, Nat.mul_one]
      by_cases zero : g = 0
      · subst zero
        rfl
      · have := (Nat.log2_lt zero).mpr low
        omega
    · rw [log2_of_normal high normal.1]
      omega
  rw [scale, roundEven_mul]

theorem nearest_mono {n n' : Nat} (le : n ≤ n') : nearest n ≤ nearest n' := by
  by_cases zero : n = 0
  · subst zero
    exact Nat.zero_le _
  have nonzero : n' ≠ 0 := by omega
  have logs : Nat.log2 n ≤ Nat.log2 n' := by
    rw [Nat.le_log2 nonzero]
    exact Nat.le_trans (Nat.log2_self_le zero) le
  rw [nearest, nearest]
  rcases Nat.lt_or_eq_of_le (Nat.sub_le_sub_right logs 52) with less | same
  · -- the lower one is rounded to the end of its scale at most
    have lower : Binary64.roundEven n (Nat.log2 n - 52) ≤ 2 ^ 53 := by
      have below : n ≤ 2 ^ 53 * 2 ^ (Nat.log2 n - 52) := by
        rw [← Nat.pow_add]
        refine Nat.le_of_lt (Nat.lt_of_lt_of_le Nat.lt_log2_self ?_)
        exact Nat.pow_le_pow_right (by decide) (by omega)
      rw [← roundEven_mul (2 ^ 53) (Nat.log2 n - 52)]
      exact roundEven_mono _ below
    have upper : 2 ^ 52 ≤ Binary64.roundEven n' (Nat.log2 n' - 52) := by
      have above : 2 ^ 52 * 2 ^ (Nat.log2 n' - 52) ≤ n' := by
        rw [← Nat.pow_add]
        refine Nat.le_trans (Nat.pow_le_pow_right (by decide) ?_) (Nat.log2_self_le nonzero)
        omega
      rw [← roundEven_mul (2 ^ 52) (Nat.log2 n' - 52)]
      exact roundEven_mono _ above
    omega
  · rw [same]
    exact Nat.add_le_add_left (roundEven_mono _ le) _

theorem nearest_eq_zero_iff {n : Nat} : nearest n = 0 ↔ n = 0 := by
  constructor
  · intro zero
    by_contra nonzero
    have least : units 1 ≤ n := Nat.pos_of_ne_zero nonzero
    have := nearest_mono least
    rw [nearest_units, zero] at this
    omega
  · rintro rfl
    rfl

/-! ## Both sides of zero -/

/-- A function of sizes as one of numbers with a sign. -/
def signed (f : Nat → Nat) (n : Int) : Int := if n < 0 then -(f n.natAbs : Int) else f n.natAbs

section

variable {f g : Nat → Nat}

theorem signed_mono (mono : Monotone f) : Monotone (signed f) := by
  intro a b le
  rw [signed, signed]
  split <;> split
  · have := mono (show b.natAbs ≤ a.natAbs by omega)
    omega
  · omega
  · omega
  · have := mono (show a.natAbs ≤ b.natAbs by omega)
    omega

theorem signed_strictMono (mono : StrictMono f) : StrictMono (signed f) := by
  intro a b less
  rw [signed, signed]
  split <;> split
  · have := mono (show b.natAbs < a.natAbs by omega)
    omega
  · have := mono (show 0 < a.natAbs by omega)
    omega
  · omega
  · have := mono (show a.natAbs < b.natAbs by omega)
    omega

/-- A function that takes back what another one does also does so on both sides of zero. -/
theorem signed_signed (inverse : ∀ m, g (f m) = m) (zero : f 0 = 0) (n : Int) :
    signed g (signed f n) = n := by
  have back := inverse n.natAbs
  have start := inverse 0
  rw [zero] at start
  rw [signed, signed]
  by_cases negative : n < 0
  · have nonzero : f n.natAbs ≠ 0 := by
      intro vanishes
      rw [vanishes, start] at back
      omega
    rw [if_pos negative, if_pos (by omega), Int.natAbs_neg, Int.natAbs_natCast, back]
    omega
  · rw [if_neg negative, if_neg (by omega), Int.natAbs_natCast, back]
    omega

theorem signed_of_neg_or (negative : Bool) (m : Nat) (zero : f 0 = 0) :
    signed f (if negative then -(m : Int) else m) = if negative then -(f m : Int) else f m := by
  cases negative with
  | false => simp [signed]
  | true =>
    by_cases none : m = 0
    · simp [signed, none, zero]
    · simp [signed, Nat.pos_of_ne_zero none]

end

end Magnitude

end ProtoVM
