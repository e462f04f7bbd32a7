import Mathlib
import ProtoVM.Machine.Operation
import ProtoVM.Proofs.Number.Integers

/-!
# Compared values

Numbers of either kind have their place on one line. Equality tells whether two places are the
same, whatever the kinds, and so it is an equivalence of all values but NaNs. The order of an
integer and a floating-point number goes by what the integer is rounded to: it says nothing that is
wrong on the line, but where the rounding hides a difference (`Value.Blurred`) it leaves two numbers
unordered that are not equal.
-/

namespace ProtoVM

/-! ## Integers among the places -/

namespace Binary64

variable {x : Binary64} {i : Int64} {b : Extended}

theorem intCast_le_toRat_iff : (i.toInt : ℚ) ≤ x.toRat ↔ i.toInt * unitsPerOne ≤ x.units := by
  rw [toRat_eq, le_div_iff₀ unitsPerOne_pos]
  norm_cast

theorem toRat_le_intCast_iff : x.toRat ≤ (i.toInt : ℚ) ↔ x.units ≤ i.toInt * unitsPerOne := by
  rw [toRat_eq, div_le_iff₀ unitsPerOne_pos]
  norm_cast

/-- The zeros are the numbers that are exactly zero. -/
theorem toRat_eq_zero_iff : x.toRat = 0 ↔ x = zero false ∨ x = zero true := by
  have value (negative : Bool) : (zero negative).toRat = 0 := by
    have none : (zero negative).significand = 0 := by
      cases negative <;> decide
    rw [toRat, none, Nat.cast_zero, mul_zero, zero_mul]
  constructor
  · intro zero
    rw [← value false, toRat_eq_toRat_iff] at zero
    have place : (Binary64.zero false).key = 0 := by decide
    have magnitude : x.magnitude = 0 := by rw [← natAbs_key, zero, place, Int.natAbs_zero]
    have same := ofMagnitude_magnitude x
    rw [magnitude] at same
    cases negative : x.negative with
    | false => exact .inl (negative ▸ same.symm)
    | true => exact .inr (negative ▸ same.symm)
  · rintro (rfl | rfl) <;> exact value _

/-- The number that an integer is rounded to. -/
def ofInt64 (i : Int64) : Binary64 := ofInt i.toInt

theorem place?_ofInt64 (i : Int64) : (ofInt64 i).place? = some (.ofRat (ofInt64 i).toRat) :=
  place?_of_isFinite (isFinite_ofInt i)

/-- An integer is rounded past no place that a number has. -/
theorem ofInt64_le_of_le (place : x.place? = some b) (le : .ofRat i.toInt ≤ b) :
    .ofRat (ofInt64 i).toRat ≤ b := by
  cases placed_of_place? place with
  | bottom => exact absurd le (not_le.mpr Extended.bot_lt_ofRat)
  | between =>
    rw [← not_lt, Extended.ofRat_lt_ofRat, not_lt] at le ⊢
    rw [← not_lt, toRat_lt_toRat_iff, not_lt]
    exact ofInt_le_of_le (intCast_le_toRat_iff.mp le)
  | top => exact le_top

theorem le_ofInt64_of_le (place : x.place? = some b) (le : b ≤ .ofRat i.toInt) :
    b ≤ .ofRat (ofInt64 i).toRat := by
  cases placed_of_place? place with
  | bottom => exact bot_le
  | between =>
    rw [← not_lt, Extended.ofRat_lt_ofRat, not_lt] at le ⊢
    rw [← not_lt, toRat_lt_toRat_iff, not_lt]
    exact le_ofInt_of_le (toRat_le_intCast_iff.mp le)
  | top => exact absurd le (not_le.mpr Extended.ofRat_lt_top)

/-- A number is equal to an integer exactly if it has its place. -/
theorem equalsInt_iff_place? : x.equalsInt i ↔ x.place? = some (.ofRat i.toInt) := by
  rw [equalsInt_iff]
  constructor
  · rintro ⟨finite, value⟩
    rw [place?_of_isFinite finite, value]
  · intro place
    generalize at_ : Extended.ofRat i.toInt = a at place
    cases placed_of_place? place with
    | bottom => exact absurd at_ (ne_of_gt Extended.bot_lt_ofRat)
    | between finite =>
      rw [Extended.ofRat_inj] at at_
      exact ⟨finite, at_.symm⟩
    | top => exact absurd at_ (ne_of_lt Extended.ofRat_lt_top)

/-- The integer is rounded to the number, and is another one. -/
def Blurs (x : Binary64) (i : Int64) : Prop :=
  x.place? = (ofInt64 i).place? ∧ x.place? ≠ some (.ofRat i.toInt)

/-- Only integers of more than 53 bits are rounded to others. -/
theorem Blurs.large (blurs : x.Blurs i) : 2 ^ 53 < i.toInt.natAbs := by
  by_contra small
  have value := units_ofInt_of_natAbs_le (Nat.not_lt.mp small)
  rw [← toRat_eq_intCast_iff] at value
  exact blurs.2 (blurs.1.trans ((place?_ofInt64 i).trans (congrArg (some ∘ Extended.ofRat) value)))

section

variable (place : x.place? = some b)
include place

/-- What an integer is rounded to comes before a number if the integer does, unless it is rounded
to that number. -/
theorem ofInt64_less_iff : (ofInt64 i).less x ↔ .ofRat i.toInt < b ∧ ¬ x.Blurs i := by
  rw [less_iff (place?_ofInt64 i) place, Blurs, place, place?_ofInt64, Option.some_inj, ne_eq,
    Option.some_inj]
  constructor
  · intro less
    exact ⟨lt_of_not_ge fun le => not_le.mpr less (le_ofInt64_of_le place le),
      fun blurs => less.ne' blurs.1⟩
  · rintro ⟨less, sharp⟩
    exact lt_of_le_of_ne (ofInt64_le_of_le place less.le) fun same => sharp ⟨same.symm, less.ne'⟩

theorem less_ofInt64_iff : x.less (ofInt64 i) ↔ b < .ofRat i.toInt ∧ ¬ x.Blurs i := by
  rw [less_iff place (place?_ofInt64 i), Blurs, place, place?_ofInt64, Option.some_inj, ne_eq,
    Option.some_inj]
  constructor
  · intro less
    exact ⟨lt_of_not_ge fun le => not_le.mpr less (ofInt64_le_of_le place le),
      fun blurs => less.ne blurs.1⟩
  · rintro ⟨less, sharp⟩
    exact lt_of_le_of_ne (le_ofInt64_of_le place less.le) fun same => sharp ⟨same, less.ne⟩

end

end Binary64

namespace Value

/-! ## Equality -/

def isNaN : Value → Bool
  | float x => x.isNaN
  | _ => false

/-- The place of a number on the line. -/
def place? : Value → Option Extended
  | int i => some (.ofRat i.toInt)
  | float x => x.place?
  | _ => none

/-- What equality looks at: the place of a number, and of anything else the value itself. -/
def essence (v : Value) : Extended ⊕ Value :=
  match v.place? with
  | some a => .inl a
  | none => .inr v

variable {v w : Value}

theorem exists_place? {x : Binary64} (known : (float x).isNaN = false) :
    ∃ a, x.place? = some a := by
  rw [← Option.ne_none_iff_exists', ne_eq, Binary64.place?_eq_none_iff]
  exact Bool.not_eq_true _ ▸ known

theorem int_beq_iff {i j : Int64} : i == j ↔ Extended.ofRat i.toInt = .ofRat j.toInt := by
  rw [beq_iff_eq, Extended.ofRat_inj, Int.cast_inj, Int64.toInt_inj]

theorem equals_iff_essence_eq (known : v.isNaN = false) (alsoKnown : w.isNaN = false) :
    v.equals w ↔ v.essence = w.essence := by
  cases v with
  | int i =>
    cases w with
    | int j => simpa [equals, essence, place?] using int_beq_iff
    | float y =>
      obtain ⟨b, hb⟩ := exists_place? alsoKnown
      simp only [equals, essence, place?, Binary64.equalsInt_iff_place?, hb, Sum.inl.injEq,
        Option.some.injEq]
      exact eq_comm
    | _ => simp [equals, essence, place?]
  | float x =>
    obtain ⟨a, ha⟩ := exists_place? known
    cases w with
    | int j => simp [equals, essence, place?, Binary64.equalsInt_iff_place?, ha]
    | float y =>
      obtain ⟨b, hb⟩ := exists_place? alsoKnown
      simp [equals, essence, place?, Binary64.equals_iff ha hb, ha, hb]
    | _ => simp [equals, essence, place?, ha]
  | _ =>
    cases w with
    | float y =>
      obtain ⟨b, hb⟩ := exists_place? alsoKnown
      simp [equals, essence, place?, hb]
    | _ => simp [equals, essence, place?]

/-- Zero is one value in three forms. -/
theorem equals_zero_iff : v.equals (int 0) ↔
    v = int 0 ∨ v = float (.zero false) ∨ v = float (.zero true) := by
  cases v with
  | float x =>
    have none : ((Int64.toInt 0 : Int) : ℚ) = 0 := Int.cast_zero
    simp only [equals, Binary64.equalsInt_iff, none, Binary64.toRat_eq_zero_iff, reduceCtorEq,
      float.injEq, false_or, and_iff_right_iff_imp]
    rintro (rfl | rfl) <;> decide
  | _ => simp [equals]

/-- Equality of the values that are not a NaN is an equivalence, in which the zeros form one class;
an integer and a floating-point number are equal exactly if the number is finite and its exact value
is the integer. -/
theorem equals_equivalence_and_exact :
    Equivalence (fun v w : { v : Value // v.isNaN = false } => v.1.equals w.1) ∧
      (∀ v : Value, v.equals (int 0) ↔
        v = int 0 ∨ v = float (.zero false) ∨ v = float (.zero true)) ∧
      ∀ (i : Int64) (x : Binary64),
        ((int i).equals (float x) ↔ x.isFinite ∧ x.toRat = i.toInt) ∧
        ((float x).equals (int i) ↔ x.isFinite ∧ x.toRat = i.toInt) := by
  refine ⟨⟨?_, ?_, ?_⟩, fun _ => equals_zero_iff, fun i x => ⟨?_, ?_⟩⟩
  · rintro ⟨v, hv⟩
    exact (equals_iff_essence_eq hv hv).mpr rfl
  · rintro ⟨v, hv⟩ ⟨w, hw⟩ same
    exact (equals_iff_essence_eq hw hv).mpr ((equals_iff_essence_eq hv hw).mp same).symm
  · rintro ⟨v, hv⟩ ⟨w, hw⟩ ⟨u, hu⟩ first second
    rw [equals_iff_essence_eq hv hw] at first
    rw [equals_iff_essence_eq hw hu] at second
    exact (equals_iff_essence_eq hv hu).mpr (first.trans second)
  · exact Binary64.equalsInt_iff
  · exact Binary64.equalsInt_iff

/-! ## Order -/

/-- An integer and a floating-point number that it is rounded to without being equal to it. -/
inductive Blurred : Value → Value → Prop
  | left {i : Int64} {x : Binary64} : x.Blurs i → Blurred (int i) (float x)
  | right {i : Int64} {x : Binary64} : x.Blurs i → Blurred (float x) (int i)

theorem Blurred.symm (blurred : Blurred v w) : Blurred w v := by
  cases blurred with
  | left blurs => exact .right blurs
  | right blurs => exact .left blurs

theorem blurred_comm : Blurred v w ↔ Blurred w v := ⟨.symm, .symm⟩

/-- What is blurred is not equal. -/
theorem Blurred.equals_eq_false (blurred : Blurred v w) : v.equals w = false := by
  cases blurred with
  | left blurs => exact Bool.eq_false_iff.mpr (mt Binary64.equalsInt_iff_place?.mp blurs.2)
  | right blurs => exact Bool.eq_false_iff.mpr (mt Binary64.equalsInt_iff_place?.mp blurs.2)

theorem Blurred.exists_large (blurred : Blurred v w) :
    ∃ i : Int64, (v = int i ∨ w = int i) ∧ 2 ^ 53 < i.toInt.natAbs := by
  cases blurred with
  | left blurs => exact ⟨_, .inl rfl, blurs.large⟩
  | right blurs => exact ⟨_, .inr rfl, blurs.large⟩

section

variable {a b : Extended} (first : v.place? = some a) (second : w.place? = some b)
include first second

theorem equals_iff_place_eq : v.equals w ↔ a = b := by
  have known {u : Value} {c : Extended} (place : u.place? = some c) : u.isNaN = false := by
    cases u with
    | float x => exact Binary64.isNaN_of_place? place
    | _ => rfl
  rw [equals_iff_essence_eq (known first) (known second), essence, essence, first, second,
    Sum.inl.injEq]

/-- Two numbers are ordered as their places, unless one is blurred to the other. -/
theorem lessThan_of_places (h : Heap) :
    ∃ less, Operation.lessThan h v w = .ok less ∧ (less ↔ a < b ∧ ¬ Blurred v w) := by
  cases v with
  | int i =>
    obtain rfl : .ofRat i.toInt = a := Option.some.inj first
    cases w with
    | int j =>
      obtain rfl : .ofRat j.toInt = b := Option.some.inj second
      refine ⟨_, rfl, ?_⟩
      have sharp : ¬ Blurred (int i) (int j) := nofun
      simp [sharp, Int64.lt_iff_toInt_lt]
    | float y =>
      have same : Blurred (int i) (float y) ↔ y.Blurs i := ⟨fun | .left blurs => blurs, .left⟩
      refine ⟨_, rfl, ?_⟩
      rw [same]
      exact Binary64.ofInt64_less_iff second
    | _ => cases second
  | float x =>
    cases w with
    | int j =>
      obtain rfl : .ofRat j.toInt = b := Option.some.inj second
      have same : Blurred (float x) (int j) ↔ x.Blurs j := ⟨fun | .right blurs => blurs, .right⟩
      refine ⟨_, rfl, ?_⟩
      rw [same]
      exact Binary64.less_ofInt64_iff first
    | float y =>
      have sharp : ¬ Blurred (float x) (float y) := nofun
      refine ⟨_, rfl, ?_⟩
      rw [Binary64.less_iff first second]
      simp [sharp]
    | _ => cases second
  | _ => cases first

/-- Equality is that of the places of two numbers, and the order is theirs: of less, equal and more
exactly one holds, unless one of the two is an integer of more than 53 bits and the other one the
number that it is rounded to, when none holds. -/
theorem ordered_of_places (h : Heap) :
    (v.equals w ↔ a = b) ∧
    ∃ less more, Operation.lessThan h v w = .ok less ∧ Operation.lessThan h w v = .ok more ∧
      (less ↔ a < b ∧ ¬ Blurred v w) ∧ (more ↔ b < a ∧ ¬ Blurred v w) ∧
      (¬ Blurred v w → [less, v.equals w, more].count true = 1) ∧
      (Blurred v w → [less, v.equals w, more].count true = 0 ∧
        ∃ i : Int64, (v = int i ∨ w = int i) ∧ 2 ^ 53 < i.toInt.natAbs) := by
  have same := equals_iff_place_eq first second
  obtain ⟨less, lessThan, isLess⟩ := lessThan_of_places first second h
  obtain ⟨more, moreThan, isMore⟩ := lessThan_of_places second first h
  rw [blurred_comm] at isMore
  refine ⟨same, less, more, lessThan, moreThan, isLess, isMore, ?_, ?_⟩
  · intro sharp
    rw [and_iff_left sharp] at isLess isMore
    rcases lt_trichotomy a b with below | equal | above
    · simp [isLess.mpr below, Bool.eq_false_iff.mpr (mt isMore.mp below.not_gt),
        Bool.eq_false_iff.mpr (mt same.mp below.ne)]
    · subst equal
      simp [same.mpr rfl, Bool.eq_false_iff.mpr (mt isLess.mp (lt_irrefl a)),
        Bool.eq_false_iff.mpr (mt isMore.mp (lt_irrefl a))]
    · simp [isMore.mpr above, Bool.eq_false_iff.mpr (mt isLess.mp above.not_gt),
        Bool.eq_false_iff.mpr (mt same.mp above.ne')]
  · intro blurred
    have noLess : less = false := Bool.eq_false_iff.mpr fun holds => (isLess.mp holds).2 blurred
    have noMore : more = false := Bool.eq_false_iff.mpr fun holds => (isMore.mp holds).2 blurred
    refine ⟨?_, blurred.exists_large⟩
    simp [noLess, noMore, blurred.equals_eq_false]

end

/-- An integer that no number of the format is, and the next number above it. -/
theorem ordered_of_places_aboveRounding :
    (int 9007199254740993).place? = some (.ofRat 9007199254740993) ∧
      (float ⟨0x4340000000000001⟩).place? = some (.ofRat 9007199254740994) ∧
      Operation.lessThan .empty (int 9007199254740993) (float ⟨0x4340000000000001⟩) = .ok true := by
  have first : (int 9007199254740993).place? = some (.ofRat 9007199254740993) := by
    have value : (Int64.toInt 9007199254740993 : Int) = 9007199254740993 := by decide
    rw [place?, value]
    norm_num
  have second : (float ⟨0x4340000000000001⟩).place? = some (.ofRat 9007199254740994) := by
    have value : (⟨0x4340000000000001⟩ : Binary64).toRat = ((9007199254740994 : Int) : ℚ) :=
      Binary64.toRat_eq_intCast_iff.mpr (by decide +kernel)
    rw [place?, Binary64.place?_of_isFinite (by decide), value]
    norm_num
  obtain ⟨-, less, -, lessThan, -, isLess, -⟩ := ordered_of_places first second .empty
  have sharp : ¬ Blurred (int 9007199254740993) (float ⟨0x4340000000000001⟩) := by
    rintro ⟨near, -⟩
    have keys := (Binary64.key_eq_key_iff second (near.symm.trans second)).mpr rfl
    exact absurd keys (by decide +kernel)
  have holds : less = true := isLess.mpr ⟨by norm_num, sharp⟩
  exact ⟨first, second, holds ▸ lessThan⟩

/-- The integer `2 ^ 53 + 1` is not ordered with `2 ^ 53` as a floating-point number: neither is
less, and they are not equal. -/
theorem not_ordered_of_place? : ¬ ∀ (h : Heap) (v w : Value), v.place?.isSome → w.place?.isSome →
    ∃ less more, Operation.lessThan h v w = .ok less ∧ Operation.lessThan h w v = .ok more ∧
      [less, v.equals w, more].count true = 1 := by
  intro ordered
  obtain ⟨less, more, lessThan, moreThan, one⟩ :=
    ordered .empty (int 9007199254740993) (float ⟨0x4340000000000000⟩) rfl (by decide)
  have noLess : (Binary64.ofInt64 9007199254740993).less ⟨0x4340000000000000⟩ = false := by
    decide +kernel
  have noMore : Binary64.less ⟨0x4340000000000000⟩ (Binary64.ofInt64 9007199254740993) = false := by
    decide +kernel
  have unequal : (int 9007199254740993).equals (float ⟨0x4340000000000000⟩) = false := by
    decide +kernel
  obtain rfl : false = less := noLess.symm.trans (Except.ok.inj lessThan)
  obtain rfl : false = more := noMore.symm.trans (Except.ok.inj moreThan)
  rw [unequal] at one
  cases one

end Value

end ProtoVM
