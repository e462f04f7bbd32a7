import Mathlib
import ProtoVM.Machine.Activation
import ProtoVM.Proofs.Bytecode.BuiltUnits
import ProtoVM.Proofs.Number.NumberLine

/-!
# Constant pools

A constant that is put into the pool of a unit is given an index, and later constants never change
what stands there. What stands there is the constant itself, with one exception: pool entries are
compared as numbers, so that a zero may be given the entry of the zero of the other sign.
-/

namespace ProtoVM

namespace Constant

variable {c d : Constant}

def isNaN : Constant → Bool
  | float x => x.isNaN
  | _ => false

/-- The two are the same constant; all NaNs are one. -/
def Identical (c d : Constant) : Prop := c = d ∨ c.isNaN ∧ d.isNaN

/-- The two are zeros, and only one of them is negative. -/
def OppositeZeros (c d : Constant) : Prop :=
  ∃ negative, c = float (.zero negative) ∧ d = float (.zero !negative)

theorem float_equals_iff {x y : Binary64} : x.equals y ↔
    x.isNaN = false ∧ (x = y ∨ ∃ negative, x = .zero negative ∧ y = .zero !negative) := by
  rw [Binary64.equals, Bool.and_eq_true, Bool.and_eq_true, Bool.not_eq_true', Bool.not_eq_true',
    decide_eq_true_eq]
  constructor
  · rintro ⟨⟨known, -⟩, keys⟩
    refine ⟨known, ?_⟩
    have magnitudes : x.magnitude = y.magnitude := by
      rw [← Binary64.natAbs_key, keys, Binary64.natAbs_key]
    by_cases signs : x.negative = y.negative
    · exact .inl (Binary64.eq_of_magnitude_eq signs magnitudes)
    · -- numbers of one key and two signs can only be zero
      have other : y.negative = !x.negative := Bool.eq_not.mpr (Ne.symm signs)
      have zero : x.magnitude = 0 := by
        rw [Binary64.key, Binary64.key, other, ← magnitudes] at keys
        cases h : x.negative <;> simp only [h, Bool.not_true, Bool.not_false, if_true, if_false,
          Bool.false_eq_true] at keys <;> omega
      have first := Binary64.ofMagnitude_magnitude x
      have second := Binary64.ofMagnitude_magnitude y
      rw [← magnitudes, other, zero] at second
      rw [zero] at first
      exact .inr ⟨x.negative, first.symm, second.symm⟩
  · rintro ⟨known, rfl | ⟨negative, rfl, rfl⟩⟩
    · exact ⟨⟨known, known⟩, rfl⟩
    · cases negative <;> decide

/-- Pool entries are equal if they are the same, or zeros of different signs; a NaN is equal to
none. -/
theorem equals_iff : c.equals d ↔ c.isNaN = false ∧ (c = d ∨ c.OppositeZeros d) := by
  rw [equals.eq_def]
  cases c <;> cases d <;> simp [isNaN, OppositeZeros, float_equals_iff]

/-- No entry is equal to a NaN. -/
theorem equals_of_isNaN (nan : d.isNaN) : c.equals d = false := by
  rw [← Bool.not_eq_true, equals_iff]
  rintro ⟨known, rfl | ⟨negative, -, rfl⟩⟩
  · rw [nan] at known
    cases known
  · cases negative <;> revert nan <;> decide

theorem equals_iff_of_isNaN_eq_false (known : d.isNaN = false) :
    c.equals d ↔ c.Identical d ∨ c.OppositeZeros d := by
  rw [equals_iff, Identical, known]
  constructor
  · rintro ⟨-, same | zeros⟩
    · exact .inl (.inl same)
    · exact .inr zeros
  · rintro ((rfl | ⟨-, nan⟩) | ⟨negative, rfl, rfl⟩)
    · exact ⟨known, .inl rfl⟩
    · cases nan
    · exact ⟨by cases negative <;> decide, .inr ⟨negative, rfl, rfl⟩⟩

end Constant

/-! ## Calls -/

/-- A call that puts something into the pool. -/
inductive PoolCall where
  | constant (c : Constant)
  | name (s : String)

/-- The constant that the caller asks for. -/
def PoolCall.wanted : PoolCall → Constant
  | constant c => c
  | name s => .str s

namespace CodeUnit

/-- Carries out a call, and gives the index that it is answered with. -/
def put (u : CodeUnit) : PoolCall → CodeUnit × Nat
  | .constant c => u.intern c
  | .name s => u.internString s

/-- Carries out calls one after the other. -/
def putAll (u : CodeUnit) (calls : List PoolCall) : CodeUnit :=
  calls.foldl (fun u call => (u.put call).1) u

variable {u v : CodeUnit} {c : Constant}

theorem put_eq (u : CodeUnit) (call : PoolCall) : u.put call = u.intern call.wanted := by
  cases call <;> rfl

/-- Calls change nothing but the pool, and there they only append. -/
theorem exists_putAll_eq (u : CodeUnit) (calls : List PoolCall) :
    ∃ more, u.putAll calls = { u with constants := u.constants ++ more } := by
  induction calls generalizing u with
  | nil => exact ⟨[], by rw [List.append_nil]; rfl⟩
  | cons call calls ih =>
    obtain ⟨⟨first, grown⟩, -⟩ := u.intern_keeps call.wanted
    obtain ⟨later, all⟩ := ih (u.put call).1
    refine ⟨first ++ later, all.trans ?_⟩
    rw [put_eq, grown, List.append_assoc]

/-- The constant has no entry that a call would be answered with. -/
def Lacks (u : CodeUnit) (c : Constant) : Prop :=
  c.isNaN ∨ ∀ e ∈ u.constants, ¬ e.Identical c ∧ ¬ e.OppositeZeros c

theorem findIdx?_eq_none_iff :
    u.constants.findIdx? (·.equals c) = none ↔ u.Lacks c := by
  rw [List.findIdx?_eq_none_iff, Lacks]
  cases nan : c.isNaN with
  | true =>
    simp only [true_or, iff_true]
    exact fun e _ => Constant.equals_of_isNaN nan
  | false =>
    simp only [Bool.false_eq_true, false_or, ← not_or, ← Constant.equals_iff_of_isNaN_eq_false nan,
      Bool.not_eq_true]

theorem intern_of_lacks (lacks : u.Lacks c) :
    u.intern c = ({ u with constants := u.constants ++ [c] }, u.constants.length) := by
  rw [intern, findIdx?_eq_none_iff.mpr lacks]

theorem intern_of_not_lacks (has : ¬ u.Lacks c) : (u.intern c).1 = u := by
  obtain ⟨index, found⟩ := Option.ne_none_iff_exists'.mp (mt findIdx?_eq_none_iff.mp has)
  rw [intern, found]

/-- What a call for a constant comes to, that takes a unit to the second one and is followed by
others that take it to the third one. -/
structure Serves (u : CodeUnit) (c : Constant) (v : CodeUnit) (index : Nat) (w : CodeUnit) :
    Prop where
  /-- Entries stay where they are, and nothing else in the unit changes. -/
  kept : ∃ more, v = { u with constants := u.constants ++ more }
  later : ∃ more, w = { v with constants := v.constants ++ more }
  grows : u.Lacks c → v.constants = u.constants ++ [c]
  reuses : ¬ u.Lacks c → v.constants = u.constants
  /-- The entry at the index is the constant, or the zero of the other sign, where that stands in
  the pool before the constant does. It is what an instruction with the index pushes. -/
  entry : ∃ e, v.constants[index]? = some e ∧ w.constants[index]? = some e ∧
    (e.Identical c ∨
      e.OppositeZeros c ∧ u.constants[index]? = some e ∧ c ∉ u.constants.take index) ∧
    ∀ a : Activation, a.unit.unit.constants = w.constants → a.operand 2 = .ok index →
      a.constant = .ok e.toValue

theorem constant_of_operand {a : Activation} {index : Nat} {e : Constant}
    (operand : a.operand 2 = .ok index) (found : a.unit.unit.constants[index]? = some e) :
    a.constant = .ok e.toValue := by
  rw [Activation.constant, operand]
  simp only [bind, Except.bind, found]
  rfl

/-- At the index that is answered stands what was asked for, or the other zero. -/
theorem entry_intern (u : CodeUnit) (c : Constant) :
    ∃ e, (u.intern c).1.constants[(u.intern c).2]? = some e ∧
      (e.Identical c ∨
        e.OppositeZeros c ∧ u.constants[(u.intern c).2]? = some e ∧
          c ∉ u.constants.take (u.intern c).2) := by
  rw [intern]
  cases found : u.constants.findIdx? (·.equals c) with
  | none => exact ⟨c, by simp, .inl (.inl rfl)⟩
  | some index =>
    dsimp only
    obtain ⟨inside, equal, earlier⟩ := List.findIdx?_eq_some_iff_getElem.mp found
    have stands : u.constants[index]? = some u.constants[index] := List.getElem?_eq_getElem inside
    obtain ⟨-, same | zeros⟩ := Constant.equals_iff.mp equal
    · exact ⟨_, stands, .inl (.inl same)⟩
    · refine ⟨_, stands, .inr ⟨zeros, stands, fun mem => ?_⟩⟩
      -- the constant is equal to itself, so that the search would have ended where it stands
      have itself : c.equals c := by
        obtain ⟨negative, -, rfl⟩ := zeros
        exact Constant.equals_iff.mpr ⟨by cases negative <;> decide, .inl rfl⟩
      obtain ⟨j, before, same⟩ := List.mem_take_iff_getElem.mp mem
      refine earlier j (by omega) ?_
      rw [same]
      exact itself

/-- Calls for constants and names are carried out in any order. What a call asks for stands at the
index that it is answered with, then and after all later calls, but for a zero that is answered with
the other one; nothing that is in the pool is moved or changed, and the pool grows by one entry
exactly if it has none that the call could be answered with. -/
theorem serves_put (u : CodeUnit) (before : List PoolCall) (call : PoolCall)
    (after : List PoolCall) :
    let v := u.putAll before
    v.Serves call.wanted (v.put call).1 (v.put call).2 ((v.put call).1.putAll after) := by
  intro v
  rw [put_eq]
  obtain ⟨kept, inside⟩ := v.intern_keeps call.wanted
  obtain ⟨e, stands, entry⟩ := v.entry_intern call.wanted
  obtain ⟨more, later⟩ := (v.intern call.wanted).1.exists_putAll_eq after
  have stays :
      ((v.intern call.wanted).1.putAll after).constants[(v.intern call.wanted).2]? = some e := by
    rw [later, List.getElem?_append_left inside, stands]
  refine ⟨kept, ⟨more, later⟩, ?_, ?_, e, stands, stays, entry, ?_⟩
  · intro lacks
    rw [intern_of_lacks lacks]
  · intro has
    rw [intern_of_not_lacks has]
  · intro a pool operand
    exact constant_of_operand operand (pool ▸ stays)

/-- A negative zero that is asked for after a positive one is answered with that. -/
theorem not_identical_put : ¬ ∀ (u : CodeUnit) (before : List PoolCall) (call : PoolCall),
    ∃ e, ((u.putAll before).put call).1.constants[((u.putAll before).put call).2]? = some e ∧
      e.Identical call.wanted := by
  intro identical
  obtain ⟨e, stands, same | ⟨nan, -⟩⟩ := identical (.empty "f" [])
    [.constant (.float (.zero false))] (.constant (.float (.zero true)))
  · have found : some (Constant.float (.zero false)) = some e := stands
    rw [same] at found
    exact absurd found (by decide)
  · have found : some (Constant.float (.zero false)) = some e := stands
    rw [← Option.some.inj found] at nan
    exact absurd nan (by decide)

end CodeUnit

end ProtoVM
