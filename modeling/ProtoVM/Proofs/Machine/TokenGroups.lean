import Mathlib
import ProtoVM.Proofs.Machine.Alterations
import ProtoVM.Proofs.Machine.ReachedHeaps

/-!
# Groups of tokens

Tokens are invalidated in a group, one after the other, and each is tested against counts that the
ones before it may have moved. No token was issued at a count that is still to come. So the first
valid token of an object makes all others of that object stale, stale ones stay so, and what becomes
of an object hangs on one question: whether the group has a valid token of it.
-/

namespace ProtoVM

namespace Heap

variable {h h' : Heap} {o : ObjectId} {t : Token} {ts ts' : List Token}

/-- The group has a token of the object that is valid. -/
def Struck (h : Heap) (ts : List Token) (o : ObjectId) : Prop :=
  ∃ t ∈ ts, t.owner = o ∧ h.isValid t

instance (h : Heap) (ts : List Token) (o : ObjectId) : Decidable (h.Struck ts o) :=
  inferInstanceAs (Decidable (∃ t ∈ ts, t.owner = o ∧ h.isValid t))

/-- The token was issued by the object at an earlier time of the heap. -/
def Issued (h : Heap) (t : Token) : Prop :=
  ∃ before : Heap, before.Evolves h ∧ before.contains t.owner ∧ t = before.token t.owner

/-- No token was issued at a count that is still to come. -/
theorem Issued.le (issued : h.Issued t) : t.issued.toNat ≤ h.changes t.owner := by
  obtain ⟨before, evolves, -, same⟩ := issued
  have number : t.issued.toNat = before.changes t.owner % 2 ^ 64 := by
    rw [same]
    exact UInt64.toNat_ofNat'
  rw [number]
  exact (Nat.mod_le _ _).trans (evolves.changes_le t.owner)

theorem Issued.contains (issued : h.Issued t) : h.contains t.owner := by
  obtain ⟨before, evolves, present, -⟩ := issued
  exact evolves.contains present

/-- Whether a token is valid hangs on the count of its owner. -/
theorem isValid_congr (same : h'.changes t.owner = h.changes t.owner) :
    h'.isValid t = h.isValid t := by
  rw [isValid, isValid, generation, generation, same]

/-- While no count has come round, a token is valid if it carries the count of its owner. -/
theorem isValid_iff (few : h.changes t.owner < UInt64.size) :
    h.isValid t ↔ h.changes t.owner = t.issued.toNat := by
  rw [isValid, beq_iff_eq, ← UInt64.toNat_inj, generation, UInt64.toNat_ofNat',
    Nat.mod_eq_of_lt few]

/-! ## One object -/

theorem struck_cons :
    h.Struck (t :: ts) o ↔ (t.owner = o ∧ h.isValid t) ∨ h.Struck ts o := by
  simp [Struck]

theorem struck_congr (same : h'.changes o = h.changes o) : h'.Struck ts o ↔ h.Struck ts o := by
  refine exists_congr fun t => and_congr_right fun _ => and_congr_right fun owner => ?_
  rw [isValid_congr (owner ▸ same)]

/-- Whether a token of the object is valid when its turn comes can be told before the first turn. -/
theorem strikes_iff_struck : h.Strikes o ts ↔ h.Struck ts o := by
  induction ts generalizing h with
  | nil => simp [not_strikes_nil, Struck]
  | cons t ts ih =>
    rw [strikes_cons, ih, struck_cons]
    by_cases first : t.owner = o ∧ h.isValid t
    · simp [first]
    · -- the count of the object stands, and with it the validity of its tokens
      have count : (h.invalidate t).changes o = h.changes o := by
        rw [changes_invalidate, if_neg fun struck => first struck.1]
      rw [struck_congr count]

/-- The first valid token of an object leaves no other of them valid. -/
theorem not_struck_invalidate (struck : t.owner = o ∧ h.isValid t) (present : h.contains o)
    (issued : ∀ s ∈ ts, s.owner = o → s.issued.toNat ≤ h.changes o)
    (few : h.changes o + 1 < UInt64.size) : ¬ (h.invalidate t).Struck ts o := by
  have count : (h.invalidate t).changes o = h.changes o + 1 := by
    rw [changes_invalidate, if_pos ⟨struck, present⟩]
  rintro ⟨s, mem, rfl, valid⟩
  have older := issued s mem rfl
  rw [isValid_iff (by omega)] at valid
  omega

/-- What becomes of an object when a group of tokens is invalidated. -/
theorem get?_invalidateAll_eq (present : h.contains o)
    (issued : ∀ t ∈ ts, t.owner = o → t.issued.toNat ≤ h.changes o)
    (few : h.changes o + 1 < UInt64.size) :
    (h.invalidateAll ts).get? o = (h.get? o).map fun object =>
      { object with changes := object.changes + if h.Struck ts o then 1 else 0 } := by
  induction ts generalizing h with
  | nil => simp [invalidateAll, Struck]
  | cons t ts ih =>
    have later : ∀ s ∈ ts, s.owner = o → s.issued.toNat ≤ h.changes o := fun s mem =>
      issued s (List.mem_cons_of_mem t mem)
    change ((h.invalidate t).invalidateAll ts).get? o = _
    by_cases first : t.owner = o ∧ h.isValid t
    · have struck : h.Struck (t :: ts) o := struck_cons.mpr (.inl first)
      have spared := not_struck_invalidate first present later few
      rw [get?_invalidateAll (mt strikes_iff_struck.mp spared), invalidate, if_pos first.2,
        get?_advance]
      simp only [first.1, struck, if_true]
    · have count : (h.invalidate t).changes o = h.changes o := by
        rw [changes_invalidate, if_neg fun struck => first struck.1]
      have kept : (h.invalidate t).contains o := by rwa [contains, size_invalidate]
      have struck : (h.invalidate t).Struck ts o ↔ h.Struck (t :: ts) o := by
        rw [struck_congr count, struck_cons, or_iff_right first]
      rw [ih kept (by rwa [count]) (by rwa [count]), get?_invalidate first]
      simp only [struck]

theorem layouts_invalidateAll (h : Heap) (ts : List Token) :
    (h.invalidateAll ts).layouts = h.layouts := by
  induction ts generalizing h with
  | nil => rfl
  | cons t ts ih =>
    refine (ih (h.invalidate t)).trans ?_
    unfold invalidate
    split <;> rfl

/-- Heaps with the same layouts and the same objects are the same. -/
theorem eq_of_get? (layouts : h.layouts = h'.layouts) (get : ∀ o, h.get? o = h'.get? o) :
    h = h' := by
  obtain ⟨objects, tree⟩ := h
  obtain ⟨objects', tree'⟩ := h'
  obtain rfl : tree = tree' := layouts
  obtain rfl : objects = objects' := Array.ext_getElem? get
  rfl

/-! ## Groups -/

/-- Invalidating a group of tokens counts one change of each object of which it has a valid token,
and does nothing else; so neither the order of the group matters, nor how often a token is in it,
nor whether it is done again. -/
structure InvalidatesOnce (h : Heap) (ts : List Token) : Prop where
  changes : ∀ o, h.contains o →
    (h.invalidateAll ts).changes o = h.changes o + if h.Struck ts o then 1 else 0
  generation : ∀ o, h.contains o → ((h.invalidateAll ts).generation o).toNat =
    (h.generation o).toNat + if h.Struck ts o then 1 else 0
  /-- Nothing of an object changes but its count. -/
  objects : ∀ o, h.contains o → (h.invalidateAll ts).get? o = (h.get? o).map fun object =>
    { object with changes := object.changes + if h.Struck ts o then 1 else 0 }
  stale : ∀ t ∈ ts, ¬ (h.invalidateAll ts).isValid t
  sameMembers : ∀ ts', (∀ t, t ∈ ts' ↔ t ∈ ts) → h.invalidateAll ts' = h.invalidateAll ts
  perm : ∀ ts', ts'.Perm ts → h.invalidateAll ts' = h.invalidateAll ts
  dedup : h.invalidateAll ts.dedup = h.invalidateAll ts
  again : (h.invalidateAll ts).invalidateAll ts = h.invalidateAll ts

theorem contains_invalidateAll (h : Heap) (ts : List Token) (o : ObjectId) :
    (h.invalidateAll ts).contains o = h.contains o := by
  rw [contains, contains, size_invalidateAll]

theorem get?_eq_none (missing : ¬ h.contains o) : h.get? o = none :=
  Option.eq_none_iff_forall_ne_some.mpr fun _ found => missing (contains_of_get? found)

theorem toNat_generation (few : h.changes o < UInt64.size) :
    (h.generation o).toNat = h.changes o := by
  rw [generation, UInt64.toNat_ofNat', Nat.mod_eq_of_lt few]

section

variable (issued : ∀ t ∈ ts, h.Issued t) (few : ∀ o, h.changes o + 1 < UInt64.size)
include issued few

theorem get?_invalidateAll_of_issued (present : h.contains o) :
    (h.invalidateAll ts).get? o = (h.get? o).map fun object =>
      { object with changes := object.changes + if h.Struck ts o then 1 else 0 } :=
  get?_invalidateAll_eq present (fun t mem owner => owner ▸ (issued t mem).le) (few o)

theorem changes_invalidateAll (present : h.contains o) :
    (h.invalidateAll ts).changes o = h.changes o + if h.Struck ts o then 1 else 0 := by
  obtain ⟨object, found⟩ := contains_iff.mp present
  simp only [Heap.changes, get?_invalidateAll_of_issued issued few present, found, Option.map_some,
    Option.getD_some]

/-- The result is told by which tokens are in the group. -/
theorem invalidateAll_congr (members : ∀ t, t ∈ ts' ↔ t ∈ ts) :
    h.invalidateAll ts' = h.invalidateAll ts := by
  refine eq_of_get? (by rw [layouts_invalidateAll, layouts_invalidateAll]) fun o => ?_
  by_cases present : h.contains o
  · have struck : h.Struck ts' o ↔ h.Struck ts o := by simp [Struck, members]
    have issued' : ∀ t ∈ ts', h.Issued t := fun t mem => issued t ((members t).mp mem)
    rw [get?_invalidateAll_of_issued issued few present,
      get?_invalidateAll_of_issued issued' few present]
    simp only [struck]
  · rw [get?_eq_none (by rwa [contains_invalidateAll]),
      get?_eq_none (by rwa [contains_invalidateAll])]

/-- A token is stale when its turn is over, and stays so to the end of the group. -/
theorem not_isValid_invalidateAll {t : Token} (mem : t ∈ ts) :
    ¬ (h.invalidateAll ts).isValid t := by
  have count := changes_invalidateAll issued few (issued t mem).contains
  have older := (issued t mem).le
  have enough := few t.owner
  rw [isValid_iff (by split at count <;> omega), count]
  by_cases valid : h.isValid t
  · rw [if_pos ⟨t, mem, rfl, valid⟩]
    omega
  · rw [isValid_iff (by omega)] at valid
    omega

theorem invalidatesOnce : h.InvalidatesOnce ts where
  changes := fun _ present => changes_invalidateAll issued few present
  generation := by
    intro o present
    have count := changes_invalidateAll issued few present
    have enough := few o
    rw [toNat_generation (by split at count <;> omega), toNat_generation (by omega), count]
  objects := fun _ present => get?_invalidateAll_of_issued issued few present
  stale := fun _ mem => not_isValid_invalidateAll issued few mem
  sameMembers := fun _ members => invalidateAll_congr issued few members
  perm := fun _ perm => invalidateAll_congr issued few fun _ => perm.mem_iff
  dedup := invalidateAll_congr issued few fun _ => List.mem_dedup
  again := invalidateAll_of_stale _ fun _ mem => not_isValid_invalidateAll issued few mem

end

end Heap

/-- Native code has objects, units and tokens of any kind, and is anywhere on its way. A group of
tokens that were issued on this way, stale ones and repeated ones with them, is invalidated. While
no count is about to come round, each object of which the group has a valid token is counted once,
and no other. -/
theorem invalidatesOnce_reached (p : Native) (reads : PropertyReads) (n : Nat) (h : Heap)
    (reached : ((Machine.running .empty p).steps reads n).world.heap = h) (ts : List Token)
    (issued : ∀ t ∈ ts, ∃ m ≤ n, ∃ o,
      ((Machine.running .empty p).steps reads m).world.heap.contains o ∧
      t = ((Machine.running .empty p).steps reads m).world.heap.token o)
    (few : ∀ o, h.changes o < UInt64.size - 1) : h.InvalidatesOnce ts := by
  refine Heap.invalidatesOnce (fun t mem => ?_) fun o => ?_
  · obtain ⟨m, before, o, present, rfl⟩ := issued t mem
    obtain ⟨k, rfl⟩ := Nat.exists_eq_add_of_le before
    have evolves := (Machine.leads_steps (Machine.sound_running_empty p reads m) reads k).world.heap
    rw [← Machine.steps_add, reached] at evolves
    exact ⟨_, evolves, present, rfl⟩
  · have := few o
    omega

/-- A key is set on the first of two objects, between the times at which tokens are issued. -/
def changedOnce : Native :=
  .perform (.newObject none) fun o =>
  .perform (.newObject none) fun _ =>
  .perform (.set o "x" .undefined) fun _ =>
  .done (.ok .undefined)

/-- The heap after some steps of that. -/
def changedOnceHeap (n : Nat) : Heap :=
  ((Machine.running .empty changedOnce).steps .cached n).world.heap

/-- A stale token of the first object, its valid one twice, and a token of the second one. -/
def mixedTokens : List Token := [⟨0, 0⟩, ⟨0, 1⟩, ⟨1, 0⟩, ⟨0, 1⟩]

theorem invalidatesOnce_reached_mixed :
    (changedOnceHeap 3).InvalidatesOnce mixedTokens ∧
      ((changedOnceHeap 3).invalidateAll mixedTokens).changes 0 = 2 ∧
      ((changedOnceHeap 3).invalidateAll mixedTokens).changes 1 = 1 := by
  have issued : ∀ t ∈ mixedTokens, ∃ m ≤ 3, ∃ o, (changedOnceHeap m).contains o ∧
      t = (changedOnceHeap m).token o := by
    have early : (changedOnceHeap 2).contains 0 ∧ ⟨0, 0⟩ = (changedOnceHeap 2).token 0 := by cbv
    have late : (changedOnceHeap 3).contains 0 ∧ ⟨0, 1⟩ = (changedOnceHeap 3).token 0 := by cbv
    have second : (changedOnceHeap 3).contains 1 ∧ ⟨1, 0⟩ = (changedOnceHeap 3).token 1 := by cbv
    intro t mem
    simp only [mixedTokens, List.mem_cons, List.not_mem_nil, or_false] at mem
    rcases mem with rfl | rfl | rfl | rfl
    · exact ⟨2, by decide, 0, early⟩
    · exact ⟨3, by decide, 0, late⟩
    · exact ⟨3, by decide, 1, second⟩
    · exact ⟨3, by decide, 0, late⟩
  have few : ∀ o, (changedOnceHeap 3).changes o < UInt64.size - 1 := by
    have size : (changedOnceHeap 3).size = 2 := by cbv
    have first : (changedOnceHeap 3).changes 0 = 1 := by cbv
    have second : (changedOnceHeap 3).changes 1 = 0 := by cbv
    intro o
    rcases o with _ | _ | o
    · rw [first]
      decide
    · rw [second]
      decide
    · have missing : ¬ (changedOnceHeap 3).contains (o + 2) := by
        simp [Heap.contains, size]
      rw [Heap.changes, Heap.get?_eq_none missing]
      decide
  refine ⟨?_, by cbv, by cbv⟩
  exact invalidatesOnce_reached changedOnce .cached 3 (changedOnceHeap 3) rfl mixedTokens issued few

end ProtoVM
