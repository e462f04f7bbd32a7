import ProtoVM.Proofs.Object.HeapGrowth

/-!
# Operations on heaps

Everything that a session does to its heap leads to a sound heap that comes after it. What is read
from a heap is what its objects hold.
-/

namespace ProtoVM.Heap

variable {made : Handle} {h h' : Heap} {o : ObjectId}

/-! ## What is read -/

/-- Every value that the objects of a heap hold is good. -/
def Holds (good : Value → Prop) (h : Heap) : Prop :=
  ∀ o object, h.get? o = some object → ∀ v ∈ object.store.values, good v

section

variable {good : Value → Prop} (holds : h.Holds good)
include holds

theorem Holds.atSlot? {slot : Nat} {v : Value} (found : h.atSlot? o slot = some v) : good v := by
  rw [Heap.atSlot?] at found
  obtain ⟨object, ho, hv⟩ := Option.bind_eq_some_iff.mp found
  exact holds o object ho v (List.mem_of_getElem? hv)

theorem Holds.getOwn? {key : String} {v : Value} (found : h.getOwn? o key = some v) : good v := by
  obtain ⟨object, ho, hv⟩ := Option.bind_eq_some_iff.mp found
  obtain ⟨slot, -, hslot⟩ := Option.bind_eq_some_iff.mp hv
  exact holds o object ho v (List.mem_of_getElem? hslot)

theorem Holds.lookup (undefined : good .undefined) (o : ObjectId) (key : String) :
    good (h.lookup o key) := by
  rw [Heap.lookup]
  cases found : (h.chain o).findSome? (h.getOwn? · key) with
  | none => exact undefined
  | some v =>
    obtain ⟨p, -, hp⟩ := List.exists_of_findSome?_eq_some found
    exact holds.getOwn? hp

end

/-! ## Setting keys -/

theorem leads_setAll (sound : h.Sound) (entries : List (String × Value))
    (closed : ∀ entry ∈ entries, h.closed entry.2) : h.Leads made (h.setAll o entries) := by
  induction entries generalizing h with
  | nil => exact .refl sound
  | cons entry entries ih =>
    have first : h.Leads made (h.set o entry.1 entry.2) :=
      leads_set sound (closed entry List.mem_cons_self)
    refine first.trans (ih first.sound ?_)
    intro later mem
    exact first.evolves.closed (closed later (List.mem_cons_of_mem _ mem))

/-! ## Making objects -/

theorem leads_newObject (sound : h.Sound) {proto : Option ObjectId}
    (older : ∀ p, proto = some p → h.contains p) : h.Leads .inert (h.newObject proto).2 :=
  leads_alloc sound older

theorem leads_newScope (sound : h.Sound) {parent : Option ObjectId}
    (older : ∀ p, parent = some p → h.contains p) : h.Leads .inert (h.newScope parent).2 :=
  leads_alloc sound older

theorem leads_newFunction (sound : h.Sound) (name : String) (hd : Handle) :
    h.Leads hd (h.newFunction name hd).2 := by
  have made : h.Leads hd (h.alloc (.function name) none hd).2 :=
    leads_alloc sound fun _ hp => nomatch hp
  refine made.trans (leads_set made.sound ?_)
  exact contains_alloc_self

/-- A new function is called by the handle that it was made with. -/
theorem handle_newFunction (h : Heap) (name : String) (hd : Handle) :
    (h.newFunction name hd).2.handle (h.newFunction name hd).1 = hd := by
  rw [newFunction, handle_set, handle_alloc]
  exact if_pos rfl

theorem contains_newFunction (h : Heap) (name : String) (hd : Handle) :
    (h.newFunction name hd).2.contains (h.newFunction name hd).1 := by
  rw [contains_iff]
  show ∃ object, ((h.alloc (.function name) none hd).2.set h.size "apply"
    (.object h.size)).get? h.size = some object
  rw [get?_set, get?_alloc, if_pos rfl]
  exact ⟨_, rfl⟩

theorem size_alloc (h : Heap) (kind : ObjectKind) (proto : Option ObjectId) (hd : Handle) :
    (h.alloc kind proto hd).2.size = h.size + 1 := Array.size_push ..

theorem size_newFunction (h : Heap) (name : String) (hd : Handle) :
    (h.newFunction name hd).2.size = h.size + 1 := by
  rw [newFunction, size_set, size_alloc]

theorem grows_set (h : Heap) (o : ObjectId) (key : String) (value : Value) :
    h.layouts.Grows (h.set o key value).layouts := by
  cases found : h.get? o with
  | none =>
    rw [set_of_get?_eq_none found]
    exact .refl _
  | some object =>
    rw [layouts_set_of_get? found]
    exact Store.grows_insert

theorem grows_newFunction (h : Heap) (name : String) (hd : Handle) :
    h.layouts.Grows (h.newFunction name hd).2.layouts :=
  (h.alloc (.function name) none hd).2.grows_set h.size "apply" (.object h.size)

/-- A new function leaves every object as it is. -/
theorem get?_newFunction (present : h.contains o) (name : String) (hd : Handle) :
    (h.newFunction name hd).2.get? o = h.get? o := by
  have older : o ≠ h.size := by
    rintro rfl
    exact h.not_contains_size present
  show ((h.alloc (.function name) none hd).2.set h.size "apply" (.object h.size)).get? o = h.get? o
  rw [get?_set, get?_alloc, if_neg older]
  simp [older]

section

variable (sound : h.Sound) {f : Value → Value}
  (closed : ∀ entry ∈ h.entries o, h.closed (f entry.2))
include sound closed

/-- The mapped entries are set on the new object. -/
theorem leads_map_setAll :
    (h.newObject none).2.Leads .inert (h.map o f).2 := by
  have made : h.Leads .inert (h.newObject none).2 := leads_newObject sound fun _ hp => nomatch hp
  refine leads_setAll made.sound _ ?_
  intro entry mem
  obtain ⟨old, hold, rfl⟩ := List.mem_map.mp mem
  exact made.evolves.closed (closed old hold)

theorem leads_map : h.Leads .inert (h.map o f).2 := by
  have made : h.Leads .inert (h.newObject none).2 := leads_newObject sound fun _ hp => nomatch hp
  exact made.trans (leads_map_setAll sound closed)

theorem contains_map : (h.map o f).2.contains (h.map o f).1 :=
  (leads_map_setAll sound closed).evolves.contains contains_alloc_self

end

/-! ## Tokens -/

theorem leads_invalidate (sound : h.Sound) (t : Token) : h.Leads made (h.invalidate t) := by
  rw [invalidate]
  by_cases valid : h.isValid t
  · rw [if_pos valid]
    exact leads_advance sound
  · rw [if_neg valid]
    exact .refl sound

theorem leads_invalidateAll (sound : h.Sound) (ts : List Token) :
    h.Leads made (h.invalidateAll ts) := by
  induction ts generalizing h with
  | nil => exact .refl sound
  | cons t ts ih =>
    have first : h.Leads made (h.invalidate t) := leads_invalidate sound t
    exact first.trans (ih first.sound)

theorem sound_empty : empty.Sound where
  layouts := LayoutTree.sound_empty
  stores := fun _ _ found => nomatch found
  protos := fun _ _ _ found => nomatch found
  values := fun _ _ found => nomatch found

end ProtoVM.Heap
