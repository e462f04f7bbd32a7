import ProtoVM.Proofs.Object.HeapOperations

/-!
# Hidden objects

A heap hides objects when no property holds one of them and none is a prototype (`Heap.Hides`). Then
nothing that is read from the heap is one. An operation that is handed only other objects keeps
them hidden and leaves them as they are (`Heap.Seals`).
-/

namespace ProtoVM

/-- The value is none of the secret objects. -/
def Value.Avoids (secret : ObjectId → Prop) (v : Value) : Prop :=
  ∀ o, v.asObject? = some o → ¬ secret o

theorem Value.avoids_object {secret : ObjectId → Prop} {o : ObjectId} (notSecret : ¬ secret o) :
    (Value.object o).Avoids secret := by
  rintro p ⟨⟩
  exact notSecret

namespace Heap

/-- No property holds a secret object, and no object inherits from one. -/
structure Hides (secret : ObjectId → Prop) (h : Heap) : Prop where
  values : h.Holds (Value.Avoids secret)
  protos : ∀ o object p, h.get? o = some object → object.proto = some p → ¬ secret p

/-- The second heap hides the secret objects, and those that were there are as they were. -/
structure Seals (secret : ObjectId → Prop) (h h' : Heap) : Prop where
  hides : h'.Hides secret
  spares : ∀ o, secret o → h.contains o → h'.get? o = h.get? o

variable {secret : ObjectId → Prop} {h h' : Heap} {o : ObjectId}

theorem hides_empty : empty.Hides secret where
  values := fun _ _ found => nomatch found
  protos := fun _ _ _ found => nomatch found

/-- An object that is not there yet can be kept secret. -/
theorem Hides.insert (hides : h.Hides secret) (sound : h.Sound) {s : ObjectId}
    (absent : ¬ h.contains s) : h.Hides fun o => secret o ∨ o = s where
  values := by
    rintro o object found v mem p same (old | rfl)
    · exact hides.values o object found v mem p same old
    · have present := sound.values o object found v mem
      rw [closed, same] at present
      exact absent present
  protos := by
    rintro o object p found proto (old | rfl)
    · exact hides.protos o object p found proto old
    · have older := sound.protos o object p found proto
      have present := contains_of_get? found
      rw [contains, decide_eq_true_iff] at present absent
      exact absent (Nat.lt_trans older present)

theorem Seals.refl (hides : h.Hides secret) : h.Seals secret h := ⟨hides, fun _ _ _ => rfl⟩

theorem Seals.trans {a b c : Heap} (hab : a.Seals secret b) (hbc : b.Seals secret c) :
    a.Seals secret c where
  hides := hbc.hides
  spares := by
    intro o hidden present
    have same := hab.spares o hidden present
    have later : b.contains o := by
      rw [contains_iff, same]
      exact contains_iff.mp present
    rw [hbc.spares o hidden later, same]

/-! ## New objects -/

theorem seals_alloc (hides : h.Hides secret) {kind : ObjectKind} {proto : Option ObjectId}
    {hd : Handle} (reveals : ∀ p, proto = some p → ¬ secret p) :
    h.Seals secret (h.alloc kind proto hd).2 := by
  refine ⟨⟨?_, ?_⟩, ?_⟩
  · intro o object found v mem
    rw [get?_alloc] at found
    by_cases new : o = h.size
    · rw [if_pos new] at found
      cases found
      cases mem
    · rw [if_neg new] at found
      exact hides.values o object found v mem
  · intro o object p found same
    rw [get?_alloc] at found
    by_cases new : o = h.size
    · rw [if_pos new] at found
      cases found
      exact reveals p same
    · rw [if_neg new] at found
      exact hides.protos o object p found same
  · intro o hidden present
    obtain ⟨object, found⟩ := contains_iff.mp present
    rw [get?_alloc, if_neg (ne_size_of_get? found)]

/-! ## Setting keys -/

/-- The objects of the second heap are objects of the first one that may hold other values. -/
theorem Hides.of_each (hides : h.Hides secret)
    (before : ∀ p b, h'.get? p = some b → ∃ a, h.get? p = some a ∧ b.proto = a.proto ∧
      ∀ v ∈ b.store.values, v.Avoids secret ∨ v ∈ a.store.values) : h'.Hides secret where
  values := by
    intro p b found v mem
    obtain ⟨a, ha, -, values⟩ := before p b found
    rcases values v mem with avoids | mem
    · exact avoids
    · exact hides.values p a ha v mem
  protos := by
    intro p b q found same
    obtain ⟨a, ha, proto, -⟩ := before p b found
    exact hides.protos p a q ha (proto ▸ same)

theorem hides_set (hides : h.Hides secret) {key : String} {value : Value}
    (avoids : value.Avoids secret) : (h.set o key value).Hides secret := by
  refine hides.of_each fun p b found => ?_
  rw [get?_set] at found
  obtain ⟨a, ha, rfl⟩ := Option.map_eq_some_iff.mp found
  refine ⟨a, ha, ?_⟩
  by_cases here : p = o
  · rw [if_pos here]
    refine ⟨rfl, fun v mem => ?_⟩
    rcases Store.mem_values_insert mem with rfl | mem
    · exact .inl avoids
    · exact .inr mem
  · rw [if_neg here]
    exact ⟨rfl, fun v mem => .inr mem⟩

/-- No other object is touched. -/
theorem get?_set_of_ne {key : String} {value : Value} {p : ObjectId} (other : p ≠ o) :
    (h.set o key value).get? p = h.get? p := by
  rw [get?_set]
  simp only [if_neg other]
  exact Option.map_id'

theorem seals_set (hides : h.Hides secret) (notSecret : ¬ secret o) {key : String} {value : Value}
    (avoids : value.Avoids secret) : h.Seals secret (h.set o key value) where
  hides := hides_set hides avoids
  spares := by
    intro p hidden _
    refine get?_set_of_ne ?_
    rintro rfl
    exact notSecret hidden

theorem hides_setAll (hides : h.Hides secret) (entries : List (String × Value))
    (avoids : ∀ entry ∈ entries, entry.2.Avoids secret) : (h.setAll o entries).Hides secret := by
  induction entries generalizing h with
  | nil => exact hides
  | cons entry entries ih =>
    exact ih (hides_set hides (avoids entry List.mem_cons_self)) fun later mem =>
      avoids later (List.mem_cons_of_mem _ mem)

theorem get?_setAll_of_ne (entries : List (String × Value)) {p : ObjectId} (other : p ≠ o) :
    (h.setAll o entries).get? p = h.get? p := by
  induction entries generalizing h with
  | nil => rfl
  | cons entry entries ih =>
    have later : ((h.set o entry.1 entry.2).setAll o entries).get? p =
        (h.set o entry.1 entry.2).get? p := ih
    exact later.trans (get?_set_of_ne other)

theorem seals_setAll (hides : h.Hides secret) (notSecret : ¬ secret o)
    (entries : List (String × Value)) (avoids : ∀ entry ∈ entries, entry.2.Avoids secret) :
    h.Seals secret (h.setAll o entries) where
  hides := hides_setAll hides entries avoids
  spares := by
    intro p hidden _
    refine get?_setAll_of_ne entries ?_
    rintro rfl
    exact notSecret hidden

/-! ## Making objects -/

theorem seals_newFunction (hides : h.Hides secret) (fresh : ¬ secret h.size) (name : String)
    (hd : Handle) : h.Seals secret (h.newFunction name hd).2 := by
  have made : h.Seals secret (h.alloc (.function name) none hd).2 :=
    seals_alloc hides fun _ none => nomatch none
  exact made.trans (seals_set made.hides fresh (Value.avoids_object fresh))

/-- What is read of an object that has no secrets. -/
theorem avoids_of_mem_entries (hides : h.Hides secret) {entry : String × Value}
    (mem : entry ∈ h.entries o) : entry.2.Avoids secret := by
  rw [entries] at mem
  cases found : h.get? o with
  | none =>
    rw [found] at mem
    cases mem
  | some object =>
    rw [found] at mem
    exact hides.values o object found entry.2 (List.of_mem_zip mem).2

theorem seals_map (hides : h.Hides secret) (fresh : ¬ secret h.size) {f : Value → Value}
    (avoids : ∀ v, v.Avoids secret → (f v).Avoids secret) : h.Seals secret (h.map o f).2 := by
  have made : h.Seals secret (h.newObject none).2 := seals_alloc hides fun _ none => nomatch none
  refine made.trans (seals_setAll made.hides fresh _ ?_)
  intro entry mem
  obtain ⟨old, hold, rfl⟩ := List.mem_map.mp mem
  exact avoids old.2 (avoids_of_mem_entries hides hold)

/-! ## Tokens -/

theorem seals_advance (hides : h.Hides secret) (notSecret : ¬ secret o) :
    h.Seals secret (h.advance o) where
  hides := by
    refine hides.of_each fun p b found => ?_
    rw [get?_advance] at found
    obtain ⟨a, ha, rfl⟩ := Option.map_eq_some_iff.mp found
    refine ⟨a, ha, ?_⟩
    split <;> exact ⟨rfl, fun v mem => .inr mem⟩
  spares := by
    intro p hidden _
    have other : p ≠ o := by
      rintro rfl
      exact notSecret hidden
    rw [get?_advance]
    simp only [if_neg other]
    exact Option.map_id'

theorem seals_invalidate (hides : h.Hides secret) {t : Token} (notSecret : ¬ secret t.owner) :
    h.Seals secret (h.invalidate t) := by
  rw [invalidate]
  by_cases valid : h.isValid t
  · rw [if_pos valid]
    exact seals_advance hides notSecret
  · rw [if_neg valid]
    exact .refl hides

theorem seals_invalidateAll (hides : h.Hides secret) (ts : List Token)
    (notSecret : ∀ t ∈ ts, ¬ secret t.owner) : h.Seals secret (h.invalidateAll ts) := by
  induction ts generalizing h with
  | nil => exact .refl hides
  | cons t ts ih =>
    have first : h.Seals secret (h.invalidate t) :=
      seals_invalidate hides (notSecret t List.mem_cons_self)
    exact first.trans (ih first.hides fun later mem => notSecret later (List.mem_cons_of_mem _ mem))

end Heap

end ProtoVM
