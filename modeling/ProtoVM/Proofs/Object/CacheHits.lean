import ProtoVM.Proofs.Object.Inheritance
import ProtoVM.Proofs.Object.TokenRuns

/-!
# Hits of property caches

A cache counts a hit when the guards of its entry hold, and a miss otherwise. What the entry of a
miss guards is known: the layout of the receiver if the key is its own, and else the receiver and
the counts of changes of all objects that were passed. So it can be told from the two heaps alone
which lookups it will answer (`PropertyCache.guarded_resolve_iff`).
-/

namespace ProtoVM

variable {h h' : Heap} {key : String} {r r₀ : ObjectId}

/-! ## Guards -/

/-- The guards of an entry hold for a receiver. -/
def Resolution.Guarded (h : Heap) (receiver : ObjectId) : Resolution → Prop
  | own layout _ => h.layout? receiver = some layout
  | inherited cached guards _ _ => cached = receiver ∧ guards.all h.isValid
  | absent cached guards => cached = receiver ∧ guards.all h.isValid

/-- Nothing but the guards keeps an entry from answering. -/
theorem Resolution.isSome_answer?_iff (sound : h.Sound) {e : Resolution} (holds : e.Holds key h) :
    (e.answer? h r).isSome ↔ e.Guarded h r := by
  cases e with
  | own layout slot =>
    obtain ⟨keys, lists, found⟩ := holds
    by_cases same : h.layout? r = some layout
    · have there : h.slotOf? r key = some slot := by
        rw [Heap.slotOf?_eq_of_layout? same lists, found]
      obtain ⟨v, hv⟩ := Heap.exists_atSlot? sound there
      simp [answer?, Guarded, same, hv]
    · simp [answer?, Guarded, same]
  | inherited cached guards holder slot =>
    obtain ⟨-, -, -, found⟩ := holds
    obtain ⟨v, hv⟩ := Heap.exists_atSlot? sound found
    rw [answer?, hv]
    exact Option.isSome_ite
  | absent cached guards => exact Option.isSome_ite

/-- An object that has the key is where the walk ends at once. -/
theorem Heap.passed_eq_nil_iff : h.passed key r = [] ↔ key ∈ h.keys r := by
  obtain ⟨rest, chain⟩ := h.exists_chain_eq_cons r
  rw [passed, chain, ← not_iff_not, ← slotOf?_eq_none_iff]
  cases found : h.slotOf? r key <;> simp [found]

namespace PropertyCache

variable {c : PropertyCache}

/-- The entry of a miss guards the layout of a receiver that has the key itself. -/
theorem guarded_resolve_of_own (present : h.contains r₀) (own : key ∈ h.keys r₀) :
    (resolve key h r₀).2.Guarded h' r ↔ h'.layout? r = h.layout? r₀ := by
  have first := Heap.passed_eq_nil_iff.mpr own
  obtain ⟨rest, chain⟩ := h.exists_chain_eq_cons r₀
  have ahead : (h.chain r₀).drop (h.passed key r₀).length = r₀ :: rest := by simp [first, chain]
  obtain ⟨slot, found⟩ := Heap.exists_slotOf?_of_drop ahead
  obtain ⟨object, there⟩ := Heap.contains_iff.mp present
  simp [resolve_of_own ahead found first, Resolution.Guarded, Heap.layout?, there]

/-- The entry of another miss guards the receiver and the counts of all objects that were passed. -/
theorem guarded_resolve_of_passed (missing : key ∉ h.keys r₀) (ev : h.Evolves h')
    (bounded : h'.Bounded) :
    (resolve key h r₀).2.Guarded h' r ↔
      r = r₀ ∧ ∀ o ∈ h.passed key r₀, h'.changes o = h.changes o := by
  have valid : (h.guards key r₀).all h'.isValid ↔
      ∀ o ∈ h.passed key r₀, h'.changes o = h.changes o := by
    simp only [Heap.guards, List.all_map, List.all_eq_true, Function.comp_apply]
    refine forall₂_congr fun o _ => Heap.isValid_token_iff (ev.changes_le o) ?_
    have few := bounded o
    omega
  have later : h.passed key r₀ ≠ [] := by rwa [ne_eq, Heap.passed_eq_nil_iff]
  cases ahead : (h.chain r₀).drop (h.passed key r₀).length with
  | nil => simp only [resolve_of_absent ahead, Resolution.Guarded, valid, eq_comm]
  | cons holder rest =>
    obtain ⟨slot, found⟩ := Heap.exists_slotOf?_of_drop ahead
    simp only [resolve_of_inherited ahead found later, Resolution.Guarded, valid, eq_comm]

/-- What a miss remembers of the first heap is still good for a receiver in the second one. -/
def Remains (key : String) (h : Heap) (r₀ : ObjectId) (h' : Heap) (r : ObjectId) : Prop :=
  if key ∈ h.keys r₀ then h'.layout? r = h.layout? r₀
  else r = r₀ ∧ ∀ o ∈ h.passed key r₀, h'.changes o = h.changes o

theorem guarded_resolve_iff (present : h.contains r₀) (ev : h.Evolves h') (bounded : h'.Bounded) :
    (resolve key h r₀).2.Guarded h' r ↔ Remains key h r₀ h' r := by
  unfold Remains
  by_cases own : key ∈ h.keys r₀
  · rw [if_pos own]
    exact guarded_resolve_of_own present own
  · rw [if_neg own]
    exact guarded_resolve_of_passed own ev bounded

theorem remains_self (key : String) (h : Heap) (r : ObjectId) : Remains key h r h r := by
  unfold Remains
  split <;> simp

/-! ## Hits and misses -/

/-- The lookup is counted as a hit. -/
def Hits (c : PropertyCache) (h : Heap) (r : ObjectId) : Prop := c.hits < (c.lookup h r).2.hits

/-- The lookup is counted as a miss. -/
def Misses (c : PropertyCache) (h : Heap) (r : ObjectId) : Prop :=
  c.misses < (c.lookup h r).2.misses

instance : Decidable (c.Hits h r) := inferInstanceAs (Decidable (_ < _))

instance : Decidable (c.Misses h r) := inferInstanceAs (Decidable (_ < _))

/-- A lookup is a hit or a miss. A hit leaves the entry, and a miss puts another one in its
place. -/
theorem lookup_cases (c : PropertyCache) (h : Heap) (r : ObjectId) :
    (c.Hits h r ∧ ¬ c.Misses h r ∧ (∃ e, c.entry = some e ∧ (e.answer? h r).isSome) ∧
        (c.lookup h r).2 = { c with hits := c.hits + 1 }) ∨
      (¬ c.Hits h r ∧ c.Misses h r ∧ (∀ e, c.entry = some e → (e.answer? h r) = none) ∧
        (c.lookup h r).2 =
          { c with entry := some (resolve c.key h r).2, misses := c.misses + 1 }) := by
  unfold Hits Misses lookup
  cases answered : c.entry.bind (·.answer? h r) with
  | some v =>
    obtain ⟨e, entry, answer⟩ := Option.bind_eq_some_iff.mp answered
    exact .inl ⟨by simp, by simp, ⟨e, entry, by simp [answer]⟩, rfl⟩
  | none =>
    refine .inr ⟨by simp, by simp, ?_, rfl⟩
    intro e entry
    simpa [entry] using answered

theorem hits_iff (sound : h.Sound) (cache : c.Sound h) :
    c.Hits h r ↔ ∃ e, c.entry = some e ∧ e.Guarded h r := by
  rcases c.lookup_cases h r with ⟨hit, -, ⟨e, entry, answer⟩, -⟩ | ⟨miss, -, refused, -⟩
  · have guarded := (Resolution.isSome_answer?_iff sound (cache e entry)).mp answer
    exact iff_of_true hit ⟨e, entry, guarded⟩
  · refine iff_of_false miss ?_
    rintro ⟨e, entry, guarded⟩
    rw [← Resolution.isSome_answer?_iff sound (cache e entry), refused e entry] at guarded
    cases guarded

/-- Looking up on the same receiver once more is a hit. -/
theorem hits_lookup (sound : h.Sound) (bounded : h.Bounded) (cache : c.Sound h)
    (present : h.contains r) : (c.lookup h r).2.Hits h r := by
  rw [hits_iff sound (sound_lookup cache sound present)]
  rcases c.lookup_cases h r with ⟨hit, -, -, same⟩ | ⟨-, -, -, same⟩
  · rw [same]
    exact (hits_iff sound cache).mp hit
  · rw [same]
    refine ⟨_, rfl, ?_⟩
    rw [guarded_resolve_iff present .refl bounded]
    exact remains_self c.key h r

end PropertyCache

end ProtoVM
