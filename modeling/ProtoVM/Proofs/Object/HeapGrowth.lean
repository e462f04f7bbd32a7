import ProtoVM.Object.Heap
import ProtoVM.Proofs.Layout.Growth

/-!
# Growing heaps

What holds of every heap that a session makes (`Heap.Sound`), and what never changes again once it
is there (`Heap.Evolves`): objects stay, with their kinds, prototypes and handles; a key that an
object has keeps its slot; and an object gets no new key without a change being counted. The three
things that ever happen to a heap, a new object, a key that is set and a change that is counted,
lead to a sound heap that comes after (`Heap.Leads`).
-/

namespace ProtoVM

/-! ## Stores -/

namespace Store

/-- There is a value for each key of the layout. -/
def Sound (t : LayoutTree) (s : Store) : Prop :=
  ∃ keys, t.Lists s.layout keys ∧ s.values.length = keys.length

theorem Sound.mono {t t' : LayoutTree} {s : Store} (grows : t.Grows t') (h : s.Sound t) :
    s.Sound t' := by
  obtain ⟨keys, lists, length⟩ := h
  exact ⟨keys, grows _ _ lists, length⟩

theorem slotOf?_mono {t t' : LayoutTree} {s : Store} (grows : t.Grows t') (h : s.Sound t)
    (key : String) : s.slotOf? t' key = s.slotOf? t key := by
  obtain ⟨keys, lists, -⟩ := h
  rw [slotOf?, slotOf?, LayoutTree.slotOf?, LayoutTree.slotOf?, lists.keys,
    (grows _ _ lists).keys]

/-- The slot of a key holds a value. -/
theorem Sound.atSlot? {t : LayoutTree} {s : Store} (h : s.Sound t) {key : String} {slot : Nat}
    (found : s.slotOf? t key = some slot) : ∃ v, s.atSlot? slot = some v := by
  obtain ⟨keys, lists, length⟩ := h
  unfold slotOf? LayoutTree.slotOf? at found
  rw [lists.keys] at found
  obtain ⟨inside, -, -⟩ := List.findIdx?_eq_some_iff_getElem.mp found
  rw [← length] at inside
  exact ⟨s.values[slot], List.getElem?_eq_getElem inside⟩

theorem sound_empty {t : LayoutTree} (sound : t.Sound) : empty.Sound t := ⟨[], sound.root, rfl⟩

section

variable {t : LayoutTree} {s : Store} {key : String} {value : Value}

theorem grows_insert : t.Grows (s.insert t key value).2 := by
  rw [insert]
  cases s.slotOf? t key with
  | some slot => exact .refl t
  | none => exact LayoutTree.grows_extend

theorem tree_sound_insert (tree : t.Sound) (h : s.Sound t) : (s.insert t key value).2.Sound := by
  obtain ⟨keys, lists, -⟩ := h
  rw [insert]
  cases s.slotOf? t key with
  | some slot => exact tree
  | none => exact LayoutTree.sound_extend tree lists

theorem sound_insert (tree : t.Sound) (h : s.Sound t) :
    (s.insert t key value).1.Sound (s.insert t key value).2 := by
  obtain ⟨keys, lists, length⟩ := h
  rw [insert]
  cases s.slotOf? t key with
  | some slot => exact ⟨keys, lists, by rw [List.length_set, length]⟩
  | none =>
    refine ⟨keys ++ [key], LayoutTree.lists_extend tree lists, ?_⟩
    rw [List.length_append, List.length_append, length]
    rfl

theorem slotOf?_insert (tree : t.Sound) (h : s.Sound t) {k : String} {slot : Nat}
    (found : s.slotOf? t k = some slot) :
    (s.insert t key value).1.slotOf? (s.insert t key value).2 k = some slot := by
  obtain ⟨keys, lists, -⟩ := h
  rw [insert]
  cases known : s.slotOf? t key with
  | some _ => exact found
  | none =>
    unfold slotOf? LayoutTree.slotOf? at found
    rw [lists.keys] at found
    unfold slotOf? LayoutTree.slotOf?
    rw [(LayoutTree.lists_extend tree lists).keys]
    exact LayoutTree.idxOf?_append found

theorem mem_values_insert {v : Value} (h : v ∈ (s.insert t key value).1.values) :
    v = value ∨ v ∈ s.values := by
  rw [insert] at h
  cases known : s.slotOf? t key with
  | some slot =>
    rw [known] at h
    exact (List.mem_or_eq_of_mem_set h).symm
  | none =>
    rw [known] at h
    rcases List.mem_append.mp h with h | h
    · exact .inr h
    · exact .inl (List.mem_singleton.mp h)

end

end Store

/-! ## What never changes -/

/-- What an object keeps while the tree of layouts grows. -/
structure Object.Evolves (t t' : LayoutTree) (a b : Object) : Prop where
  kind : b.kind = a.kind
  proto : b.proto = a.proto
  handle : b.handle = a.handle
  changes : a.changes ≤ b.changes
  slots : ∀ key slot, a.store.slotOf? t key = some slot → b.store.slotOf? t' key = some slot
  settled : b.changes = a.changes → ∀ key, a.store.slotOf? t key = none →
    b.store.slotOf? t' key = none

theorem Object.Evolves.of_store_eq {t t' : LayoutTree} {a b : Object} (grows : t.Grows t')
    (sound : a.store.Sound t) (kind : b.kind = a.kind) (proto : b.proto = a.proto)
    (handle : b.handle = a.handle) (changes : a.changes ≤ b.changes) (store : b.store = a.store) :
    a.Evolves t t' b where
  kind := kind
  proto := proto
  handle := handle
  changes := changes
  slots := by
    intro key slot h
    rw [store, Store.slotOf?_mono grows sound, h]
  settled := by
    intro _ key h
    rw [store, Store.slotOf?_mono grows sound, h]

namespace Heap

/-- What holds of the heaps of sessions: the layouts and the stores fit, the prototype of an object
was made before it, and every value is closed. -/
structure Sound (h : Heap) : Prop where
  layouts : h.layouts.Sound
  stores : ∀ o object, h.get? o = some object → object.store.Sound h.layouts
  protos : ∀ o object p, h.get? o = some object → object.proto = some p → p < o
  values : ∀ o object, h.get? o = some object → ∀ v ∈ object.store.values, h.closed v

/-- What the objects of a heap keep in a later one. -/
structure Evolves (h h' : Heap) : Prop where
  layouts : h.layouts.Grows h'.layouts
  objects : ∀ o a, h.get? o = some a → ∃ b, h'.get? o = some b ∧ a.Evolves h.layouts h'.layouts b

theorem Evolves.trans {a b c : Heap} (hab : a.Evolves b) (hbc : b.Evolves c) : a.Evolves c where
  layouts := hab.layouts.trans hbc.layouts
  objects := by
    intro o x hx
    obtain ⟨y, hy, hxy⟩ := hab.objects o x hx
    obtain ⟨z, hz, hyz⟩ := hbc.objects o y hy
    refine ⟨z, hz, ?_⟩
    refine ⟨hyz.kind.trans hxy.kind, hyz.proto.trans hxy.proto, hyz.handle.trans hxy.handle,
      Nat.le_trans hxy.changes hyz.changes, fun key slot h => hyz.slots _ _ (hxy.slots _ _ h), ?_⟩
    intro same key missing
    -- no change from first to last means no change in either part
    have later := hyz.changes
    have earlier := hxy.changes
    exact hyz.settled (by omega) key (hxy.settled (by omega) key missing)

theorem contains_iff {h : Heap} {o : ObjectId} :
    h.contains o ↔ ∃ object, h.get? o = some object := by
  rw [contains, decide_eq_true_iff]
  constructor
  · intro inside
    exact ⟨h.objects[o], Array.getElem?_eq_getElem inside⟩
  · rintro ⟨object, found⟩
    exact (Array.getElem?_eq_some_iff.mp found).1

theorem contains_of_get? {h : Heap} {o : ObjectId} {object : Object}
    (found : h.get? o = some object) : h.contains o := contains_iff.mpr ⟨object, found⟩

/-- The object that is made next is not there yet. -/
theorem not_contains_size (h : Heap) : ¬ h.contains h.size := by
  rw [contains, decide_eq_true_iff]
  exact Nat.lt_irrefl _

theorem Evolves.refl {h : Heap} : h.Evolves h where
  layouts := .refl _
  objects := by
    intro o a ha
    exact ⟨a, ha, rfl, rfl, rfl, Nat.le_refl _, fun _ _ h => h, fun _ _ h => h⟩

namespace Evolves

variable {h h' : Heap} {o : ObjectId}

theorem contains (ev : h.Evolves h') (present : h.contains o) : h'.contains o := by
  obtain ⟨a, ha⟩ := contains_iff.mp present
  obtain ⟨b, hb, -⟩ := ev.objects o a ha
  exact contains_of_get? hb

theorem closed (ev : h.Evolves h') {v : Value} (hv : h.closed v) : h'.closed v := by
  cases v with
  | object o => exact ev.contains hv
  | _ => rfl

theorem proto? (ev : h.Evolves h') (present : h.contains o) : h'.proto? o = h.proto? o := by
  obtain ⟨a, ha⟩ := contains_iff.mp present
  obtain ⟨b, hb, evolves⟩ := ev.objects o a ha
  unfold Heap.proto?
  rw [ha, hb]
  exact evolves.proto

theorem handle (ev : h.Evolves h') (present : h.contains o) : h'.handle o = h.handle o := by
  obtain ⟨a, ha⟩ := contains_iff.mp present
  obtain ⟨b, hb, evolves⟩ := ev.objects o a ha
  unfold Heap.handle
  rw [ha, hb]
  exact evolves.handle

theorem changes_le (ev : h.Evolves h') (o : ObjectId) : h.changes o ≤ h'.changes o := by
  cases ha : h.get? o with
  | none =>
    rw [Heap.changes, ha]
    exact Nat.zero_le _
  | some a =>
    obtain ⟨b, hb, evolves⟩ := ev.objects o a ha
    unfold Heap.changes
    rw [ha, hb]
    exact evolves.changes

theorem slotOf? (ev : h.Evolves h') {key : String} {slot : Nat}
    (found : h.slotOf? o key = some slot) : h'.slotOf? o key = some slot := by
  cases ha : h.get? o with
  | none =>
    rw [Heap.slotOf?, ha] at found
    cases found
  | some a =>
    obtain ⟨b, hb, evolves⟩ := ev.objects o a ha
    rw [Heap.slotOf?, ha] at found
    rw [Heap.slotOf?, hb]
    exact evolves.slots key slot found

theorem slotOf?_eq_none (ev : h.Evolves h') (present : h.contains o)
    (same : h'.changes o = h.changes o) {key : String} (missing : h.slotOf? o key = none) :
    h'.slotOf? o key = none := by
  obtain ⟨a, ha⟩ := contains_iff.mp present
  obtain ⟨b, hb, evolves⟩ := ev.objects o a ha
  unfold Heap.changes at same
  rw [ha, hb] at same
  rw [Heap.slotOf?, ha] at missing
  rw [Heap.slotOf?, hb]
  exact evolves.settled same key missing

/-- A prototype chain never changes. -/
theorem chain_eq (ev : h.Evolves h') (present : h.contains o) : h'.chain o = h.chain o := by
  induction o using Nat.strongRecOn with
  | ind o ih =>
    unfold chain
    rw [ev.proto? present]
    cases h.proto? o with
    | none => rfl
    | some p =>
      dsimp only
      by_cases older : p < o
      · have inside : h.contains p := by
          rw [Heap.contains, decide_eq_true_iff] at present ⊢
          exact Nat.lt_trans older present
        rw [if_pos older, if_pos older, ih p older inside]
      · rw [if_neg older, if_neg older]

end Evolves

/-! ## What leads on -/

/-- The second heap is sound and comes after the first. An object that has another handle in it is
new and has the handle `made`. -/
structure Leads (made : Handle) (h h' : Heap) : Prop where
  sound : h'.Sound
  evolves : h.Evolves h'
  handles : ∀ o, h'.handle o = h.handle o ∨ h'.handle o = made

theorem Leads.refl {made : Handle} {h : Heap} (sound : h.Sound) : h.Leads made h :=
  ⟨sound, .refl, fun _ => .inl rfl⟩

theorem Leads.trans {made : Handle} {a b c : Heap} (hab : a.Leads made b) (hbc : b.Leads made c) :
    a.Leads made c where
  sound := hbc.sound
  evolves := hab.evolves.trans hbc.evolves
  handles := by
    intro o
    rcases hbc.handles o with same | new
    · rw [same]
      exact hab.handles o
    · exact .inr new

/-- What may be made of an object: it evolves into one that fits the layouts and holds values that
exist. -/
structure Becomes (h : Heap) (t : LayoutTree) (a b : Object) : Prop where
  evolves : a.Evolves h.layouts t b
  store : b.store.Sound t
  values : ∀ v ∈ b.store.values, h.closed v

/-- The objects of a heap are changed one by one. -/
theorem leads_of_becomes {made : Handle} {h h' : Heap} (f : ObjectId → Object → Object)
    (sound : h.Sound) (grows : h.layouts.Grows h'.layouts) (tree : h'.layouts.Sound)
    (get : ∀ o, h'.get? o = (h.get? o).map (f o))
    (becomes : ∀ o a, h.get? o = some a → h.Becomes h'.layouts a (f o a)) :
    h.Leads made h' := by
  have before (o : ObjectId) (b : Object) (hb : h'.get? o = some b) :
      ∃ a, h.get? o = some a ∧ h.Becomes h'.layouts a b := by
    rw [get] at hb
    obtain ⟨a, ha, rfl⟩ := Option.map_eq_some_iff.mp hb
    exact ⟨a, ha, becomes o a ha⟩
  have evolves : h.Evolves h' := by
    refine ⟨grows, ?_⟩
    intro o a ha
    exact ⟨f o a, by rw [get, ha]; rfl, (becomes o a ha).evolves⟩
  refine ⟨⟨tree, ?_, ?_, ?_⟩, evolves, ?_⟩
  · intro o b hb
    obtain ⟨a, -, becomes⟩ := before o b hb
    exact becomes.store
  · intro o b p hb hp
    obtain ⟨a, ha, becomes⟩ := before o b hb
    exact sound.protos o a p ha (becomes.evolves.proto ▸ hp)
  · intro o b hb v hv
    obtain ⟨a, -, becomes⟩ := before o b hb
    exact evolves.closed (becomes.values v hv)
  · intro o
    left
    unfold handle
    rw [get]
    cases ha : h.get? o with
    | none => rfl
    | some a => exact (becomes o a ha).evolves.handle

/-- An object of a sound heap may stay as it is, whatever is counted. -/
theorem becomes_of_store_eq {h : Heap} {t : LayoutTree} {o : ObjectId} {a : Object}
    (sound : h.Sound) (grows : h.layouts.Grows t) (found : h.get? o = some a) {changes : Nat}
    (counted : a.changes ≤ changes) : h.Becomes t a { a with changes } where
  evolves := .of_store_eq grows (sound.stores o a found) rfl rfl rfl counted rfl
  store := (sound.stores o a found).mono grows
  values := sound.values o a found

/-! ## New objects -/

section

variable {h : Heap} {kind : ObjectKind} {proto : Option ObjectId} {hd : Handle}

theorem get?_alloc (o : ObjectId) :
    (h.alloc kind proto hd).2.get? o =
      if o = h.size then some ⟨kind, proto, .empty, 0, hd⟩ else h.get? o :=
  Array.getElem?_push

theorem ne_size_of_get? {o : ObjectId} {object : Object} (found : h.get? o = some object) :
    o ≠ h.size := by
  have present := contains_of_get? found
  rw [contains, decide_eq_true_iff] at present
  exact Nat.ne_of_lt present

theorem evolves_alloc : h.Evolves (h.alloc kind proto hd).2 where
  layouts := .refl _
  objects := by
    intro o a ha
    refine ⟨a, ?_, rfl, rfl, rfl, Nat.le_refl _, fun _ _ h => h, fun _ _ h => h⟩
    rw [get?_alloc, if_neg (ne_size_of_get? ha), ha]

theorem contains_alloc_self : (h.alloc kind proto hd).2.contains h.size :=
  contains_iff.mpr ⟨_, by rw [get?_alloc, if_pos rfl]⟩

theorem handle_alloc (o : ObjectId) :
    (h.alloc kind proto hd).2.handle o = if o = h.size then hd else h.handle o := by
  rw [handle, get?_alloc]
  by_cases new : o = h.size
  · rw [if_pos new, if_pos new]
    rfl
  · rw [if_neg new, if_neg new]
    rfl

theorem sound_alloc (sound : h.Sound) (older : ∀ p, proto = some p → h.contains p) :
    (h.alloc kind proto hd).2.Sound := by
  constructor
  · exact sound.layouts
  · intro o object found
    rw [get?_alloc] at found
    by_cases new : o = h.size
    · rw [if_pos new] at found
      cases found
      exact Store.sound_empty sound.layouts
    · rw [if_neg new] at found
      exact sound.stores o object found
  · intro o object p found hp
    rw [get?_alloc] at found
    by_cases new : o = h.size
    · rw [if_pos new] at found
      cases found
      have present := older p hp
      rw [contains, decide_eq_true_iff] at present
      rw [new]
      exact present
    · rw [if_neg new] at found
      exact sound.protos o object p found hp
  · intro o object found v hv
    rw [get?_alloc] at found
    by_cases new : o = h.size
    · rw [if_pos new] at found
      cases found
      cases hv
    · rw [if_neg new] at found
      exact evolves_alloc.closed (sound.values o object found v hv)

theorem leads_alloc (sound : h.Sound) (older : ∀ p, proto = some p → h.contains p) :
    h.Leads hd (h.alloc kind proto hd).2 where
  sound := sound_alloc sound older
  evolves := evolves_alloc
  handles := by
    intro o
    rw [handle_alloc]
    by_cases new : o = h.size
    · rw [if_pos new]
      exact .inr rfl
    · rw [if_neg new]
      exact .inl rfl

end

/-! ## Setting a key -/

section

variable {h : Heap} {o : ObjectId} {key : String} {value : Value}

theorem get?_set (p : ObjectId) :
    (h.set o key value).get? p = (h.get? p).map fun object =>
      if p = o then { object with
        store := (object.store.insert h.layouts key value).1
        changes := object.changes + 1 }
      else object := by
  obtain ⟨objects, layouts⟩ := h
  rw [set, get?, get?]
  cases found : objects[o]? with
  | none =>
    by_cases same : p = o
    · subst same
      simp only [found]
      rfl
    · simp only [if_neg same]
      exact Option.map_id'.symm
  | some object =>
    dsimp only
    rw [Array.getElem?_setIfInBounds]
    by_cases same : p = o
    · subst same
      rw [if_pos rfl, if_pos (Array.getElem?_eq_some_iff.mp found).1, found]
      simp only [Option.map_some, if_true]
    · rw [if_neg (Ne.symm same)]
      simp only [if_neg same]
      exact Option.map_id'.symm

theorem size_set (h : Heap) (o : ObjectId) (key : String) (value : Value) :
    (h.set o key value).size = h.size := by
  obtain ⟨objects, layouts⟩ := h
  rw [set]
  split
  · rfl
  · exact Array.size_setIfInBounds

theorem layouts_set_of_get? {object : Object} (found : h.get? o = some object) :
    (h.set o key value).layouts = (object.store.insert h.layouts key value).2 := by
  obtain ⟨objects, layouts⟩ := h
  rw [get?] at found
  rw [set, found]

theorem set_of_get?_eq_none (missing : h.get? o = none) : h.set o key value = h := by
  obtain ⟨objects, layouts⟩ := h
  rw [get?] at missing
  rw [set, missing]

theorem handle_set (p : ObjectId) : (h.set o key value).handle p = h.handle p := by
  unfold handle
  rw [get?_set]
  cases h.get? p with
  | none => rfl
  | some object =>
    by_cases same : p = o
    · simp only [Option.map_some, if_pos same]
    · simp only [Option.map_some, if_neg same]

/-- What becomes of the object whose key is set. -/
theorem becomes_insert (sound : h.Sound) {target : Object} (found : h.get? o = some target)
    (closed : h.closed value) :
    h.Becomes (target.store.insert h.layouts key value).2 target { target with
      store := (target.store.insert h.layouts key value).1
      changes := target.changes + 1 } := by
  have store := sound.stores o target found
  refine ⟨⟨rfl, rfl, rfl, Nat.le_succ _, ?_, ?_⟩, Store.sound_insert sound.layouts store, ?_⟩
  · intro k slot hk
    exact Store.slotOf?_insert sound.layouts store hk
  · intro same
    exact absurd same (Nat.succ_ne_self _)
  · intro v mem
    rcases Store.mem_values_insert mem with rfl | mem
    · exact closed
    · exact sound.values o target found v mem

theorem leads_set {made : Handle} (sound : h.Sound) (closed : h.closed value) :
    h.Leads made (h.set o key value) := by
  cases found : h.get? o with
  | none =>
    rw [set_of_get?_eq_none found]
    exact .refl sound
  | some target =>
    have layouts := @layouts_set_of_get? h o key value target found
    have grows : h.layouts.Grows (h.set o key value).layouts := by
      rw [layouts]
      exact Store.grows_insert
    refine leads_of_becomes _ sound grows ?_ get?_set ?_
    · rw [layouts]
      exact Store.tree_sound_insert sound.layouts (sound.stores o target found)
    · intro p a ha
      by_cases same : p = o
      · subst same
        obtain rfl : a = target := Option.some.inj (ha.symm.trans found)
        rw [if_pos rfl, layouts]
        exact becomes_insert sound found closed
      · rw [if_neg same]
        exact becomes_of_store_eq sound grows ha (Nat.le_refl _)

end

/-! ## Counting a change -/

section

variable {h : Heap} {o : ObjectId}

theorem get?_advance (p : ObjectId) :
    (h.advance o).get? p = (h.get? p).map fun object =>
      if p = o then { object with changes := object.changes + 1 } else object := by
  obtain ⟨objects, layouts⟩ := h
  unfold advance get?
  rw [Array.getElem?_modify]
  by_cases same : p = o
  · rw [if_pos same.symm]
    simp only [if_pos same]
  · rw [if_neg (Ne.symm same)]
    simp only [if_neg same]
    exact Option.map_id'.symm

theorem size_advance (h : Heap) (o : ObjectId) : (h.advance o).size = h.size := Array.size_modify

theorem leads_advance {made : Handle} (sound : h.Sound) : h.Leads made (h.advance o) := by
  have layouts : (h.advance o).layouts = h.layouts := rfl
  refine leads_of_becomes _ sound (layouts ▸ .refl _) (layouts ▸ sound.layouts) get?_advance ?_
  intro p a ha
  rw [layouts]
  by_cases same : p = o
  · rw [if_pos same]
    exact becomes_of_store_eq sound (.refl _) ha (Nat.le_succ _)
  · rw [if_neg same]
    exact becomes_of_store_eq sound (.refl _) ha (Nat.le_refl _)

end

end Heap

end ProtoVM
