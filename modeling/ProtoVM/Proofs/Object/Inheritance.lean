import Mathlib.Data.List.Chain
import Mathlib.Data.List.Nodup
import Mathlib.Logic.Relation
import ProtoVM.Proofs.Object.HiddenObjects
import ProtoVM.Proofs.Object.PropertyCaches

/-!
# Inheritance

A lookup is a loop: it reads an object, then its prototype, then the prototype of that, and it
checks for no cycle. On a sound heap it needs no check. A prototype is older than the objects that
delegate to it, so that following prototypes comes to an end (`Heap.Grounded`), however the
properties refer to each other. Setting a key changes one object, and with it the answers of those
objects that see the key there (`Heap.Sees`, `Heap.SetsOnly`).
-/

namespace ProtoVM

/-! ## Stores -/

namespace Store

variable {t : LayoutTree} {s : Store} {key : String} {value : Value}

theorem insert_of_known {slot : Nat} (known : s.slotOf? t key = some slot) :
    s.insert t key value = (⟨s.layout, s.values.set slot value⟩, t) := by
  rw [insert, known]

theorem insert_of_new (new : s.slotOf? t key = none) :
    s.insert t key value =
      (⟨(t.extend s.layout key).1, s.values ++ [value]⟩, (t.extend s.layout key).2) := by
  rw [insert, new]

/-- A new key comes after the old ones. -/
theorem keys_insert (tree : t.Sound) (sound : s.Sound t) :
    (s.insert t key value).1.keys (s.insert t key value).2 =
      if key ∈ s.keys t then s.keys t else s.keys t ++ [key] := by
  obtain ⟨keys, lists, -⟩ := sound
  cases known : s.slotOf? t key with
  | some slot =>
    rw [insert_of_known known]
    rw [slotOf?, LayoutTree.slotOf?, List.idxOf?_eq_some_iff] at known
    obtain ⟨inside, same, -⟩ := known
    exact (if_pos (same ▸ List.getElem_mem inside)).symm
  | none =>
    rw [insert_of_new known]
    rw [slotOf?, LayoutTree.slotOf?, List.idxOf?_eq_none_iff] at known
    rw [Store.keys, Store.keys, if_neg known, lists.keys]
    exact (LayoutTree.lists_extend tree lists).keys

section

variable {keys : List String} {values : List Value}

theorem bind_idxOf?_set {slot : Nat} (known : keys.idxOf? key = some slot)
    (inside : slot < values.length) (k : String) :
    (keys.idxOf? k).bind (fun i => (values.set slot value)[i]?) =
      if k = key then some value else (keys.idxOf? k).bind fun i => values[i]? := by
  by_cases same : k = key
  · simp [same, known, inside]
  · -- two keys never share a slot
    rw [if_neg same]
    refine Option.bind_congr fun i found => ?_
    rw [List.idxOf?_eq_some_iff] at known found
    have other : slot ≠ i := by
      rintro rfl
      exact same (found.2.1.symm.trans known.2.1)
    simp [other]

theorem bind_idxOf?_concat (length : values.length = keys.length) (new : key ∉ keys)
    (k : String) :
    ((keys ++ [key]).idxOf? k).bind (fun i => (values ++ [value])[i]?) =
      if k = key then some value else (keys.idxOf? k).bind fun i => values[i]? := by
  have places : (keys ++ [key]).idxOf? k =
      (keys.idxOf? k).or (if key = k then some keys.length else none) := by
    simp [List.idxOf?, List.findIdx?_append]
  by_cases same : k = key
  · have missing : keys.idxOf? key = none := List.idxOf?_eq_none_iff.mpr new
    subst same
    simp [places, missing, ← length]
  · rw [if_neg same, places, if_neg (Ne.symm same), Option.or_none]
    refine Option.bind_congr fun i found => ?_
    rw [List.idxOf?_eq_some_iff] at found
    obtain ⟨inside, -⟩ := found
    exact List.getElem?_append_left (length ▸ inside)

end

/-- The key has the new value, and every other key has the value that it had. -/
theorem get?_insert (tree : t.Sound) (sound : s.Sound t) (k : String) :
    (s.insert t key value).1.get? (s.insert t key value).2 k =
      if k = key then some value else s.get? t k := by
  obtain ⟨keys, lists, length⟩ := sound
  unfold get? slotOf? LayoutTree.slotOf? atSlot?
  cases known : s.slotOf? t key with
  | some slot =>
    rw [insert_of_known known]
    rw [slotOf?, LayoutTree.slotOf?, lists.keys] at known
    obtain ⟨inside, -⟩ := List.idxOf?_eq_some_iff.mp known
    simp only [lists.keys]
    exact bind_idxOf?_set known (length ▸ inside) k
  | none =>
    rw [insert_of_new known]
    rw [slotOf?, LayoutTree.slotOf?, lists.keys, List.idxOf?_eq_none_iff] at known
    simp only [lists.keys, (LayoutTree.lists_extend tree lists).keys]
    exact bind_idxOf?_concat length known k

end Store

namespace Heap

variable {h h' : Heap} {o p r : ObjectId} {key : String} {value : Value}

/-! ## Prototypes -/

/-- The first object delegates to the second one. -/
def Inherits (h : Heap) (o p : ObjectId) : Prop := h.proto? o = some p

theorem Sound.lt_of_inherits (sound : h.Sound) (inherits : h.Inherits o p) : p < o := by
  obtain ⟨object, found, proto⟩ := Option.bind_eq_some_iff.mp inherits
  exact sound.protos o object p found proto

theorem chain_of_proto?_eq_none (top : h.proto? o = none) : h.chain o = [o] := by
  rw [chain, top]

/-- On a sound heap no chain is cut off. -/
theorem Sound.chain_of_inherits (sound : h.Sound) (inherits : h.Inherits o p) :
    h.chain o = o :: h.chain p := by
  have proto : h.proto? o = some p := inherits
  rw [chain, proto]
  exact if_pos (sound.lt_of_inherits inherits)

/-- What holds of objects without prototype, and of an object if it holds of its prototype, holds
of all. -/
theorem Sound.along_chain (sound : h.Sound) {motive : ObjectId → Prop}
    (top : ∀ o, h.proto? o = none → motive o)
    (next : ∀ o p, h.Inherits o p → motive p → motive o) (o : ObjectId) : motive o := by
  induction o using Nat.strongRecOn with
  | ind o ih =>
    cases proto : h.proto? o with
    | none => exact top o proto
    | some p => exact next o p proto (ih p (sound.lt_of_inherits proto))

/-- No object is reached from itself. -/
theorem Sound.not_transGen_self (sound : h.Sound) (o : ObjectId) :
    ¬ Relation.TransGen h.Inherits o o := by
  have older {o p : ObjectId} (reached : Relation.TransGen h.Inherits o p) : p < o := by
    induction reached with
    | single first => exact sound.lt_of_inherits first
    | tail _ last ih => exact Nat.lt_trans (sound.lt_of_inherits last) ih
  intro cycle
  exact Nat.lt_irrefl o (older cycle)

theorem isChain_chain (h : Heap) (o : ObjectId) : (h.chain o).IsChain h.Inherits := by
  induction o using Nat.strongRecOn with
  | ind o ih =>
    rw [chain]
    cases proto : h.proto? o with
    | none => simp
    | some p =>
      by_cases older : p < o
      · obtain ⟨rest, chain⟩ := h.exists_chain_eq_cons p
        have later := ih p older
        rw [chain] at later
        simpa [older, chain] using ⟨proto, later⟩
      · simp [older]

/-- The chain has exactly the objects that following prototypes leads to. -/
theorem Sound.mem_chain_iff (sound : h.Sound) :
    p ∈ h.chain o ↔ Relation.ReflTransGen h.Inherits o p := by
  induction o using sound.along_chain with
  | top o top =>
    rw [chain_of_proto?_eq_none top, Relation.ReflTransGen.cases_head_iff]
    simp [Inherits, top, eq_comm]
  | next o q inherits ih =>
    have proto : h.proto? o = some q := inherits
    rw [sound.chain_of_inherits inherits, List.mem_cons, ih,
      Relation.ReflTransGen.cases_head_iff (a := o)]
    simp [Inherits, proto, eq_comm]

theorem Sound.pairwise_chain (sound : h.Sound) (o : ObjectId) :
    (h.chain o).Pairwise fun older newer => newer < older := by
  apply List.IsChain.pairwise
  exact (h.isChain_chain o).imp fun _ _ inherits => sound.lt_of_inherits inherits

theorem Sound.nodup_chain (sound : h.Sound) (o : ObjectId) : (h.chain o).Nodup :=
  (sound.pairwise_chain o).imp fun older => Nat.ne_of_gt older

theorem Sound.length_chain_le (sound : h.Sound) (o : ObjectId) : (h.chain o).length ≤ o + 1 := by
  induction o using sound.along_chain with
  | top o top => simp [chain_of_proto?_eq_none top]
  | next o p inherits ih =>
    rw [sound.chain_of_inherits inherits, List.length_cons]
    exact Nat.succ_le_succ (Nat.le_trans ih (sound.lt_of_inherits inherits))

/-- The last object of a chain has no prototype. -/
theorem Sound.proto?_getLast (sound : h.Sound) (last : p ∈ (h.chain o).getLast?) :
    h.proto? p = none := by
  induction o using sound.along_chain with
  | top o top =>
    simp only [chain_of_proto?_eq_none top, List.getLast?_singleton, Option.mem_some] at last
    rw [← last, top]
  | next o q inherits ih =>
    obtain ⟨rest, chain⟩ := h.exists_chain_eq_cons q
    rw [sound.chain_of_inherits inherits, chain, List.getLast?_cons_cons, ← chain] at last
    exact ih last

/-! ## Own keys -/

theorem slotOf?_eq_idxOf? (h : Heap) (o : ObjectId) (key : String) :
    h.slotOf? o key = (h.keys o).idxOf? key := by
  unfold slotOf? keys
  cases h.get? o <;> rfl

theorem slotOf?_eq_none_iff : h.slotOf? o key = none ↔ key ∉ h.keys o := by
  rw [slotOf?_eq_idxOf?, List.idxOf?_eq_none_iff]

/-- An object has a value for a key exactly if it is one of its own. -/
theorem Sound.getOwn?_eq_none_iff (sound : h.Sound) : h.getOwn? o key = none ↔ key ∉ h.keys o := by
  rw [← slotOf?_eq_none_iff, getOwn?_eq]
  cases found : h.slotOf? o key with
  | none => simp
  | some slot =>
    obtain ⟨v, hv⟩ := exists_atSlot? sound found
    simp [hv]

theorem Sound.exists_getOwn? (sound : h.Sound) (mem : key ∈ h.keys o) :
    ∃ v, h.getOwn? o key = some v := by
  rw [← Option.isSome_iff_exists, Option.isSome_iff_ne_none, ne_eq, sound.getOwn?_eq_none_iff]
  exact not_not_intro mem

/-- A lookup gives what the first object that has the key has under it. -/
theorem lookup_of_first {before after : List ObjectId} (chain : h.chain r = before ++ o :: after)
    (missing : ∀ p ∈ before, h.getOwn? p key = none) (found : h.getOwn? o key = some value) :
    h.lookup r key = value := by
  have skipped : before.findSome? (h.getOwn? · key) = none := List.findSome?_eq_none_iff.mpr missing
  rw [lookup, chain, List.findSome?_append, skipped]
  simp [found]

theorem findSome?_congr {α β : Type} {f g : α → Option β} {xs : List α}
    (same : ∀ x ∈ xs, f x = g x) : xs.findSome? f = xs.findSome? g := by
  induction xs with
  | nil => rfl
  | cons x xs ih =>
    have later : xs.findSome? f = xs.findSome? g :=
      ih fun y hy => same y (List.mem_cons_of_mem x hy)
    simp [List.findSome?_cons, same x List.mem_cons_self, later]

/-- What a lookup gives is decided by the objects up to the first one that has the key. -/
theorem lookup_congr {before after : List ObjectId} (same : h'.chain r = h.chain r)
    (chain : h.chain r = before ++ after)
    (agree : ∀ p ∈ before, h'.getOwn? p key = h.getOwn? p key)
    (found : after = [] ∨ ∃ p ∈ before, ∃ v, h.getOwn? p key = some v) :
    h'.lookup r key = h.lookup r key := by
  have front : before.findSome? (h'.getOwn? · key) = before.findSome? (h.getOwn? · key) :=
    findSome?_congr agree
  rw [lookup, lookup, same, chain, List.findSome?_append, List.findSome?_append, front]
  rcases found with rfl | ⟨p, mem, v, hv⟩
  · rfl
  · obtain ⟨w, hw⟩ : ∃ w, before.findSome? (h.getOwn? · key) = some w := by
      rw [← Option.isSome_iff_exists, List.findSome?_isSome_iff]
      exact ⟨p, mem, by simp [hv]⟩
    rw [hw]
    rfl

/-! ## The loop of a lookup -/

/-- What a lookup does, for at most a number of objects: it reads one, and goes on with its
prototype. -/
def walk (h : Heap) (key : String) : Nat → ObjectId → Option Value
  | 0, _ => none
  | limit + 1, o =>
    match h.getOwn? o key with
    | some v => some v
    | none =>
      match h.proto? o with
      | some p => h.walk key limit p
      | none => some .undefined

/-- The loop ends at the end of the chain at the latest, with the value of the lookup. -/
theorem Sound.walk_eq (sound : h.Sound) {limit : Nat} (enough : (h.chain o).length ≤ limit) :
    h.walk key limit o = some (h.lookup o key) := by
  induction o using sound.along_chain generalizing limit with
  | top o top =>
    rw [chain_of_proto?_eq_none top] at enough
    obtain ⟨limit, rfl⟩ := Nat.exists_eq_add_of_lt enough
    rw [lookup, chain_of_proto?_eq_none top, walk, top]
    cases found : h.getOwn? o key <;> simp [found]
  | next o p inherits ih =>
    have chain := sound.chain_of_inherits inherits
    have proto : h.proto? o = some p := inherits
    rw [chain, List.length_cons] at enough
    obtain ⟨limit, rfl⟩ : ∃ n, limit = n + 1 := ⟨limit - 1, by omega⟩
    rw [lookup, chain, walk, proto]
    cases found : h.getOwn? o key with
    | some v => simp [found]
    | none =>
      simp only [List.findSome?_cons, found]
      exact ih (by omega)

/-- What following the prototypes of an object leads to. -/
structure Grounded (h : Heap) (o : ObjectId) : Prop where
  /-- Each object of the chain delegates to the next one. -/
  inherits : (h.chain o).IsChain h.Inherits
  /-- The last object of the chain delegates to no other. -/
  ends : ∀ p ∈ (h.chain o).getLast?, h.proto? p = none
  /-- Nothing else is reached from the object. -/
  reaches : ∀ p, p ∈ h.chain o ↔ Relation.ReflTransGen h.Inherits o p
  acyclic : ∀ p ∈ h.chain o, ¬ Relation.TransGen h.Inherits p p
  distinct : (h.chain o).Nodup
  /-- A lookup reads each object at most once. -/
  terminates : ∀ key, h.walk key h.size o = some (h.lookup o key)
  /-- It stops at the first object that has the key, whatever value is stored there. -/
  first : ∀ key before p after, h.chain o = before ++ p :: after → (∀ q ∈ before, key ∉ h.keys q) →
    key ∈ h.keys p → h.getOwn? p key = some (h.lookup o key)
  nowhere : ∀ key, (∀ p ∈ h.chain o, key ∉ h.keys p) → h.lookup o key = .undefined

theorem Sound.grounded (sound : h.Sound) (present : h.contains o) : h.Grounded o where
  inherits := h.isChain_chain o
  ends := fun _ last => sound.proto?_getLast last
  reaches := fun _ => sound.mem_chain_iff
  acyclic := fun p _ => sound.not_transGen_self p
  distinct := sound.nodup_chain o
  terminates := by
    intro key
    rw [contains, decide_eq_true_iff] at present
    exact sound.walk_eq (Nat.le_trans (sound.length_chain_le o) present)
  first := by
    intro key before p after chain missing mem
    obtain ⟨v, found⟩ := sound.exists_getOwn? mem
    have skipped : ∀ q ∈ before, h.getOwn? q key = none := fun q hq =>
      sound.getOwn?_eq_none_iff.mpr (missing q hq)
    rw [found, lookup_of_first chain skipped found]
  nowhere := by
    intro key missing
    exact lookup_eq_undefined fun p hp => slotOf?_eq_none_iff.mpr (missing p hp)

/-! ## Setting a key -/

/-- An object is in the second heap as it was in the first. -/
structure Unchanged (h h' : Heap) (p : ObjectId) : Prop where
  proto : h'.proto? p = h.proto? p
  handle : h'.handle p = h.handle p
  layout : h'.layout? p = h.layout? p
  entries : h'.entries p = h.entries p
  keys : h'.keys p = h.keys p
  slots : ∀ key, h'.slotOf? p key = h.slotOf? p key
  own : ∀ key, h'.getOwn? p key = h.getOwn? p key
  generation : h'.generation p = h.generation p

/-- An object that is not touched stays as it was, whatever layouts are made for others. -/
theorem unchanged_of_get?_eq
    (fits : ∀ object, h.get? p = some object → object.store.Sound h.layouts)
    (grows : h.layouts.Grows h'.layouts) (same : h'.get? p = h.get? p) : h.Unchanged h' p := by
  have keysOf (object : Object) (found : h.get? p = some object) :
      object.store.keys h'.layouts = object.store.keys h.layouts := by
    obtain ⟨keys, lists, -⟩ := fits object found
    rw [Store.keys, Store.keys, lists.keys, (grows _ _ lists).keys]
  have keys : h'.keys p = h.keys p := by
    cases found : h.get? p with
    | none => simp [Heap.keys, same, found]
    | some object => simp [Heap.keys, same, found, keysOf object found]
  have entries : h'.entries p = h.entries p := by
    cases found : h.get? p with
    | none => simp [Heap.entries, same, found]
    | some object => simp [Heap.entries, Store.entries, same, found, keysOf object found]
  constructor
  case keys => exact keys
  case entries => exact entries
  case slots => simp [slotOf?_eq_idxOf?, keys]
  case own =>
    have atSlot : h'.atSlot? p = h.atSlot? p := by
      funext slot
      simp [atSlot?, same]
    simp [getOwn?_eq, slotOf?_eq_idxOf?, keys, atSlot]
  all_goals simp [proto?, Heap.handle, layout?, Heap.generation, changes, same]

theorem Sound.unchanged (sound : h.Sound) (grows : h.layouts.Grows h'.layouts)
    (same : h'.get? p = h.get? p) : h.Unchanged h' p :=
  unchanged_of_get?_eq (sound.stores p) grows same

/-- A lookup from the first object comes to the second one before it finds the key. -/
def Sees (h : Heap) (r o : ObjectId) (key : String) : Prop :=
  ∃ before after, h.chain r = before ++ o :: after ∧ ∀ p ∈ before, key ∉ h.keys p

/-- The second heap differs from the first in that a key was set. -/
structure SetsOnly (h : Heap) (o : ObjectId) (key : String) (value : Value) (h' : Heap) : Prop where
  /-- The value is found from where a lookup comes to the object. -/
  shown : ∀ r, h.contains r → h.Sees r o key → h'.lookup r key = value
  /-- Where it does not, and for other keys, a lookup finds what it found before. -/
  hidden : ∀ r k, h.contains r → ¬ (k = key ∧ h.Sees r o key) → h'.lookup r k = h.lookup r k
  others : ∀ p, p ≠ o → h.Unchanged h' p
  keys : h'.keys o = if key ∈ h.keys o then h.keys o else h.keys o ++ [key]
  slots : ∀ k slot, h.slotOf? o k = some slot → h'.slotOf? o k = some slot

section

variable (sound : h.Sound) (present : h.contains o)
include sound

theorem Sound.unchanged_set (other : p ≠ o) : h.Unchanged (h.set o key value) p :=
  sound.unchanged (h.grows_set o key value) (get?_set_of_ne other)

include present

theorem Sound.getOwn?_set (p : ObjectId) (k : String) :
    (h.set o key value).getOwn? p k =
      if p = o ∧ k = key then some value else h.getOwn? p k := by
  by_cases here : p = o
  · subst here
    obtain ⟨object, found⟩ := contains_iff.mp present
    simp only [getOwn?, get?_set, layouts_set_of_get? found, found, true_and, if_true,
      Option.map_some, Option.bind_some]
    exact Store.get?_insert sound.layouts (sound.stores p object found) k
  · rw [if_neg fun both => here both.1]
    exact (sound.unchanged_set here).own k

theorem Sound.keys_set : (h.set o key value).keys o =
    if key ∈ h.keys o then h.keys o else h.keys o ++ [key] := by
  obtain ⟨object, found⟩ := contains_iff.mp present
  simp only [keys, get?_set, layouts_set_of_get? found, found, if_true, Option.map_some,
    Option.getD_some]
  exact Store.keys_insert sound.layouts (sound.stores o object found)

variable (closed : h.closed value) (inside : h.contains r)
include closed inside

omit present in
theorem Sound.chain_set : (h.set o key value).chain r = h.chain r := by
  have leads : h.Leads .inert (h.set o key value) := leads_set sound closed
  exact leads.evolves.chain_eq inside

/-- A lookup that comes to the object finds the new value there. -/
theorem Sound.lookup_set_of_sees (sees : h.Sees r o key) :
    (h.set o key value).lookup r key = value := by
  obtain ⟨before, after, chain, missing⟩ := sees
  have same : (h.set o key value).chain r = h.chain r := sound.chain_set closed inside
  refine lookup_of_first (same.trans chain) ?_ (by simp [sound.getOwn?_set present])
  intro p mem
  -- no object comes twice, so that those before it are others
  have other : p ≠ o := by
    have distinct := sound.nodup_chain r
    rw [chain, List.nodup_append] at distinct
    exact distinct.2.2 p mem o List.mem_cons_self
  rw [sound.getOwn?_set present, if_neg fun both => other both.1, sound.getOwn?_eq_none_iff]
  exact missing p mem

/-- A lookup that does not come to the object, or is for another key, finds what it found before. -/
theorem Sound.lookup_set_of_not_sees {k : String} (unseen : ¬ (k = key ∧ h.Sees r o key)) :
    (h.set o key value).lookup r k = h.lookup r k := by
  have same : (h.set o key value).chain r = h.chain r := sound.chain_set closed inside
  by_cases comes : k = key ∧ o ∈ h.chain r
  · obtain ⟨rfl, mem⟩ := comes
    obtain ⟨before, after, chain, new⟩ := List.eq_append_cons_of_mem mem
    -- some object before it has the key, or the lookup would come to it
    have shadowed : ∃ p ∈ before, k ∈ h.keys p := by
      by_contra none
      simp only [not_exists, not_and] at none
      exact unseen ⟨rfl, before, after, chain, none⟩
    obtain ⟨p, hp, owns⟩ := shadowed
    refine lookup_congr same chain ?_ (.inr ⟨p, hp, sound.exists_getOwn? owns⟩)
    intro q hq
    have other : q ≠ o := by
      rintro rfl
      exact new hq
    rw [sound.getOwn?_set present, if_neg fun both => other both.1]
  · refine lookup_congr same (List.append_nil _).symm ?_ (.inl rfl)
    intro q hq
    rw [sound.getOwn?_set present, if_neg]
    rintro ⟨rfl, rfl⟩
    exact comes ⟨rfl, hq⟩

omit inside

/-- Setting a key is seen from the objects whose lookups come to it, and nowhere else. -/
theorem Sound.setsOnly : h.SetsOnly o key value (h.set o key value) where
  shown := fun _ inside sees => sound.lookup_set_of_sees present closed inside sees
  hidden := fun _ _ inside unseen => sound.lookup_set_of_not_sees present closed inside unseen
  others := fun _ other => sound.unchanged_set other
  keys := sound.keys_set present
  slots := by
    intro k slot found
    have leads : h.Leads .inert (h.set o key value) := leads_set sound closed
    exact leads.evolves.slotOf? found

end

end Heap

end ProtoVM
