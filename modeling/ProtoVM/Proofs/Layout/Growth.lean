import ProtoVM.Layout.Tree

/-!
# Growing layouts

Where no layout is ever given up, a tree of layouts only grows: adding a key keeps every layout
with the keys it has, and leads to the layout that has the new key after the old ones.
-/

namespace ProtoVM.LayoutTree

/-- The layout exists and has these keys. -/
def Lists (t : LayoutTree) (id : LayoutId) (keys : List String) : Prop :=
  (t.node? id).map (·.keys) = some keys

/-- The layout exists and remembers another one under this key. -/
def Remembers (t : LayoutTree) (id : LayoutId) (key : String) (child : LayoutId) : Prop :=
  ∃ n, t.node? id = some n ∧ (key, child) ∈ n.children

/-- The empty layout is the root, and the layouts that one remembers have one more key each. -/
structure Sound (t : LayoutTree) : Prop where
  root : t.Lists root []
  child : ∀ id key c keys, t.Remembers id key c → t.Lists id keys → t.Lists c (keys ++ [key])

/-- Every layout of the first tree is one of the second, with the same keys. -/
def Grows (t t' : LayoutTree) : Prop := ∀ id keys, t.Lists id keys → t'.Lists id keys

theorem Grows.refl (t : LayoutTree) : t.Grows t := fun _ _ h => h

theorem Grows.trans {a b c : LayoutTree} (hab : a.Grows b) (hbc : b.Grows c) : a.Grows c :=
  fun id keys h => hbc id keys (hab id keys h)

theorem Lists.keys {t : LayoutTree} {id : LayoutId} {keys : List String} (h : t.Lists id keys) :
    t.keys id = keys := by
  rw [LayoutTree.keys, h]
  rfl

theorem Lists.unique {t : LayoutTree} {id : LayoutId} {keys keys' : List String}
    (h : t.Lists id keys) (h' : t.Lists id keys') : keys = keys' := h.keys.symm.trans h'.keys

theorem Lists.live {t : LayoutTree} {id : LayoutId} {keys : List String} (h : t.Lists id keys) :
    t.live id := by
  rw [LayoutTree.live, Option.isSome_iff_exists]
  obtain ⟨n, node, -⟩ := Option.map_eq_some_iff.mp h
  exact ⟨n, node⟩

theorem lists_of_live {t : LayoutTree} {id : LayoutId} (live : t.live id) :
    t.Lists id (t.keys id) := by
  obtain ⟨n, node⟩ := Option.isSome_iff_exists.mp live
  rw [Lists, keys, node]
  rfl

theorem Remembers.lists {t : LayoutTree} {id c : LayoutId} {key : String}
    (h : t.Remembers id key c) : t.Lists id (t.keys id) := by
  obtain ⟨n, node, -⟩ := h
  exact lists_of_live (Option.isSome_iff_exists.mpr ⟨n, node⟩)

theorem mem_of_lookup {entries : List (String × LayoutId)} {key : String} {id : LayoutId}
    (found : entries.lookup key = some id) : (key, id) ∈ entries := by
  obtain ⟨before, after, rfl, -⟩ := List.lookup_eq_some_iff.mp found
  exact List.mem_append_right _ List.mem_cons_self

theorem remembers_of_child? {t : LayoutTree} {id c : LayoutId} {key : String}
    (found : t.child? id key = some c) : t.Remembers id key c := by
  obtain ⟨n, node, found⟩ := Option.bind_eq_some_iff.mp found
  exact ⟨n, node, mem_of_lookup (Option.filter_eq_some_iff.mp found).1⟩

/-- The slot of a key does not move when keys are added behind it. -/
theorem idxOf?_append {keys more : List String} {key : String} {slot : Nat}
    (h : keys.idxOf? key = some slot) : (keys ++ more).idxOf? key = some slot := by
  rw [List.idxOf?, List.findIdx?_append]
  rw [List.idxOf?] at h
  rw [h]
  rfl

theorem sound_empty : empty.Sound where
  root := rfl
  child := by
    rintro id key c keys ⟨n, node, remembered⟩
    cases id with
    | zero => cases node; cases remembered
    | succ id => cases node

section

variable {t : LayoutTree} {id : LayoutId} {key : String}

/-- Only what one layout remembers is changed. -/
theorem node?_mapChildren (f : List (String × LayoutId) → List (String × LayoutId))
    (other : LayoutId) :
    (t.mapChildren id f).node? other = (t.node? other).map fun n =>
      { n with children := if id = other then f n.children else n.children } := by
  unfold node? mapChildren
  rw [Array.getElem?_modify]
  by_cases same : id = other
  · simp only [if_pos same]
    cases t.nodes[other]? with
    | none => rfl
    | some n => rfl
  · simp [same]

theorem lists_mapChildren {other : LayoutId} {keys : List String}
    {f : List (String × LayoutId) → List (String × LayoutId)} :
    (t.mapChildren id f).Lists other keys ↔ t.Lists other keys := by
  rw [Lists, node?_mapChildren, Option.map_map]
  rfl

theorem live_mapChildren {other : LayoutId}
    {f : List (String × LayoutId) → List (String × LayoutId)} :
    (t.mapChildren id f).live other = t.live other := by
  rw [live, node?_mapChildren, Option.isSome_map, live]

/-- The nodes after a key was added that led nowhere before. -/
theorem node?_extend (missing : t.child? id key = none) (other : LayoutId) :
    (t.extend id key).2.node? other =
      if other = t.nodes.size then some ⟨t.keys id ++ [key], some id, []⟩
      else (t.mapChildren id fun children =>
        (key, t.nodes.size) :: children.filter (·.1 ≠ key)).node? other := by
  have size (f) : (t.mapChildren id f).nodes.size = t.nodes.size := Array.size_modify
  simp only [extend, missing]
  unfold node?
  rw [Array.getElem?_push, size]
  by_cases last : other = t.nodes.size
  · rw [if_pos last, if_pos last]
    rfl
  · rw [if_neg last, if_neg last]

theorem Lists.lt_size {keys : List String} (h : t.Lists id keys) : id < t.nodes.size := by
  rcases Nat.lt_or_ge id t.nodes.size with inside | outside
  · exact inside
  · unfold Lists node? at h
    rw [Array.getElem?_eq_none outside] at h
    cases h

theorem grows_extend : t.Grows (t.extend id key).2 := by
  cases found : t.child? id key with
  | some c =>
    rw [extend, found]
    exact Grows.refl t
  | none =>
    intro other keys h
    have old : other ≠ t.nodes.size := Nat.ne_of_lt h.lt_size
    rw [Lists, node?_extend found, if_neg old]
    exact lists_mapChildren.mpr h

/-- The layout that adding a key leads to. -/
theorem lists_extend (sound : t.Sound) {keys : List String} (h : t.Lists id keys) :
    (t.extend id key).2.Lists (t.extend id key).1 (keys ++ [key]) := by
  cases found : t.child? id key with
  | some c =>
    rw [extend, found]
    exact sound.child id key c keys (remembers_of_child? found) h
  | none =>
    have new : (t.extend id key).1 = t.nodes.size := by rw [extend, found]
    rw [new, Lists, node?_extend found, if_pos rfl, h.keys]
    rfl

/-- What a layout remembers after a key was added that led nowhere: the new layout under that key,
and what was remembered before under the others. -/
theorem remembers_extend (missing : t.child? id key = none) {parent c : LayoutId} {k : String}
    (h : (t.extend id key).2.Remembers parent k c) :
    (parent = id ∧ k = key ∧ c = t.nodes.size) ∨ t.Remembers parent k c := by
  obtain ⟨n, node, entry⟩ := h
  rw [node?_extend missing, node?_mapChildren] at node
  by_cases last : parent = t.nodes.size
  · rw [if_pos last] at node
    cases node
    cases entry
  · rw [if_neg last] at node
    obtain ⟨old, was, rfl⟩ := Option.map_eq_some_iff.mp node
    by_cases same : id = parent
    · simp only [if_pos same] at entry
      rcases List.mem_cons.mp entry with new | before
      · cases new
        exact .inl ⟨same.symm, rfl, rfl⟩
      · exact .inr ⟨old, was, (List.mem_filter.mp before).1⟩
    · simp only [if_neg same] at entry
      exact .inr ⟨old, was, entry⟩

theorem sound_extend (sound : t.Sound) {keys : List String} (h : t.Lists id keys) :
    (t.extend id key).2.Sound := by
  refine ⟨grows_extend _ _ sound.root, ?_⟩
  intro parent k c ks hc hp
  cases found : t.child? id key with
  | some c' =>
    rw [extend, found] at hc hp ⊢
    exact sound.child parent k c ks hc hp
  | none =>
    rcases remembers_extend found hc with ⟨rfl, rfl, rfl⟩ | old
    · have new : (t.extend parent k).1 = t.nodes.size := by rw [extend, found]
      rw [← new, hp.unique (grows_extend _ _ h)]
      exact lists_extend sound h
    · have live : t.Lists parent (t.keys parent) := old.lists
      rw [hp.unique (grows_extend _ _ live)]
      exact grows_extend _ _ (sound.child parent k c _ old live)

end

end ProtoVM.LayoutTree
