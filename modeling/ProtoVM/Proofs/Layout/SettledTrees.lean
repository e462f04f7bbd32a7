import Mathlib.Data.List.Induction
import Mathlib.Data.Set.Card
import ProtoVM.Proofs.Layout.Growth

/-!
# Settled trees of layouts

A tree of layouts is settled when each layout in it has a reason: it is held, or others were made
from it that are still there. A settled tree has one layout for each list of keys that a held layout
starts with. Making a layout leaves that one loose and giving one up leaves its parent loose, until
it is held or given up in turn.
-/

namespace ProtoVM.LayoutTree

/-! ## Linked trees -/

/-- The layout that an existing one was made from. -/
def parent? (t : LayoutTree) (id : LayoutId) : Option LayoutId := (t.node? id).bind (·.parent)

/-- Every layout but the empty one is remembered by the one it was made from, which is older, and by
no other. A key leads to one layout only. -/
structure Linked (t : LayoutTree) : Prop extends t.Sound where
  top : t.parent? LayoutTree.root = none
  up : ∀ id, t.live id → id ≠ LayoutTree.root →
    ∃ p key, t.parent? id = some p ∧ p < id ∧ t.Remembers p key id
  down : ∀ id key c, t.Remembers id key c → t.parent? c = some id
  distinct : ∀ id n, t.node? id = some n → (n.children.map Prod.fst).Nodup

theorem lookup_eq_some_of_mem {entries : List (String × LayoutId)} {key : String} {id : LayoutId}
    (distinct : (entries.map Prod.fst).Nodup) (h : (key, id) ∈ entries) :
    entries.lookup key = some id := by
  cases found : entries.lookup key with
  | none =>
    have other := List.lookup_eq_none_iff.mp found _ h
    rw [bne_self_eq_false] at other
    cases other
  | some id' =>
    cases List.inj_on_of_nodup_map distinct h (mem_of_lookup found) rfl
    rfl

theorem linked_empty : empty.Linked where
  toSound := sound_empty
  top := rfl
  up := by
    intro id live new
    cases id with
    | zero => exact absurd rfl new
    | succ id => cases live
  down := by
    rintro id key c ⟨n, node, remembered⟩
    cases id with
    | zero => cases node; cases remembered
    | succ id => cases node
  distinct := by
    intro id n node
    cases id with
    | zero => cases node; exact List.nodup_nil
    | succ id => cases node

namespace Linked

variable {t : LayoutTree} {a b c c' id : LayoutId} {key : String} {keys : List String}

theorem ne_root_of_parent? (linked : t.Linked) {p : LayoutId} (parent : t.parent? id = some p) :
    id ≠ LayoutTree.root := by
  rintro rfl
  cases parent.symm.trans linked.top

theorem live_of_remembers (linked : t.Linked) (h : t.Remembers id key c) : t.live c :=
  (linked.child id key c _ h h.lists).live

theorem lt_of_remembers (linked : t.Linked) (h : t.Remembers id key c) : id < c := by
  have made := linked.down id key c h
  obtain ⟨p, _, parent, older, -⟩ :=
    linked.up c (linked.live_of_remembers h) (linked.ne_root_of_parent? made)
  cases parent.symm.trans made
  exact older

theorem remembers_unique (linked : t.Linked) (h : t.Remembers id key c)
    (h' : t.Remembers id key c') : c = c' := by
  obtain ⟨n, node, entry⟩ := h
  obtain ⟨_, node', entry'⟩ := h'
  cases node.symm.trans node'
  cases List.inj_on_of_nodup_map (linked.distinct id n node) entry entry' rfl
  rfl

/-- Every layout but the empty one has a last key. -/
theorem eq_root_of_lists_nil (linked : t.Linked) (h : t.Lists c []) : c = LayoutTree.root := by
  by_contra new
  obtain ⟨p, key, -, -, remembered⟩ := linked.up c h.live new
  have last := h.unique (linked.child p key c _ remembered remembered.lists)
  exact List.append_ne_nil_of_right_ne_nil _ (List.cons_ne_nil _ _) last.symm

/-- A layout with a last key is what the layout with the keys before it leads to. -/
theorem exists_remembers_of_lists (linked : t.Linked) (h : t.Lists c (keys ++ [key])) :
    ∃ p, t.Lists p keys ∧ t.Remembers p key c := by
  have new : c ≠ LayoutTree.root := by
    rintro rfl
    exact List.append_ne_nil_of_right_ne_nil _ (List.cons_ne_nil _ _) (h.unique linked.root)
  obtain ⟨p, k, -, -, remembered⟩ := linked.up c h.live new
  have last := h.unique (linked.child p k c _ remembered remembered.lists)
  obtain ⟨rfl, same⟩ := List.append_inj' last rfl
  cases same
  exact ⟨p, remembered.lists, remembered⟩

/-- There is one layout for a list of keys. -/
theorem eq_of_lists (linked : t.Linked) (ha : t.Lists a keys) (hb : t.Lists b keys) : a = b := by
  induction keys using List.reverseRecOn generalizing a b with
  | nil => rw [linked.eq_root_of_lists_nil ha, linked.eq_root_of_lists_nil hb]
  | append_singleton keys key ih =>
    obtain ⟨p, hp, under⟩ := linked.exists_remembers_of_lists ha
    obtain ⟨q, hq, under'⟩ := linked.exists_remembers_of_lists hb
    obtain rfl := ih hp hq
    exact linked.remembers_unique under under'

theorem remembers_iff_lists (linked : t.Linked) (h : t.Lists id keys) :
    t.Remembers id key c ↔ t.Lists c (keys ++ [key]) := by
  constructor
  · intro remembered
    exact linked.child id key c keys remembered h
  · intro hc
    obtain ⟨p, hp, remembered⟩ := linked.exists_remembers_of_lists hc
    rwa [linked.eq_of_lists h hp]

/-- Whatever the keys of a layout start with is the keys of a layout. -/
theorem exists_lists_of_isPrefix (linked : t.Linked) (h : t.Lists b keys) {start : List String}
    (starts : start <+: keys) : ∃ a, t.Lists a start := by
  induction keys using List.reverseRecOn generalizing b with
  | nil => exact ⟨b, by rwa [List.prefix_nil.mp starts]⟩
  | append_singleton keys key ih =>
    rcases List.prefix_concat_iff.mp starts with rfl | before
    · exact ⟨b, h⟩
    · obtain ⟨p, hp, -⟩ := linked.exists_remembers_of_lists h
      exact ih hp before

theorem child?_eq_some_iff (linked : t.Linked) :
    t.child? id key = some c ↔ t.Remembers id key c := by
  constructor
  · exact remembers_of_child?
  · intro remembered
    have live := linked.live_of_remembers remembered
    obtain ⟨n, node, entry⟩ := remembered
    have found := lookup_eq_some_of_mem (linked.distinct id n node) entry
    rw [child?, node, Option.bind_some, found, Option.filter_some, if_pos live]

end Linked

/-! ## Giving up a layout -/

section

variable {t : LayoutTree} {a c id p : LayoutId} {key : String}
  {f : List (String × LayoutId) → List (String × LayoutId)}

theorem parent?_mapChildren : (t.mapChildren id f).parent? a = t.parent? a := by
  rw [parent?, node?_mapChildren, parent?]
  cases t.node? a with
  | none => rfl
  | some n => rfl

theorem node?_clear : (t.clear id).node? a = if id = a then none else t.node? a := by
  unfold node? clear
  rw [Array.getElem?_setIfInBounds]
  split
  · split <;> rfl
  · rfl

theorem live_clear : (t.clear id).live a ↔ a ≠ id ∧ t.live a := by
  rw [live, node?_clear]
  by_cases same : id = a
  · simp [same]
  · simp [same, Ne.symm same, live]

theorem live_remove : (t.remove id p).live a ↔ a ≠ id ∧ t.live a := by
  rw [remove, live_mapChildren, live_clear]

theorem parent?_remove (stays : a ≠ id) : (t.remove id p).parent? a = t.parent? a := by
  rw [remove, parent?_mapChildren, parent?, node?_clear, if_neg stays.symm, parent?]

theorem lists_remove {keys : List String} (stays : a ≠ id) :
    (t.remove id p).Lists a keys ↔ t.Lists a keys := by
  rw [remove, lists_mapChildren, Lists, node?_clear, if_neg stays.symm, Lists]

/-- A layout that stays is what it was, but for what it remembers. -/
theorem node?_remove (stays : a ≠ id) :
    (t.remove id p).node? a = (t.node? a).map fun n =>
      { n with children :=
          if p = a then
            n.children.filter fun (key, child) =>
              (t.keys id).getLast? ≠ some key || (t.clear id).live child
          else n.children } := by
  rw [remove, node?_mapChildren, node?_clear, if_neg stays.symm]

/-- Who gives up a layout forgets nothing but that layout. -/
theorem remembers_remove (linked : t.Linked) (parent : t.parent? id = some p) :
    (t.remove id p).Remembers a key c ↔ a ≠ id ∧ c ≠ id ∧ t.Remembers a key c := by
  constructor
  · intro h
    obtain ⟨stays, -⟩ := live_remove.mp h.lists.live
    obtain ⟨n, node, entry⟩ := h
    rw [node?_remove stays] at node
    obtain ⟨old, was, rfl⟩ := Option.map_eq_some_iff.mp node
    by_cases above : p = a
    · subst above
      simp only [↓reduceIte] at entry
      obtain ⟨before, kept⟩ := List.mem_filter.mp entry
      have remembered : t.Remembers p key c := ⟨old, was, before⟩
      refine ⟨stays, ?_, remembered⟩
      rintro rfl
      have lists := linked.child p key c _ remembered remembered.lists
      simp [lists.keys, LayoutTree.live, node?_clear] at kept
    · simp only [if_neg above] at entry
      have remembered : t.Remembers a key c := ⟨old, was, entry⟩
      refine ⟨stays, ?_, remembered⟩
      rintro rfl
      cases parent.symm.trans (linked.down a key c remembered)
      exact above rfl
  · rintro ⟨stays, other, remembered⟩
    have live := live_clear.mpr ⟨other, linked.live_of_remembers remembered⟩
    obtain ⟨n, node, entry⟩ := remembered
    unfold Remembers
    rw [node?_remove stays, node]
    refine ⟨_, rfl, ?_⟩
    by_cases above : p = a
    · simp [above, entry, live]
    · simp [above, entry]

/-- A tree stays linked when a layout is given up that remembers no other. -/
theorem linked_remove (linked : t.Linked) (parent : t.parent? id = some p)
    (leaf : ∀ key c, ¬ t.Remembers id key c) : (t.remove id p).Linked where
  root := (lists_remove (linked.ne_root_of_parent? parent).symm).mpr linked.root
  child := by
    intro a key c keys remembered lists
    obtain ⟨stays, other, before⟩ := (remembers_remove linked parent).mp remembered
    exact (lists_remove other).mpr
      (linked.child a key c keys before ((lists_remove stays).mp lists))
  top := by rw [parent?_remove (linked.ne_root_of_parent? parent).symm, linked.top]
  up := by
    intro a live new
    obtain ⟨stays, before⟩ := live_remove.mp live
    obtain ⟨q, key, above, older, remembered⟩ := linked.up a before new
    refine ⟨q, key, by rwa [parent?_remove stays], older, ?_⟩
    refine (remembers_remove linked parent).mpr ⟨?_, stays, remembered⟩
    rintro rfl
    exact leaf key a remembered
  down := by
    intro a key c remembered
    obtain ⟨-, other, before⟩ := (remembers_remove linked parent).mp remembered
    rw [parent?_remove other, linked.down a key c before]
  distinct := by
    intro a n node
    obtain ⟨stays, -⟩ := live_remove.mp (Option.isSome_iff_exists.mpr ⟨n, node⟩)
    rw [node?_remove stays] at node
    obtain ⟨old, was, rfl⟩ := Option.map_eq_some_iff.mp node
    have before := linked.distinct a old was
    by_cases above : p = a
    · simp only [if_pos above]
      exact before.sublist (List.filter_sublist.map _)
    · simpa only [if_neg above] using before

/-! ## Making a layout -/

theorem parent?_extend (missing : t.child? id key = none) :
    (t.extend id key).2.parent? a = if a = t.nodes.size then some id else t.parent? a := by
  rw [parent?, node?_extend missing]
  by_cases last : a = t.nodes.size
  · rw [if_pos last, if_pos last]
    rfl
  · rw [if_neg last, if_neg last]
    exact parent?_mapChildren

theorem live_of_live_extend (missing : t.child? id key = none) (old : a ≠ t.nodes.size)
    (live : (t.extend id key).2.live a) : t.live a := by
  rw [LayoutTree.live, node?_extend missing, if_neg old] at live
  exact live_mapChildren ▸ live

/-- A layout that is made is remembered, and nothing else changes what is remembered. -/
theorem remembers_extend_iff (linked : t.Linked) (live : t.live id)
    (missing : t.child? id key = none) {k : String} :
    (t.extend id key).2.Remembers a k c ↔
      (a = id ∧ k = key ∧ c = t.nodes.size) ∨ t.Remembers a k c := by
  refine ⟨remembers_extend missing, ?_⟩
  rintro (⟨rfl, rfl, rfl⟩ | remembered)
  · have old : a ≠ t.nodes.size := Nat.ne_of_lt (lists_of_live live).lt_size
    obtain ⟨n, node⟩ := Option.isSome_iff_exists.mp live
    unfold Remembers
    rw [node?_extend missing, if_neg old, node?_mapChildren, node]
    exact ⟨_, rfl, by simp⟩
  · have old : a ≠ t.nodes.size := Nat.ne_of_lt remembered.lists.lt_size
    have kept : id = a → k ≠ key := by
      rintro rfl rfl
      cases missing.symm.trans (linked.child?_eq_some_iff.mpr remembered)
    obtain ⟨n, node, entry⟩ := remembered
    unfold Remembers
    rw [node?_extend missing, if_neg old, node?_mapChildren, node]
    refine ⟨_, rfl, ?_⟩
    by_cases same : id = a
    · simp [same, entry, kept same]
    · simp [same, entry]

/-- A tree stays linked when a layout is made. -/
theorem linked_extend_of_missing (linked : t.Linked) (live : t.live id)
    (missing : t.child? id key = none) : (t.extend id key).2.Linked where
  toSound := sound_extend linked.toSound (lists_of_live live)
  top := by
    have old := Nat.ne_of_lt linked.root.lt_size
    rw [parent?_extend missing, if_neg old, linked.top]
  up := by
    intro a live' new
    rw [parent?_extend missing]
    by_cases last : a = t.nodes.size
    · subst last
      rw [if_pos rfl]
      refine ⟨id, key, rfl, (lists_of_live live).lt_size, ?_⟩
      exact (remembers_extend_iff linked live missing).mpr (.inl ⟨rfl, rfl, rfl⟩)
    · rw [if_neg last]
      obtain ⟨p, k, parent, older, remembered⟩ :=
        linked.up a (live_of_live_extend missing last live') new
      refine ⟨p, k, parent, older, ?_⟩
      exact (remembers_extend_iff linked live missing).mpr (.inr remembered)
  down := by
    intro a k c remembered
    rw [parent?_extend missing]
    rcases remembers_extend missing remembered with ⟨rfl, rfl, rfl⟩ | before
    · rw [if_pos rfl]
    · have old := Nat.ne_of_lt (lists_of_live (linked.live_of_remembers before)).lt_size
      rw [if_neg old, linked.down a k c before]
  distinct := by
    intro a n node
    rw [node?_extend missing, node?_mapChildren] at node
    by_cases last : a = t.nodes.size
    · rw [if_pos last] at node
      cases node
      exact List.nodup_nil
    · rw [if_neg last] at node
      obtain ⟨old, was, rfl⟩ := Option.map_eq_some_iff.mp node
      have before := linked.distinct a old was
      by_cases same : id = a
      · simp only [if_pos same, List.map_cons]
        refine List.nodup_cons.mpr ⟨by simp, before.sublist (List.filter_sublist.map _)⟩
      · simpa only [if_neg same] using before

theorem linked_extend (linked : t.Linked) (live : t.live id) (key : String) :
    (t.extend id key).2.Linked := by
  cases missing : t.child? id key with
  | some c =>
    rw [extend, missing]
    exact linked
  | none => exact linked_extend_of_missing linked live missing

theorem live_extend (linked : t.Linked) (live : t.live id) (key : String) :
    (t.extend id key).2.live (t.extend id key).1 :=
  (lists_extend linked.toSound (lists_of_live live)).live

end

/-! ## Settled trees -/

/-- The held layouts exist, and every other layout is there for the ones that it leads to; the empty
layout and the one that is `loose` need no reason. -/
structure Settled (t : LayoutTree) (held : LayoutId → Bool) (loose : LayoutId) : Prop where
  linked : t.Linked
  live : ∀ id, held id → t.live id
  needed : ∀ id, t.live id → id ≠ root → id ≠ loose → held id ∨ ∃ key c, t.Remembers id key c

section

variable {t : LayoutTree} {held held' : LayoutId → Bool} {id loose p : LayoutId}

/-- A layout that has a reason to stay need not be loose. -/
theorem Settled.tighten (settled : t.Settled held id)
    (reason : t.live id → id ≠ root → held id ∨ ∃ key c, t.Remembers id key c) :
    t.Settled held loose where
  linked := settled.linked
  live := settled.live
  needed := by
    intro a live new _
    by_cases itself : a = id
    · subst itself
      exact reason live new
    · exact settled.needed a live new itself

/-- Other handles hold other layouts: one may be held anew, another one may be loose now. -/
theorem Settled.rehold (settled : t.Settled held id) (live : t.live id)
    (new : id ≠ root → held' id) (fewer : ∀ a, held' a → held a ∨ a = id)
    (most : ∀ a, held a → held' a ∨ a = loose) : t.Settled held' loose where
  linked := settled.linked
  live := by
    intro a holds
    rcases fewer a holds with before | rfl
    · exact settled.live a before
    · exact live
  needed := by
    intro a there inner tight
    by_cases itself : a = id
    · subst itself
      exact .inl (new inner)
    · rcases settled.needed a there inner itself with holds | remembers
      · exact .inl ((most a holds).resolve_right tight)
      · exact .inr remembers

/-- A new layout is loose at first. -/
theorem Settled.extend (settled : t.Settled held root) (live : t.live id) (key : String) :
    (t.extend id key).2.Settled held (t.extend id key).1 where
  linked := linked_extend settled.linked live key
  live := by
    intro a holds
    exact (grows_extend a _ (lists_of_live (settled.live a holds))).live
  needed := by
    intro a live' new tight
    cases missing : t.child? id key with
    | some c =>
      rw [LayoutTree.extend, missing] at live' ⊢
      exact settled.needed a live' new new
    | none =>
      have old : a ≠ t.nodes.size := by
        rw [LayoutTree.extend, missing] at tight
        exact tight
      rcases settled.needed a (live_of_live_extend missing old live') new new with
        holds | ⟨k, c, remembered⟩
      · exact .inl holds
      · refine .inr ⟨k, c, ?_⟩
        exact (remembers_extend_iff settled.linked live missing).mpr (.inr remembered)

/-- Giving up a loose layout leaves its parent loose. -/
theorem Settled.remove (settled : t.Settled held id) (parent : t.parent? id = some p)
    (free : ¬ held id) (leaf : ∀ key c, ¬ t.Remembers id key c) :
    (t.remove id p).Settled held p where
  linked := linked_remove settled.linked parent leaf
  live := by
    intro a holds
    refine live_remove.mpr ⟨?_, settled.live a holds⟩
    rintro rfl
    exact free holds
  needed := by
    intro a live new tight
    obtain ⟨stays, before⟩ := live_remove.mp live
    rcases settled.needed a before new stays with holds | ⟨key, c, remembered⟩
    · exact .inl holds
    · refine .inr ⟨key, c, (remembers_remove settled.linked parent).mpr ⟨stays, ?_, remembered⟩⟩
      rintro rfl
      cases parent.symm.trans (settled.linked.down a key c remembered)
      exact tight rfl

/-- After the layouts without a reason are given up, from the loose one upwards, none is loose. -/
theorem Settled.prune (settled : t.Settled held id) : (t.prune held id).Settled held root := by
  fun_induction LayoutTree.prune t held id with
  | case1 t id gone =>
    apply settled.tighten
    intro live
    rw [LayoutTree.live, gone] at live
    cases live
  | case2 t id n node top =>
    apply settled.tighten
    intro live new
    obtain ⟨p, key, parent, -⟩ := settled.linked.up id live new
    rw [parent?, node, Option.bind_some, top] at parent
    cases parent
  | case3 t id n node p parent reason =>
    apply settled.tighten
    intro _ _
    rcases Bool.or_eq_true_iff.mp reason with holds | remembers
    · exact .inl holds
    · have children : n.children ≠ [] := by simpa using remembers
      obtain ⟨⟨key, c⟩, entry⟩ := List.exists_mem_of_ne_nil _ children
      exact .inr ⟨key, c, n, node, entry⟩
  | case4 t id n node p parent free older ih =>
    have above : t.parent? id = some p := by rw [parent?, node, Option.bind_some, parent]
    obtain ⟨lone, leaf⟩ := not_or.mp (Bool.or_eq_true_iff.not.mp free)
    refine ih (settled.remove above lone ?_)
    rintro key c ⟨n', node', entry⟩
    cases node.symm.trans node'
    simp [List.ne_nil_of_mem entry] at leaf
  | case5 t id n node p parent free younger =>
    have above : t.parent? id = some p := by rw [parent?, node, Option.bind_some, parent]
    have live : t.live id := by rw [LayoutTree.live, node, Option.isSome_some]
    obtain ⟨q, _, above', older, -⟩ :=
      settled.linked.up id live (settled.linked.ne_root_of_parent? above)
    cases above.symm.trans above'
    exact absurd older younger

/-! ## What a settled tree has -/

/-- Every layout but the empty one is there for a held one whose keys start with its own. -/
theorem Settled.exists_held (settled : t.Settled held root) (live : t.live id) (new : id ≠ root) :
    ∃ b, held b ∧ t.keys id <+: t.keys b := by
  -- what a layout remembers has a larger id, and the ids end with the tree
  induction gap : t.nodes.size - id using Nat.strong_induction_on generalizing id with
  | _ _ ih =>
    rcases settled.needed id live new new with holds | ⟨key, c, remembered⟩
    · exact ⟨id, holds, List.prefix_refl _⟩
    · have larger := settled.linked.lt_of_remembers remembered
      have child := settled.linked.child id key c _ remembered remembered.lists
      have closer := Nat.sub_lt_sub_left (larger.trans child.lt_size) larger
      have new' : c ≠ root := Nat.ne_of_gt (Nat.zero_lt_of_lt larger)
      obtain ⟨b, holds, starts⟩ := ih _ (gap ▸ closer) child.live new' rfl
      rw [child.keys] at starts
      exact ⟨b, holds, (List.prefix_append _ _).trans starts⟩

/-- A layout remembers another one under a key if and only if the keys of a held layout start with
its own and that key. -/
theorem Settled.exists_remembers_iff (settled : t.Settled held root) {keys : List String}
    (h : t.Lists id keys) {key : String} :
    (∃ c, t.Remembers id key c) ↔ ∃ b, held b ∧ keys ++ [key] <+: t.keys b := by
  constructor
  · rintro ⟨c, remembered⟩
    have child := settled.linked.child id key c keys remembered h
    have new : c ≠ root :=
      Nat.ne_of_gt (Nat.zero_lt_of_lt (settled.linked.lt_of_remembers remembered))
    obtain ⟨b, holds, starts⟩ := settled.exists_held child.live new
    exact ⟨b, holds, child.keys ▸ starts⟩
  · rintro ⟨b, holds, starts⟩
    have lists := lists_of_live (settled.live b holds)
    obtain ⟨c, child⟩ := settled.linked.exists_lists_of_isPrefix lists starts
    exact ⟨c, (settled.linked.remembers_iff_lists h).mpr child⟩

theorem Linked.childCount_eq (linked : t.Linked) (live : t.live id) :
    (t.childCount id : ℕ∞) = {key | ∃ c, t.Remembers id key c}.encard := by
  obtain ⟨n, node⟩ := Option.isSome_iff_exists.mp live
  have all : n.children.countP (t.live ·.2) = n.children.length := by
    refine List.countP_eq_length.mpr ?_
    rintro ⟨key, c⟩ entry
    exact linked.live_of_remembers ⟨n, node, entry⟩
  have keys : {key | ∃ c, t.Remembers id key c} =
      ((n.children.map Prod.fst).toFinset : Set String) := by
    ext key
    simp [Remembers, node]
  rw [keys, Set.encard_coe_eq_coe_finsetCard,
    List.toFinset_card_of_nodup (linked.distinct id n node), List.length_map, childCount, node,
    Option.map_some, Option.getD_some, all]

end

end ProtoVM.LayoutTree
