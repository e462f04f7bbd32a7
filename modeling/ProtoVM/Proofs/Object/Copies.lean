import Mathlib.Logic.Relation
import ProtoVM.Proofs.Layout.SettledTrees
import ProtoVM.Proofs.Object.Inheritance
import ProtoVM.Proofs.Object.OrderedStores

/-!
# Copies

To copy an object its keys are set on a new object, one after the other. On a heap that was made
step by step (`Heap.Neat`) they lead through layouts that are there already, since the layout of the
source was made from them. So no layout is made, the copy ends at the very layout of the source
(`Heap.Neat.replaces_map`), and nothing but the copy is new (`Heap.Copies`).
-/

namespace ProtoVM

/-! ## Layouts without repeated keys -/

namespace LayoutTree

variable {t : LayoutTree} {a id : LayoutId} {key : String} {keys : List String}

/-- A linked tree in which no layout has a key twice. -/
structure Neat (t : LayoutTree) : Prop extends t.Linked where
  nodup : ∀ id keys, t.Lists id keys → keys.Nodup

theorem neat_empty : empty.Neat where
  toLinked := linked_empty
  nodup := by
    intro id keys lists
    cases id with
    | zero =>
      obtain rfl := lists.unique linked_empty.root
      exact List.nodup_nil
    | succ id => cases lists

theorem lists_of_lists_extend (h : (t.extend id key).2.Lists a keys) :
    t.Lists a keys ∨ keys = t.keys id ++ [key] := by
  cases missing : t.child? id key with
  | some c =>
    rw [extend, missing] at h
    exact .inl h
  | none =>
    rw [Lists, node?_extend missing] at h
    by_cases last : a = t.nodes.size
    · rw [if_pos last] at h
      exact .inr (Option.some.inj h).symm
    · rw [if_neg last] at h
      exact .inl (lists_mapChildren.mp h)

theorem Neat.extend (neat : t.Neat) (live : t.live id) (new : key ∉ t.keys id) :
    (t.extend id key).2.Neat where
  toLinked := linked_extend neat.toLinked live key
  nodup := by
    intro a keys lists
    rcases lists_of_lists_extend lists with old | rfl
    · exact neat.nodup a keys old
    · rw [← List.concat_eq_append]
      exact (neat.nodup id _ (lists_of_live live)).concat new

end LayoutTree

/-! ## Entries as puts -/

theorem putKeys_of_nodup {puts : List (String × Value)} (distinct : (puts.map Prod.fst).Nodup) :
    putKeys puts = puts.map Prod.fst := by
  induction puts using List.reverseRecOn with
  | nil => rfl
  | append_singleton puts put ih =>
    rw [List.map_append, List.nodup_append] at distinct
    obtain ⟨before, -, apart⟩ := distinct
    have new : put.1 ∉ puts.map Prod.fst := fun mem => apart _ mem _ (List.mem_singleton_self _) rfl
    rw [putKeys_concat, ih before, if_neg new, List.map_append]
    rfl

theorem map_lastPut?_of_nodup {puts : List (String × Value)}
    (distinct : (puts.map Prod.fst).Nodup) :
    (puts.map Prod.fst).map (lastPut? puts) = puts.map fun put => some put.2 := by
  induction puts using List.reverseRecOn with
  | nil => rfl
  | append_singleton puts put ih =>
    obtain ⟨last, value⟩ := put
    rw [List.map_append, List.nodup_append] at distinct
    obtain ⟨before, -, apart⟩ := distinct
    have old : (puts.map Prod.fst).map (lastPut? (puts ++ [(last, value)])) =
        (puts.map Prod.fst).map (lastPut? puts) := by
      refine List.map_congr_left fun key mem => ?_
      rw [lastPut?_concat, if_neg (apart key mem _ (List.mem_singleton_self _))]
    rw [List.map_append, List.map_append, old, ih before, List.map_append]
    simp

namespace Store

variable {t : LayoutTree} {s : Store} {key : String} {value : Value}

theorem slotOf?_eq_none_iff : s.slotOf? t key = none ↔ key ∉ s.keys t := List.idxOf?_eq_none_iff

theorem neat_insert (neat : t.Neat) (sound : s.Sound t) : (s.insert t key value).2.Neat := by
  obtain ⟨keys, lists, -⟩ := sound
  cases known : s.slotOf? t key with
  | some slot =>
    rw [insert_of_known known]
    exact neat
  | none =>
    rw [insert_of_new known]
    exact neat.extend lists.live (slotOf?_eq_none_iff.mp known)

/-- Where a layout for the keys and the new one is there, no other is made. -/
theorem insert_of_lists (neat : t.Neat) {keys : List String} {c : LayoutId}
    (here : t.Lists s.layout keys) (there : t.Lists c (keys ++ [key])) :
    s.insert t key value = (⟨c, s.values ++ [value]⟩, t) := by
  have distinct := neat.nodup c _ there
  have new : key ∉ s.keys t := by
    rw [Store.keys, here.keys]
    exact fun mem => (List.nodup_append.mp distinct).2.2 key mem key (List.mem_singleton_self _) rfl
  have leads : t.child? s.layout key = some c :=
    neat.child?_eq_some_iff.mpr ((neat.remembers_iff_lists here).mpr there)
  rw [insert_of_new (slotOf?_eq_none_iff.mpr new), LayoutTree.extend, leads]

theorem Sound.map_fst_entries (sound : s.Sound t) : (s.entries t).map Prod.fst = s.keys t := by
  obtain ⟨keys, lists, length⟩ := sound
  rw [entries, Store.keys, lists.keys, List.map_fst_zip (Nat.le_of_eq length.symm)]

theorem Sound.map_snd_entries (sound : s.Sound t) : (s.entries t).map Prod.snd = s.values := by
  obtain ⟨keys, lists, length⟩ := sound
  rw [entries, Store.keys, lists.keys, List.map_snd_zip (Nat.le_of_eq length)]

theorem Sound.lists (sound : s.Sound t) : t.Lists s.layout (s.keys t) := by
  obtain ⟨keys, lists, -⟩ := sound
  rwa [Store.keys, lists.keys]

/-- A store is what putting its entries makes. -/
theorem represents_entries (neat : t.Neat) (sound : s.Sound t) :
    s.Represents t (s.entries t) := by
  have distinct : ((s.entries t).map Prod.fst).Nodup := by
    rw [sound.map_fst_entries]
    exact neat.nodup _ _ sound.lists
  constructor
  case lists =>
    rw [putKeys_of_nodup distinct, sound.map_fst_entries]
    exact sound.lists
  case values =>
    rw [putKeys_of_nodup distinct, map_lastPut?_of_nodup distinct, ← sound.map_snd_entries,
      List.map_map]
    rfl

end Store

namespace Heap

variable {h h' : Heap} {o p q : ObjectId} {object : Object} {key : String} {value : Value}

/-! ## Steps -/

/-- The three things that ever happen to a heap. -/
inductive Step (h : Heap) : Heap → Prop
  | alloc (kind : ObjectKind) (proto : Option ObjectId) (hd : Handle) :
      Step h (h.alloc kind proto hd).2
  | set (o : ObjectId) (key : String) (value : Value) : Step h (h.set o key value)
  | advance (o : ObjectId) : Step h (h.advance o)

/-- The first heap becomes the second one in some number of steps. -/
abbrev Reaches : Heap → Heap → Prop := Relation.ReflTransGen Step

theorem reaches_setAll (h : Heap) (o : ObjectId) (entries : List (String × Value)) :
    h.Reaches (h.setAll o entries) := by
  induction entries generalizing h with
  | nil => exact .refl
  | cons entry entries ih => exact .head (.set o entry.1 entry.2) (ih (h.set o entry.1 entry.2))

theorem reaches_newFunction (h : Heap) (name : String) (hd : Handle) :
    h.Reaches (h.newFunction name hd).2 :=
  .head (.alloc (.function name) none hd) (.single (.set h.size "apply" (.object h.size)))

theorem reaches_map (h : Heap) (o : ObjectId) (f : Value → Value) : h.Reaches (h.map o f).2 :=
  .head (.alloc .plain none .inert) (reaches_setAll _ _ _)

theorem reaches_invalidateAll (h : Heap) (ts : List Token) : h.Reaches (h.invalidateAll ts) := by
  induction ts generalizing h with
  | nil => exact .refl
  | cons t ts ih =>
    refine .trans ?_ (ih (h.invalidate t))
    rw [invalidate]
    split
    · exact .single (.advance t.owner)
    · exact .refl

/-! ## Neat heaps -/

/-- Every object has a layout of a neat tree, with a value for each key. -/
structure Neat (h : Heap) : Prop where
  layouts : h.layouts.Neat
  stores : ∀ o object, h.get? o = some object → object.store.Sound h.layouts

theorem neat_empty : empty.Neat where
  layouts := LayoutTree.neat_empty
  stores := fun _ _ found => nomatch found

theorem Neat.set (neat : h.Neat) (o : ObjectId) (key : String) (value : Value) :
    (h.set o key value).Neat := by
  cases found : h.get? o with
  | none =>
    rw [set_of_get?_eq_none found]
    exact neat
  | some target =>
    have tree := neat.layouts.toSound
    have fits := neat.stores o target found
    constructor
    case layouts =>
      rw [layouts_set_of_get? found]
      exact Store.neat_insert neat.layouts fits
    case stores =>
      intro p object there
      rw [layouts_set_of_get? found]
      rw [get?_set] at there
      obtain ⟨old, was, rfl⟩ := Option.map_eq_some_iff.mp there
      by_cases same : p = o
      · subst same
        cases found.symm.trans was
        rw [if_pos rfl]
        exact Store.sound_insert tree fits
      · rw [if_neg same]
        exact (neat.stores p old was).mono Store.grows_insert

theorem Neat.step (neat : h.Neat) (step : h.Step h') : h'.Neat := by
  cases step with
  | alloc kind proto hd =>
    refine ⟨neat.layouts, ?_⟩
    intro o object found
    rw [get?_alloc] at found
    by_cases new : o = h.size
    · rw [if_pos new] at found
      cases found
      exact Store.sound_empty neat.layouts.toSound
    · rw [if_neg new] at found
      exact neat.stores o object found
  | set o key value => exact neat.set o key value
  | advance o =>
    refine ⟨neat.layouts, ?_⟩
    intro p object found
    rw [get?_advance] at found
    obtain ⟨old, was, rfl⟩ := Option.map_eq_some_iff.mp found
    have fits := neat.stores p old was
    split <;> exact fits

theorem Neat.reaches (neat : h.Neat) (reaches : h.Reaches h') : h'.Neat := by
  induction reaches with
  | refl => exact neat
  | tail _ step ih => exact ih.step step

theorem entries_eq_of_get? (found : h.get? o = some object) :
    h.entries o = object.store.entries h.layouts := by
  rw [entries, found]
  rfl

/-! ## Setting keys that another object has -/

/-- The second heap has the object at that place, and is the first one otherwise. -/
structure Replaces (h : Heap) (p : ObjectId) (object : Object) (h' : Heap) : Prop where
  get : ∀ q, h'.get? q = if q = p then some object else h.get? q
  layouts : h'.layouts = h.layouts

/-- A key that leads to a layout that is there. -/
theorem Neat.replaces_set (neat : h.Neat) {keys : List String} {c : LayoutId}
    (found : h.get? p = some object) (here : h.layouts.Lists object.store.layout keys)
    (there : h.layouts.Lists c (keys ++ [key])) :
    h.Replaces p { object with
        store := ⟨c, object.store.values ++ [value]⟩
        changes := object.changes + 1 }
      (h.set p key value) := by
  have inserted : object.store.insert h.layouts key value =
      (⟨c, object.store.values ++ [value]⟩, h.layouts) :=
    Store.insert_of_lists neat.layouts here there
  constructor
  case get =>
    intro q
    rw [get?_set]
    by_cases same : q = p
    · subst same
      simp [found, inserted]
    · simp [same]
  case layouts => rw [layouts_set_of_get? found, inserted]

/-- Keys that lead to a layout that is there, one after the other. -/
theorem Neat.replaces_setAll (neat : h.Neat) {keys : List String} {c : LayoutId}
    {entries : List (String × Value)} (found : h.get? p = some object)
    (here : h.layouts.Lists object.store.layout keys)
    (there : h.layouts.Lists c (keys ++ entries.map Prod.fst)) :
    h.Replaces p { object with
        store := ⟨c, object.store.values ++ entries.map Prod.snd⟩
        changes := object.changes + entries.length }
      (h.setAll p entries) := by
  induction entries generalizing h object keys with
  | nil =>
    have last : c = object.store.layout := by
      rw [List.map_nil, List.append_nil] at there
      exact neat.layouts.eq_of_lists there here
    refine ⟨?_, rfl⟩
    intro q
    by_cases same : q = p
    · subst same
      simp [setAll, found, last]
    · simp [setAll, same]
  | cons entry entries ih =>
    obtain ⟨key, value⟩ := entry
    rw [List.map_cons, List.append_cons] at there
    -- the layout on the way is there because the last one is
    obtain ⟨next, onward⟩ :=
      neat.layouts.exists_lists_of_isPrefix there (List.prefix_append (keys ++ [key]) _)
    have first : h.Replaces p _ (h.set p key value) := neat.replaces_set found here onward
    have rest := ih (neat.set p key value) ((first.get p).trans (if_pos rfl))
      (first.layouts ▸ onward) (first.layouts ▸ there)
    have all : h.setAll p ((key, value) :: entries) = (h.set p key value).setAll p entries := rfl
    rw [all]
    refine ⟨?_, rest.layouts.trans first.layouts⟩
    intro q
    rw [rest.get, first.get]
    by_cases same : q = p
    · simp [same, Nat.add_right_comm, Nat.add_assoc]
    · simp [same]

/-- What is on the heap after a copy was made. -/
theorem Neat.replaces_map (neat : h.Neat) {source : Object} (found : h.get? o = some source)
    (f : Value → Value) :
    h.Replaces h.size
      ⟨.plain, none, ⟨source.store.layout, source.store.values.map f⟩, source.store.length, .inert⟩
      (h.map o f).2 := by
  have fits := neat.stores o source found
  let entries := (source.store.entries h.layouts).map fun entry => (entry.1, f entry.2)
  have set : (h.map o f).2 = (h.newObject none).2.setAll h.size entries := by
    show (h.newObject none).2.setAll h.size ((h.entries o).map fun entry => _) = _
    rw [entries_eq_of_get? found]
  have firsts : entries.map Prod.fst = source.store.keys h.layouts := by
    rw [← fits.map_fst_entries, List.map_map]
    rfl
  have seconds : entries.map Prod.snd = source.store.values.map f := by
    rw [← fits.map_snd_entries, List.map_map, List.map_map]
    rfl
  have number : entries.length = source.store.length := by
    rw [← List.length_map Prod.snd, seconds, List.length_map, Store.length]
  -- the new object starts at the empty layout, which the keys lead on from
  let new : Object := ⟨.plain, none, .empty, 0, .inert⟩
  have made : (h.newObject none).2.get? h.size = some new := by
    exact (get?_alloc h.size).trans (if_pos rfl)
  have bare : (h.newObject none).2.Neat := neat.step (.alloc .plain none .inert)
  have leads : h.layouts.Lists source.store.layout ([] ++ entries.map Prod.fst) := by
    rw [firsts]
    exact fits.lists
  have filled := bare.replaces_setAll made neat.layouts.root leads
  rw [seconds, number, ← set] at filled
  refine ⟨?_, filled.layouts⟩
  intro q
  refine (filled.get q).trans ?_
  by_cases same : q = h.size
  · simp [same, new, Store.empty]
  · rw [if_neg same, if_neg same]
    exact (get?_alloc q).trans (if_neg same)

/-! ## Later puts -/

/-- Sets keys of any objects, one after the other. -/
def putAll (h : Heap) (puts : List (Put ObjectId)) : Heap :=
  puts.foldl (fun h put => h.set put.store put.key put.value) h

/-- The object acts as the ordered map that the puts make, and so many changes of it are counted. -/
def ActsAs (h : Heap) (o : ObjectId) (puts : List (String × Value)) (changes : Nat) : Prop :=
  ∃ object, h.get? o = some object ∧ ProtoVM.ActsAs h.layouts object.store puts ∧
    object.changes = changes

/-- What is put into an object shows there and nowhere else. -/
theorem Neat.represents_set (neat : h.Neat) {puts : List (String × Value)}
    (found : h.get? q = some object) (represents : object.store.Represents h.layouts puts)
    (put : Put ObjectId) :
    ∃ later, (h.set put.store put.key put.value).get? q = some later ∧
      later.store.Represents (h.set put.store put.key put.value).layouts
        (puts ++ SharedStores.history [put] q) ∧
      later.changes = object.changes + (SharedStores.history [put] q).length := by
  have grows := h.grows_set put.store put.key put.value
  by_cases here : q = put.store
  · subst here
    rw [get?_set, layouts_set_of_get? found, found, SharedStores.history_self]
    refine ⟨_, rfl, ?_⟩
    simp only [if_pos]
    exact ⟨represents.insert neat.layouts.toSound put.key put.value, rfl⟩
  · rw [SharedStores.history_of_ne here, List.append_nil, get?_set_of_ne here]
    exact ⟨object, found, represents.mono grows, rfl⟩

theorem Neat.represents_putAll (neat : h.Neat) {before : List (String × Value)}
    (found : h.get? q = some object) (represents : object.store.Represents h.layouts before)
    (puts : List (Put ObjectId)) :
    ∃ later, (h.putAll puts).get? q = some later ∧
      later.store.Represents (h.putAll puts).layouts (before ++ SharedStores.history puts q) ∧
      later.changes = object.changes + (SharedStores.history puts q).length := by
  induction puts generalizing h object before with
  | nil =>
    refine ⟨object, found, ?_, rfl⟩
    simpa [putAll, SharedStores.history] using represents
  | cons put puts ih =>
    obtain ⟨next, there, shows, counted⟩ := neat.represents_set found represents put
    obtain ⟨later, last, acts, count⟩ := ih (neat.set _ _ _) there shows
    refine ⟨later, last, ?_, ?_⟩
    · rw [SharedStores.history_cons, ← List.append_assoc]
      exact acts
    · rw [SharedStores.history_cons, List.length_append, count, counted, Nat.add_assoc]

/-- Each object of a heap acts as its entries followed by what is put into it, whatever is put into
the others. -/
theorem Neat.actsAs_putAll (neat : h.Neat) (present : h.contains q) (puts : List (Put ObjectId)) :
    (h.putAll puts).ActsAs q (h.entries q ++ SharedStores.history puts q)
      (h.changes q + (SharedStores.history puts q).length) := by
  obtain ⟨object, found⟩ := contains_iff.mp present
  have starts := Store.represents_entries neat.layouts (neat.stores q object found)
  obtain ⟨later, last, acts, count⟩ := neat.represents_putAll found starts puts
  refine ⟨later, last, ?_, ?_⟩
  · rw [entries_eq_of_get? found]
    exact acts.actsAs
  · rw [count, changes, found]
    rfl

theorem get?_putAll_of_forall_ne {puts : List (Put ObjectId)}
    (others : ∀ put ∈ puts, put.store ≠ q) : (h.putAll puts).get? q = h.get? q := by
  induction puts generalizing h with
  | nil => rfl
  | cons put puts ih =>
    have first : q ≠ put.store := (others put List.mem_cons_self).symm
    have rest := ih (h := h.set put.store put.key put.value) fun later mem =>
      others later (List.mem_cons_of_mem _ mem)
    exact rest.trans (get?_set_of_ne first)

theorem grows_putAll (h : Heap) (puts : List (Put ObjectId)) :
    h.layouts.Grows (h.putAll puts).layouts := by
  induction puts generalizing h with
  | nil => exact .refl _
  | cons put puts ih =>
    exact (h.grows_set put.store put.key put.value).trans (ih (h.set put.store put.key put.value))

/-! ## Copies -/

/-- A copy of an object with the image of each value, and the heap it is on. -/
structure Copies (h : Heap) (o : ObjectId) (f : Value → Value) (p : ObjectId) (h' : Heap) :
    Prop where
  /-- The copy is new, and nothing else is. -/
  fresh : ¬ h.contains p
  contains : ∀ q, h'.contains q ↔ q = p ∨ h.contains q
  layouts : h'.layouts = h.layouts
  label : h'.label p = "object"
  proto : h'.proto? p = none
  handle : h'.handle p = .inert
  entries : h'.entries p = (h.entries o).map fun (key, value) => (key, f value)
  /-- It has the layout of the source, not one like it. -/
  layout : h'.layout? p = h.layout? o
  generation : h'.generation p = UInt64.ofNat (h'.keys p).length
  /-- The source and all other objects are as they were. -/
  objects : ∀ q, h.contains q → h'.get? q = h.get? q
  unchanged : ∀ q, h.contains q → h.Unchanged h' q
  /-- Whatever is put into the objects from now on, in any order, each one shows its entries and
  what is put into it. -/
  apart : ∀ puts q, h'.contains q →
    (h'.putAll puts).ActsAs q (h'.entries q ++ SharedStores.history puts q)
      (h'.changes q + (SharedStores.history puts q).length)
  /-- An object into which nothing is put stays as it is. -/
  spared : ∀ puts q, (∀ put ∈ puts, put.store ≠ q) → h'.Unchanged (h'.putAll puts) q

theorem Neat.copies_map (neat : h.Neat) (present : h.contains o) (f : Value → Value) :
    h.Copies o f (h.map o f).1 (h.map o f).2 := by
  obtain ⟨source, found⟩ := contains_iff.mp present
  have new : (h.map o f).1 = h.size := rfl
  have replaces := neat.replaces_map found f
  have neat' : (h.map o f).2.Neat := neat.reaches (h.reaches_map o f)
  rw [new]
  generalize (h.map o f).2 = h' at replaces neat'
  have copy := (replaces.get h.size).trans (if_pos rfl)
  obtain ⟨keys, lists, length⟩ := neat.stores o source found
  have old (q : ObjectId) (hq : h.contains q) : h'.get? q = h.get? q := by
    obtain ⟨object, there⟩ := contains_iff.mp hq
    exact (replaces.get q).trans (if_neg (ne_size_of_get? there))
  constructor
  case fresh => exact h.not_contains_size
  case contains =>
    intro q
    simp only [contains_iff, replaces.get]
    by_cases last : q = h.size <;> simp [last]
  case layouts => exact replaces.layouts
  case label => simp [Heap.label, copy, ObjectKind.label]
  case proto => simp [proto?, copy]
  case handle => simp [Heap.handle, copy]
  case entries =>
    rw [entries_eq_of_get? copy, entries_eq_of_get? found, replaces.layouts]
    simp only [Store.entries, Store.keys, List.zip_map_right]
    rfl
  case layout => simp [layout?, copy, found]
  case generation =>
    have listed : h'.keys h.size = keys := by
      simp [Heap.keys, copy, Store.keys, replaces.layouts, lists.keys]
    simp [Heap.generation, changes, copy, listed, Store.length, length]
  case objects => exact old
  case unchanged =>
    intro q hq
    exact unchanged_of_get?_eq (neat.stores q) (replaces.layouts ▸ .refl _) (old q hq)
  case apart => exact fun puts q hq => neat'.actsAs_putAll hq puts
  case spared =>
    intro puts q others
    exact unchanged_of_get?_eq (neat'.stores q) (h'.grows_putAll puts)
      (get?_putAll_of_forall_ne others)

/-- A copy of a copy has the entries of the copy with both images. -/
theorem Neat.entries_map_map (neat : h.Neat) (present : h.contains o) (f g : Value → Value) :
    ((h.map o f).2.map (h.map o f).1 g).2.entries ((h.map o f).2.map (h.map o f).1 g).1 =
      (h.map o (g ∘ f)).2.entries (h.map o (g ∘ f)).1 := by
  have first := neat.copies_map present f
  have second := (neat.reaches (h.reaches_map o f)).copies_map
    ((first.contains _).mpr (.inl rfl)) g
  rw [second.entries, first.entries, (neat.copies_map present (g ∘ f)).entries, List.map_map]
  rfl

end Heap

end ProtoVM
