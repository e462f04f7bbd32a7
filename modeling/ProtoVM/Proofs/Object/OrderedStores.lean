import Mathlib.Data.Finset.Card
import Mathlib.Data.List.Dedup
import Mathlib.Logic.Function.Basic
import ProtoVM.Proofs.Object.HeapGrowth

/-!
# Stores as ordered maps

Any number of stores share one tree of layouts, and values are put into them in any order. Each
store answers as an ordered map of its own: what it answers is told by the puts that were made to
it (`ActsAs`), and the puts to the others do not show.
-/

namespace ProtoVM

/-! ## Ordered maps -/

/-- The keys that were put, each at the place of its first put. -/
def putKeys (puts : List (String × Value)) : List String := (puts.map Prod.fst).eraseDups

/-- The value that was put last under a key. -/
def lastPut? (puts : List (String × Value)) (key : String) : Option Value :=
  puts.reverse.lookup key

@[simp] theorem putKeys_concat (puts : List (String × Value)) (key : String) (value : Value) :
    putKeys (puts ++ [(key, value)]) =
      if key ∈ putKeys puts then putKeys puts else putKeys puts ++ [key] := by
  simp only [putKeys, List.map_append, List.map_cons, List.map_nil, List.eraseDups_append,
    List.mem_eraseDups, List.removeAll]
  by_cases known : key ∈ puts.map Prod.fst
  · simp [known]
  · simp [known, List.eraseDups_cons]

@[simp] theorem lastPut?_concat (puts : List (String × Value)) (key k : String) (value : Value) :
    lastPut? (puts ++ [(key, value)]) k = if k = key then some value else lastPut? puts k := by
  rw [lastPut?, List.reverse_append, List.reverse_singleton, List.singleton_append,
    List.lookup_cons]
  by_cases same : k = key
  · simp [same]
  · rw [beq_false_of_ne same, if_neg same, lastPut?]

theorem nodup_putKeys (puts : List (String × Value)) : (putKeys puts).Nodup := by
  induction puts using List.reverseRecOn with
  | nil => exact List.nodup_nil
  | append_singleton puts put ih =>
    rw [putKeys_concat]
    by_cases known : put.1 ∈ putKeys puts
    · rwa [if_pos known]
    · rw [if_neg known, ← List.concat_eq_append]
      exact ih.concat known

theorem lastPut?_eq_none_iff {puts : List (String × Value)} {key : String} :
    lastPut? puts key = none ↔ key ∉ putKeys puts := by
  induction puts using List.reverseRecOn with
  | nil => simp [lastPut?, putKeys]
  | append_singleton puts put ih =>
    rw [lastPut?_concat, putKeys_concat]
    by_cases same : key = put.1
    · subst same
      by_cases known : put.1 ∈ putKeys puts <;> simp [known]
    · rw [if_neg same, ih]
      by_cases known : put.1 ∈ putKeys puts <;> simp [known, same]

/-- The store answers as the ordered map that the puts make: a key has the value that was put last,
the keys come in the order of their first puts, and slot by slot they hold their values. -/
structure ActsAs (t : LayoutTree) (s : Store) (puts : List (String × Value)) : Prop where
  get : ∀ key, s.get? t key = lastPut? puts key
  keys : s.keys t = putKeys puts
  entries : (s.entries t).map (fun (key, value) => (key, some value)) =
    (putKeys puts).map fun key => (key, lastPut? puts key)
  length : s.length = (puts.map Prod.fst).toFinset.card
  slots : (putKeys puts).map (s.slotOf? t) = (List.range s.length).map some
  slotless : ∀ key, key ∉ putKeys puts → s.slotOf? t key = none
  atSlot : ∀ key slot, s.slotOf? t key = some slot → s.atSlot? slot = s.get? t key
  outside : ∀ slot, s.length ≤ slot → s.atSlot? slot = none

/-- Two stores give the same answers. -/
structure SameAnswers (t : LayoutTree) (s : Store) (t' : LayoutTree) (s' : Store) : Prop where
  get : ∀ key, s'.get? t' key = s.get? t key
  keys : s'.keys t' = s.keys t
  entries : s'.entries t' = s.entries t
  length : s'.length = s.length
  slotOf : ∀ key, s'.slotOf? t' key = s.slotOf? t key
  atSlot : ∀ slot, s'.atSlot? slot = s.atSlot? slot

/-! ## One store -/

/-- The layout of the store lists the keys that were put, and its slots hold their values. -/
structure Store.Represents (t : LayoutTree) (s : Store) (puts : List (String × Value)) :
    Prop where
  lists : t.Lists s.layout (putKeys puts)
  values : s.values.map some = (putKeys puts).map (lastPut? puts)

namespace Store.Represents

variable {t t' : LayoutTree} {s : Store} {puts : List (String × Value)}

theorem empty (sound : t.Sound) : Store.empty.Represents t [] where
  lists := sound.root
  values := rfl

theorem mono (grows : t.Grows t') (h : s.Represents t puts) : s.Represents t' puts where
  lists := grows _ _ h.lists
  values := h.values

theorem length_values (h : s.Represents t puts) : s.values.length = (putKeys puts).length := by
  simpa using congrArg List.length h.values

theorem sound (h : s.Represents t puts) : s.Sound t := ⟨_, h.lists, h.length_values⟩

theorem slotOf?_eq (h : s.Represents t puts) (key : String) :
    s.slotOf? t key = (putKeys puts).idxOf? key := by
  rw [slotOf?, LayoutTree.slotOf?, h.lists.keys]

/-- The slots are those of the keys in their order. -/
theorem slotOf?_getElem (h : s.Represents t puts) {slot : Nat}
    (inside : slot < (putKeys puts).length) :
    s.slotOf? t (putKeys puts)[slot] = some slot := by
  rw [h.slotOf?_eq, List.idxOf?_eq_some_iff]
  refine ⟨inside, rfl, ?_⟩
  intro other before same
  have := (nodup_putKeys puts).getElem_inj_iff.mp same
  omega

theorem getElem_of_slotOf? (h : s.Represents t puts) {key : String} {slot : Nat}
    (found : s.slotOf? t key = some slot) : (putKeys puts)[slot]? = some key := by
  rw [h.slotOf?_eq, List.idxOf?_eq_some_iff] at found
  obtain ⟨inside, same, -⟩ := found
  rw [List.getElem?_eq_getElem inside, same]

/-- The slot of a key holds the value that was put last. -/
theorem atSlot?_eq (h : s.Represents t puts) {key : String} {slot : Nat}
    (found : s.slotOf? t key = some slot) : s.atSlot? slot = lastPut? puts key := by
  have both := congrArg (·[slot]?) h.values
  simp only [List.getElem?_map, h.getElem_of_slotOf? found, Option.map_some] at both
  obtain ⟨value, there, same⟩ := Option.map_eq_some_iff.mp both
  rw [atSlot?, there, same]

theorem insert (tree : t.Sound) (h : s.Represents t puts) (key : String) (value : Value) :
    (s.insert t key value).1.Represents (s.insert t key value).2 (puts ++ [(key, value)]) := by
  cases known : s.slotOf? t key with
  | some slot =>
    have there := h.getElem_of_slotOf? known
    have mem : key ∈ putKeys puts := List.mem_of_getElem? there
    rw [Store.insert, known]
    refine ⟨by rw [putKeys_concat, if_pos mem]; exact h.lists, ?_⟩
    show (s.values.set slot value).map some = _
    rw [putKeys_concat, if_pos mem, List.map_set, h.values]
    refine List.ext_getElem? fun i => ?_
    rw [List.getElem?_set, List.getElem?_map, List.length_map]
    by_cases here : slot = i
    · subst here
      have inside := (List.getElem?_eq_some_iff.mp there).1
      rw [if_pos rfl, if_pos inside, List.getElem?_map, there]
      simp
    · -- no other slot has the key
      rw [if_neg here, List.getElem?_map]
      cases other : (putKeys puts)[i]? with
      | none => rfl
      | some k =>
        have different : k ≠ key := by
          rintro rfl
          exact here ((List.getElem?_inj (List.getElem?_eq_some_iff.mp there).1
            (nodup_putKeys puts)).mp (there.trans other.symm))
        simp [different]
  | none =>
    have new : key ∉ putKeys puts := by
      rw [h.slotOf?_eq, List.idxOf?_eq_none_iff] at known
      exact known
    have old : (putKeys puts).map (lastPut? (puts ++ [(key, value)])) =
        (putKeys puts).map (lastPut? puts) := by
      refine List.map_congr_left fun k mem => ?_
      have different : k ≠ key := by
        rintro rfl
        exact new mem
      rw [lastPut?_concat, if_neg different]
    rw [Store.insert, known]
    refine ⟨?_, ?_⟩
    · rw [putKeys_concat, if_neg new]
      exact LayoutTree.lists_extend tree h.lists
    · show (s.values ++ [value]).map some = _
      rw [putKeys_concat, if_neg new, List.map_append, List.map_append, h.values, old]
      simp

theorem actsAs (h : s.Represents t puts) : ActsAs t s puts where
  get := by
    intro key
    rw [get?]
    cases found : s.slotOf? t key with
    | some slot => exact h.atSlot?_eq found
    | none =>
      rw [h.slotOf?_eq, List.idxOf?_eq_none_iff] at found
      exact (lastPut?_eq_none_iff.mpr found).symm
  keys := h.lists.keys
  entries := by
    rw [entries, Store.keys, h.lists.keys]
    have zipped : ((putKeys puts).zip s.values).map (fun (key, value) => (key, some value)) =
        (putKeys puts).zip (s.values.map some) := by
      rw [List.zip_map_right]
      rfl
    rw [zipped, h.values]
    simpa using @List.zip_map' _ _ _ id (lastPut? puts) (putKeys puts)
  length := by
    rw [Store.length, h.length_values, ← List.toFinset_card_of_nodup (nodup_putKeys puts)]
    congr 1
    ext key
    simp [putKeys]
  slots := by
    refine List.ext_getElem ?_ fun slot inside _ => ?_
    · rw [List.length_map, List.length_map, List.length_range, Store.length, h.length_values]
    · rw [List.length_map] at inside
      rw [List.getElem_map, List.getElem_map, List.getElem_range, h.slotOf?_getElem inside]
  slotless := by
    intro key new
    rw [h.slotOf?_eq]
    exact List.idxOf?_eq_none_iff.mpr new
  atSlot := by
    intro key slot found
    rw [get?, found]
    rfl
  outside := by
    intro slot beyond
    exact List.getElem?_eq_none beyond

/-- The answers depend on the puts alone, not on the tree. -/
theorem sameAnswers {s' : Store} (h : s.Represents t puts) (h' : s'.Represents t' puts) :
    SameAnswers t s t' s' := by
  have values : s'.values = s.values :=
    List.map_injective_iff.mpr (Option.some_injective _) (h'.values.trans h.values.symm)
  have keys : s'.keys t' = s.keys t := h'.lists.keys.trans h.lists.keys.symm
  refine ⟨?_, keys, ?_, ?_, ?_, ?_⟩
  · intro key
    rw [h.actsAs.get, h'.actsAs.get]
  · rw [entries, entries, keys, values]
  · rw [Store.length, Store.length, values]
  · intro key
    rw [h.slotOf?_eq, h'.slotOf?_eq]
  · intro slot
    rw [atSlot?, atSlot?, values]

end Store.Represents

/-! ## Many stores -/

/-- Stores that share one tree of layouts. -/
structure SharedStores (ι : Type) where
  tree : LayoutTree
  stores : ι → Store

/-- A value that is put under a key into one of several stores. -/
structure Put (ι : Type) where
  store : ι
  key : String
  value : Value

namespace SharedStores

variable {ι : Type} [DecidableEq ι]

/-- Empty stores. The tree may have layouts of other objects. -/
def fresh (tree : LayoutTree) : SharedStores ι := ⟨tree, fun _ => .empty⟩

def put (s : SharedStores ι) (p : Put ι) : SharedStores ι :=
  let (store, tree) := (s.stores p.store).insert s.tree p.key p.value
  ⟨tree, Function.update s.stores p.store store⟩

/-- Puts made one after the other. -/
def run (s : SharedStores ι) (puts : List (Put ι)) : SharedStores ι := puts.foldl put s

/-- The puts made to one of the stores. -/
def history (puts : List (Put ι)) (i : ι) : List (String × Value) :=
  (puts.filter (·.store = i)).map fun p => (p.key, p.value)

theorem run_cons (s : SharedStores ι) (p : Put ι) (puts : List (Put ι)) :
    s.run (p :: puts) = (s.put p).run puts := rfl

theorem history_cons (p : Put ι) (puts : List (Put ι)) (i : ι) :
    history (p :: puts) i = history [p] i ++ history puts i := by
  rw [history, history, history, ← List.map_append, ← List.filter_append]
  rfl

theorem history_self (p : Put ι) : history [p] p.store = [(p.key, p.value)] := by simp [history]

theorem history_of_ne {p : Put ι} {i : ι} (other : i ≠ p.store) : history [p] i = [] := by
  simp [history, Ne.symm other]

theorem tree_put (s : SharedStores ι) (p : Put ι) :
    (s.put p).tree = ((s.stores p.store).insert s.tree p.key p.value).2 := rfl

theorem stores_put_self (s : SharedStores ι) (p : Put ι) :
    (s.put p).stores p.store = ((s.stores p.store).insert s.tree p.key p.value).1 :=
  Function.update_self _ _ _

theorem stores_put_of_ne (s : SharedStores ι) {p : Put ι} {i : ι} (other : i ≠ p.store) :
    (s.put p).stores i = s.stores i := Function.update_of_ne other _ _

theorem grows_put (s : SharedStores ι) (p : Put ι) : s.tree.Grows (s.put p).tree :=
  Store.grows_insert

/-- Each store represents the puts that were made to it. -/
structure Represents (s : SharedStores ι) (histories : ι → List (String × Value)) : Prop where
  tree : s.tree.Sound
  stores : ∀ i, (s.stores i).Represents s.tree (histories i)

variable {s : SharedStores ι} {histories : ι → List (String × Value)}

/-- A put goes to the history of its store alone. -/
theorem Represents.put (h : s.Represents histories) (p : Put ι) :
    (s.put p).Represents fun i => histories i ++ history [p] i where
  tree := Store.tree_sound_insert h.tree (h.stores p.store).sound
  stores := by
    intro i
    by_cases same : i = p.store
    · subst same
      rw [stores_put_self, history_self, tree_put]
      exact (h.stores p.store).insert h.tree p.key p.value
    · rw [stores_put_of_ne s same, history_of_ne same, List.append_nil]
      exact (h.stores i).mono (s.grows_put p)

theorem Represents.run (h : s.Represents histories) (puts : List (Put ι)) :
    (s.run puts).Represents fun i => histories i ++ history puts i := by
  induction puts generalizing s histories with
  | nil =>
    simp only [history, List.filter_nil, List.map_nil, List.append_nil]
    exact h
  | cons p puts ih =>
    have joined : (fun i => histories i ++ history (p :: puts) i) =
        fun i => histories i ++ history [p] i ++ history puts i := by
      funext i
      rw [history_cons, List.append_assoc]
    rw [run_cons, joined]
    exact ih (h.put p)

/-- A key keeps the slot it has. -/
theorem Represents.slotOf?_run (h : s.Represents histories) (puts : List (Put ι)) {i : ι}
    {key : String} {slot : Nat} (found : (s.stores i).slotOf? s.tree key = some slot) :
    ((s.run puts).stores i).slotOf? (s.run puts).tree key = some slot := by
  induction puts generalizing s histories with
  | nil => exact found
  | cons p puts ih =>
    rw [run_cons]
    refine ih (h.put p) ?_
    by_cases same : i = p.store
    · subst same
      rw [stores_put_self, tree_put]
      exact Store.slotOf?_insert h.tree (h.stores p.store).sound found
    · rw [stores_put_of_ne s same, Store.slotOf?_mono (s.grows_put p) (h.stores i).sound]
      exact found

theorem Represents.sameAnswers_put (h : s.Represents histories) {p : Put ι} {i : ι}
    (other : i ≠ p.store) :
    SameAnswers s.tree (s.stores i) (s.put p).tree ((s.put p).stores i) := by
  rw [stores_put_of_ne s other]
  exact (h.stores i).sameAnswers ((h.stores i).mono (s.grows_put p))

/-- Any number of empty stores, into which values are put in any order, act as ordered maps of
their own. A key keeps its slot through all later puts, and a put to one store changes no answer of
another one. -/
theorem actsAs_run {tree : LayoutTree} (sound : tree.Sound) (puts : List (Put ι)) :
    let s := (fresh tree : SharedStores ι).run puts
    (∀ i, ActsAs s.tree (s.stores i) (history puts i)) ∧
    (∀ i key slot, (s.stores i).slotOf? s.tree key = some slot → ∀ later,
      ((s.run later).stores i).slotOf? (s.run later).tree key = some slot) ∧
    ∀ (p : Put ι) i, i ≠ p.store →
      SameAnswers s.tree (s.stores i) (s.put p).tree ((s.put p).stores i) := by
  have start : (fresh tree : SharedStores ι).Represents fun _ => [] :=
    ⟨sound, fun _ => .empty sound⟩
  have reached := start.run puts
  refine ⟨fun i => (reached.stores i).actsAs, ?_, ?_⟩
  · intro i key slot found later
    exact reached.slotOf?_run later found
  · intro p i other
    exact reached.sameAnswers_put other

/-- Two stores that get the same keys in another order, one of them twice. -/
def twoStores : List (Put Bool) :=
  [⟨true, "x", .bool true⟩, ⟨false, "y", .undefined⟩, ⟨true, "y", .bool false⟩,
   ⟨false, "x", .bool false⟩, ⟨true, "x", .undefined⟩]

theorem actsAs_run_twoStores :
    LayoutTree.empty.Sound ∧
      let s := (fresh LayoutTree.empty).run twoStores
      (s.stores true).get? s.tree "x" = some .undefined ∧
      (s.stores true).keys s.tree = ["x", "y"] ∧ (s.stores false).keys s.tree = ["y", "x"] := by
  have acts := (actsAs_run LayoutTree.sound_empty twoStores).1
  exact ⟨LayoutTree.sound_empty, (acts true).get "x", (acts true).keys, (acts false).keys⟩

end SharedStores

end ProtoVM
