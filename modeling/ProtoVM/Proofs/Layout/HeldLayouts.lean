import Mathlib
import ProtoVM.Layout.Handles
import ProtoVM.Proofs.Layout.SettledTrees

/-!
# Held layouts

Layouts come and go with the handles on them. At all times there is one layout for each list of keys
that some held layout starts with, and no other but the empty one: a layout that nothing holds any
more takes with it what only it kept, and a list of keys that comes up again gets one layout again.
-/

namespace ProtoVM.LayoutHandles

/-! ## Handles -/

/-- The tree has what the handles keep and no more, and no two handles have one name. -/
structure Tidy (hs : LayoutHandles) : Prop where
  tree : hs.tree.Settled hs.holds LayoutTree.root
  names : (hs.held.map Prod.fst).Nodup

section

variable {hs : LayoutHandles} {id : LayoutId} {name m : String}

theorem holds_iff : hs.holds id ↔ ∃ name, (name, id) ∈ hs.held := by
  simp [holds]

theorem holds_of_layout? (found : hs.layout? name = some id) : hs.holds id :=
  holds_iff.mpr ⟨name, LayoutTree.mem_of_lookup found⟩

theorem mem_others {held : List (String × LayoutId)} :
    (m, id) ∈ held.filter (·.1 ≠ name) ↔ (m, id) ∈ held ∧ m ≠ name := by
  simp

/-- A held layout is the one under this handle unless another handle holds it. -/
theorem others_or_layout? (names : (hs.held.map Prod.fst).Nodup) (name : String)
    (held : hs.holds id) :
    (∃ m, (m, id) ∈ hs.held.filter (·.1 ≠ name)) ∨ hs.layout? name = some id := by
  obtain ⟨m, entry⟩ := holds_iff.mp held
  by_cases same : m = name
  · subst same
    exact .inr (LayoutTree.lookup_eq_some_of_mem names entry)
  · exact .inl ⟨m, mem_others.mpr ⟨entry, same⟩⟩

theorem tidy_empty : empty.Tidy where
  tree := {
    linked := LayoutTree.linked_empty
    live := by
      intro id held
      cases held
    needed := by
      intro id live new
      cases id with
      | zero => exact absurd rfl new
      | succ id => cases live }
  names := List.nodup_nil

theorem Tidy.letGo (tidy : hs.Tidy) (name : String) : (hs.letGo name).Tidy := by
  unfold LayoutHandles.letGo
  cases found : hs.layout? name with
  | none => exact tidy
  | some id =>
    refine ⟨LayoutTree.Settled.prune (tidy.tree.rehold ?_ ?_ ?_ ?_), ?_⟩
    · exact tidy.tree.linked.root.live
    · exact fun inner => absurd rfl inner
    · intro a held
      obtain ⟨m, entry⟩ := holds_iff.mp held
      exact .inl (holds_iff.mpr ⟨m, (mem_others.mp entry).1⟩)
    · intro a held
      rcases others_or_layout? tidy.names name held with others | this
      · exact .inl (holds_iff.mpr others)
      · exact .inr (Option.some.inj (this.symm.trans found))
    · exact tidy.names.sublist (List.filter_sublist.map _)

/-- A layout that may be loose is put under a handle, and nothing is loose after that. -/
theorem tidy_hold (settled : hs.tree.Settled hs.holds id) (live : hs.tree.live id)
    (names : (hs.held.map Prod.fst).Nodup) : (hs.hold name id).Tidy := by
  have distinct : (((name, id) :: hs.held.filter (·.1 ≠ name)).map Prod.fst).Nodup := by
    refine List.nodup_cons.mpr ⟨?_, names.sublist (List.filter_sublist.map _)⟩
    simp
  have rest {loose : LayoutId} (before : ∀ a, hs.layout? name = some a → a = loose) :
      hs.tree.Settled (holds { hs with held := (name, id) :: hs.held.filter (·.1 ≠ name) })
        loose := by
    refine settled.rehold live ?_ ?_ ?_
    · exact fun _ => holds_iff.mpr ⟨name, List.mem_cons_self⟩
    · intro a held
      obtain ⟨m, entry⟩ := holds_iff.mp held
      rcases List.mem_cons.mp entry with new | other
      · cases new
        exact .inr rfl
      · exact .inl (holds_iff.mpr ⟨m, (mem_others.mp other).1⟩)
    · intro a held
      rcases others_or_layout? names name held with ⟨m, other⟩ | this
      · exact .inl (holds_iff.mpr ⟨m, List.mem_cons_of_mem _ other⟩)
      · exact .inr (before a this)
  unfold hold
  cases found : hs.layout? name with
  | none =>
    refine ⟨rest ?_, distinct⟩
    intro a this
    cases found.symm.trans this
  | some old =>
    refine ⟨(rest ?_).prune, distinct⟩
    intro a this
    exact Option.some.inj (this.symm.trans found)

theorem Tidy.holdEmpty (tidy : hs.Tidy) (name : String) : (hs.holdEmpty name).Tidy :=
  tidy_hold tidy.tree tidy.tree.linked.root.live tidy.names

theorem Tidy.holdChild (tidy : hs.Tidy) (held : hs.holds id) (key name : String) :
    (hs.holdChild id key name).Tidy := by
  have live := tidy.tree.live id held
  have grown : LayoutTree.Settled (hs.tree.extend id key).2
      (holds { hs with tree := (hs.tree.extend id key).2 }) (hs.tree.extend id key).1 :=
    tidy.tree.extend live key
  exact tidy_hold grown (LayoutTree.live_extend tidy.tree.linked live key) tidy.names

end

/-! ## Reached states -/

/-- What those who hold layouts do: one takes the empty layout, one adds a key to a layout that does
not have it, and one lets a handle go. -/
inductive Step (hs : LayoutHandles) : LayoutHandles → Prop
  | empty (name : String) : Step hs (hs.holdEmpty name)
  | withKey (of key name : String) {id : LayoutId} (held : hs.layout? of = some id)
      (new : key ∉ hs.tree.keys id) : Step hs (hs.holdChild id key name)
  | letGo (name : String) : Step hs (hs.letGo name)

/-- Any number of steps lead here from where nothing is held. -/
def Reached (hs : LayoutHandles) : Prop := Relation.ReflTransGen Step empty hs

/-- The keys of some held layout start with these. -/
def Uses (hs : LayoutHandles) (keys : List String) : Prop :=
  ∃ id, hs.holds id ∧ keys <+: hs.tree.keys id

section

variable {hs hs' : LayoutHandles} {id : LayoutId} {name key : String}

theorem Tidy.step (tidy : hs.Tidy) (step : hs.Step hs') : hs'.Tidy := by
  cases step with
  | empty name => exact tidy.holdEmpty name
  | withKey of key name held new => exact tidy.holdChild (holds_of_layout? held) key name
  | letGo name => exact tidy.letGo name

theorem tidy_of_reached (reached : hs.Reached) : hs.Tidy := by
  induction reached with
  | refl => exact tidy_empty
  | tail _ step ih => exact ih.step step

/-- A layout leads somewhere by a key if and only if the keys of a held one go on with that key. -/
theorem Tidy.exists_remembers_iff_uses (tidy : hs.Tidy) (live : hs.tree.live id) :
    (∃ c, hs.tree.Remembers id key c) ↔ hs.Uses (hs.tree.keys id ++ [key]) :=
  tidy.tree.exists_remembers_iff (LayoutTree.lists_of_live live)

theorem Tidy.childCount_eq (tidy : hs.Tidy) (live : hs.tree.live id) :
    (hs.tree.childCount id : ℕ∞) = {key | hs.Uses (hs.tree.keys id ++ [key])}.encard := by
  have keys : {key | hs.Uses (hs.tree.keys id ++ [key])} =
      {key | ∃ c, hs.tree.Remembers id key c} := by
    ext key
    exact (tidy.exists_remembers_iff_uses live).symm
  rw [keys, tidy.tree.linked.childCount_eq live]

/-- No layout is made for keys that are in use: there is one. -/
theorem Tidy.extend_of_uses (tidy : hs.Tidy) (live : hs.tree.live id)
    (uses : hs.Uses (hs.tree.keys id ++ [key])) :
    ∃ c, hs.tree.Lists c (hs.tree.keys id ++ [key]) ∧ hs.tree.extend id key = (c, hs.tree) := by
  obtain ⟨c, remembered⟩ := (tidy.exists_remembers_iff_uses live).mpr uses
  refine ⟨c, tidy.tree.linked.child id key c _ remembered remembered.lists, ?_⟩
  rw [LayoutTree.extend, tidy.tree.linked.child?_eq_some_iff.mpr remembered]

theorem Tidy.created_extend (tidy : hs.Tidy) (live : hs.tree.live id)
    (free : ¬ hs.Uses (hs.tree.keys id ++ [key])) :
    ¬ hs.tree.live (hs.tree.extend id key).1 ∧
      (hs.tree.extend id key).2.created = hs.tree.created + 1 := by
  have missing : hs.tree.child? id key = none := by
    by_contra found
    obtain ⟨c, found⟩ := Option.ne_none_iff_exists'.mp found
    exact free ((tidy.exists_remembers_iff_uses live).mp
      ⟨c, LayoutTree.remembers_of_child? found⟩)
  have inhabited : 1 ≤ hs.tree.nodes.size := tidy.tree.linked.root.lt_size
  constructor
  · intro live'
    rw [LayoutTree.extend, missing] at live'
    exact absurd (LayoutTree.lists_of_live live').lt_size (Nat.lt_irrefl _)
  · rw [LayoutTree.created, LayoutTree.extend, missing]
    simp only [LayoutTree.mapChildren, Array.size_push, Array.size_modify, Nat.add_sub_cancel]
    exact (Nat.sub_add_cancel inhabited).symm

/-- In every state that is reached, held layouts exist, and those with the same keys are the same; a
held layout counts one child for each key that a held layout's keys go on with; a layout that exists
remembers only ones that exist; and adding a key to a held layout makes a new layout if and only if
no held layout's keys go on with that key, and gives the existing one otherwise. -/
theorem canonical_of_reached (reached : hs.Reached) :
    (∀ a, hs.holds a → hs.tree.live a) ∧
    (∀ a b, hs.holds a → hs.holds b → (a = b ↔ hs.tree.keys a = hs.tree.keys b)) ∧
    (∀ a, hs.holds a →
      (hs.tree.childCount a : ℕ∞) = {key | hs.Uses (hs.tree.keys a ++ [key])}.encard) ∧
    (∀ a n, hs.tree.node? a = some n → ∀ entry ∈ n.children, hs.tree.live entry.2) ∧
    (∀ a key, hs.holds a → key ∉ hs.tree.keys a →
      (hs.tree.extend a key).2.Lists (hs.tree.extend a key).1 (hs.tree.keys a ++ [key]) ∧
      ((hs.tree.extend a key).2.created = hs.tree.created + 1 ↔
        ¬ hs.Uses (hs.tree.keys a ++ [key])) ∧
      (¬ hs.Uses (hs.tree.keys a ++ [key]) → ¬ hs.tree.live (hs.tree.extend a key).1) ∧
      (hs.Uses (hs.tree.keys a ++ [key]) →
        hs.tree.live (hs.tree.extend a key).1 ∧ (hs.tree.extend a key).2 = hs.tree)) := by
  have tidy := tidy_of_reached reached
  have linked := tidy.tree.linked
  have live := tidy.tree.live
  refine ⟨live, ?_, ?_, ?_, ?_⟩
  · intro a b ha hb
    refine ⟨congrArg _, fun same => ?_⟩
    exact linked.eq_of_lists (LayoutTree.lists_of_live (live a ha))
      (same ▸ LayoutTree.lists_of_live (live b hb))
  · exact fun a ha => tidy.childCount_eq (live a ha)
  · rintro a n node ⟨key, c⟩ entry
    exact linked.live_of_remembers ⟨n, node, entry⟩
  · intro a key ha _
    refine ⟨LayoutTree.lists_extend linked.toSound (LayoutTree.lists_of_live (live a ha)), ?_⟩
    by_cases uses : hs.Uses (hs.tree.keys a ++ [key])
    · obtain ⟨c, found, same⟩ := tidy.extend_of_uses (live a ha) uses
      rw [same]
      refine ⟨?_, ?_, ?_⟩
      · exact ⟨fun more => absurd more (Nat.ne_of_lt (Nat.lt_succ_self _)), absurd uses⟩
      · exact absurd uses
      · exact fun _ => ⟨found.live, rfl⟩
    · obtain ⟨new, more⟩ := tidy.created_extend (live a ha) uses
      exact ⟨⟨fun _ => uses, fun _ => more⟩, fun _ => new, fun held => absurd held uses⟩

/-- Handles on the empty layout, on `x`, and on `x` and `y`. -/
def grown : LayoutHandles :=
  ((empty.holdEmpty "e").holdChild 0 "x" "a").holdChild 1 "y" "b"

/-- The last two are let go, the shorter one first, and `x` is made again. -/
def regrown : LayoutHandles := ((grown.letGo "a").letGo "b").holdChild 0 "x" "a"

theorem reached_grown : grown.Reached := by
  have x : Step (empty.holdEmpty "e") ((empty.holdEmpty "e").holdChild 0 "x" "a") :=
    .withKey "e" "x" "a" (by cbv) (by cbv; exact List.not_mem_nil)
  have xy : Step ((empty.holdEmpty "e").holdChild 0 "x" "a") grown :=
    .withKey "a" "y" "b" (by cbv) (by cbv; exact (by decide : "y" ∉ ["x"]))
  exact .tail (.tail (.single (.empty "e")) x) xy

theorem reached_regrown : regrown.Reached := by
  have x : Step ((grown.letGo "a").letGo "b") regrown :=
    .withKey "e" "x" "a" (by cbv) (by cbv; exact List.not_mem_nil)
  exact .tail (.tail (.tail reached_grown (.letGo "a")) (.letGo "b")) x

theorem canonical_of_reached_regrown :
    regrown.Reached ∧ regrown.holds 3 ∧ {key | regrown.Uses [key]}.encard = 1 ∧
      ¬ regrown.Uses ["x", "y"] := by
  obtain ⟨-, -, counts, -, makes⟩ := canonical_of_reached reached_regrown
  have top : regrown.tree.keys 0 = [] := by cbv
  have x : regrown.tree.keys 3 = ["x"] := by cbv
  have one : regrown.tree.childCount 0 = 1 := by cbv
  have held : regrown.holds 3 := by cbv
  have count := counts 0 (by cbv)
  have made := (makes 3 "y" held (by rw [x]; decide)).2.1.mp (by cbv)
  rw [top, one] at count
  rw [x] at made
  exact ⟨reached_regrown, held, count.symm, made⟩

end

end ProtoVM.LayoutHandles
