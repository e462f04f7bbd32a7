import Mathlib
import ProtoVM.Proofs.Machine.Soundness

/-!
# Cached lookups

Whatever a session has been through, a property cache answers like a lookup along the chain, and
using it changes no object.
-/

namespace ProtoVM

/-- Any native code may run in an empty session. -/
theorem Machine.sound_running_empty (p : Native) (reads : PropertyReads) (n : Nat) :
    (((running .empty p).steps reads n).Sound fun _ => True) := by
  have start : (running .empty p).Sound fun _ => True :=
    sound_running World.sound_empty (Native.asksOnly_of_forall (fun _ => trivial) p)
  exact (leads_steps start reads n).sound

/-- Native code can make any objects, functions, caches, loaders and calls in any order, and go on
by what it is answered; `w` is any state on its way. There, both the caches of host code and those
of loaded units answer like a lookup, and looking up through a cache changes only the cache. -/
theorem cachedLookup_eq_lookup (p : Native) (reads : PropertyReads) (n : Nat) (w : World)
    (reached : ((Machine.running .empty p).steps reads n).world = w) (bounded : w.heap.Bounded) :
    (∀ c cache, w.caches[c]? = some cache → ∀ o, w.heap.contains o →
      ∃ caches, w.perform (.cachedLookup c o) =
        (some (w.heap.lookup o cache.key), { w with caches })) ∧
    (∀ unit offset cache, w.unitCache? unit offset = some cache → ∀ o, w.heap.contains o →
      (cache.lookup w.heap o).1 = w.heap.lookup o cache.key ∧
      ∀ f, w.heap.contains f → (w.heap.handle f).unit? = some unit →
        ∃ banks, w.perform (.unitCachedLookup f offset o) =
          (some (some (w.heap.lookup o cache.key)), { w with banks })) := by
  have sound := (Machine.sound_running_empty p reads n).world
  rw [reached] at sound
  constructor
  · intro c cache found o present
    have holds := sound.caches cache (Array.mem_of_getElem? found)
    have value := PropertyCache.lookup_eq holds sound.heap bounded present
    refine ⟨w.caches.setIfInBounds c (cache.lookup w.heap o).2, ?_⟩
    have mentioned : (Action.cachedLookup c o).mentions.all w.heap.contains := by
      rw [Action.mentions, List.all_cons, present]
      rfl
    rw [World.perform, if_pos mentioned, World.act, found, ← value]
    rfl
  · intro unit offset cache found o present
    have value := World.lookup_unitCache? sound bounded present found
    refine ⟨value, fun f inside bound =>
      ⟨(w.setUnitCache unit offset (cache.lookup w.heap o).2).banks, ?_⟩⟩
    have mentioned :
        (Action.unitCachedLookup f offset o).mentions.all w.heap.contains := by
      simp [Action.mentions, inside, present]
    rw [World.perform, if_pos mentioned, World.act, World.useUnitCache, bound]
    dsimp only
    rw [found, ← value]
    rfl

/-- A key is looked up through a cache on an object that inherits it, and is then set on the object
itself. -/
def shadowing : Native :=
  .perform (.newObject none) fun base =>
  .perform (.newObject (some base)) fun o =>
  .perform (.set base "x" (.int 1)) fun _ =>
  .perform (.newCache "x") fun c =>
  .perform (.cachedLookup c o) fun _ =>
  .perform (.set o "x" (.int 2)) fun _ =>
  .done (.ok (.object o))

/-- The session after that. -/
def shadowed : World := ((Machine.running .empty shadowing).steps .cached 6).world

theorem cachedLookup_eq_lookup_shadowed :
    ∃ caches, shadowed.perform (.cachedLookup 0 1) = (some (.int 2), { shadowed with caches }) := by
  have bounded : shadowed.heap.Bounded := Heap.bounded_of_all (by cbv)
  have found : shadowed.caches[0]?.map (·.key) = some "x" := by cbv
  obtain ⟨cache, hcache, key⟩ := Option.map_eq_some_iff.mp found
  have present : shadowed.heap.contains 1 := by cbv
  obtain ⟨caches, answer⟩ :=
    (cachedLookup_eq_lookup shadowing .cached 6 shadowed rfl bounded).1 0 cache hcache 1 present
  have value : shadowed.heap.lookup 1 "x" = .int 2 := by cbv
  rw [key, value] at answer
  exact ⟨caches, answer⟩

end ProtoVM
