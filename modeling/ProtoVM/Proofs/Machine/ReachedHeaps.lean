import Mathlib
import ProtoVM.Proofs.Machine.CachedLookups
import ProtoVM.Proofs.Object.Inheritance
import ProtoVM.Proofs.Object.Rendering

/-!
# The heaps of sessions

Native code can make objects, scopes and functions, copy objects, set keys, and run units that do
so. Whatever it does, it never gets a heap on which a lookup would not end, or on which setting a
key would show anywhere but where lookups come to that object, or where a reference leads nowhere
and an object could not be shown.
-/

namespace ProtoVM

variable (p : Native) (reads : PropertyReads) (n : Nat) (h : Heap)
  (reached : ((Machine.running .empty p).steps reads n).world.heap = h)
include reached

theorem Heap.sound_reached : h.Sound := by
  rw [← reached]
  exact (Machine.sound_running_empty p reads n).world.heap

/-- So each object has the text that it unfolds to (`Heap.render_unfolds`). -/
theorem Heap.complete_reached : h.Complete := (Heap.sound_reached p reads n h reached).complete

/-- Every chain of prototypes ends, and a lookup gives the value of the first object that has the
key. -/
theorem grounded_reached (o : ObjectId) (present : h.contains o) : h.Grounded o :=
  (Heap.sound_reached p reads n h reached).grounded present

/-- Setting a key of an object changes what is looked up from there and from the objects that
inherit the key. -/
theorem setsOnly_reached (o : ObjectId) (key : String) (value : Value) (present : h.contains o)
    (closed : h.closed value) : h.SetsOnly o key value (h.set o key value) :=
  (Heap.sound_reached p reads n h reached).setsOnly present closed

omit reached

/-- A function, which refers to itself, and two objects that refer to each other, one by a property
and the other by its prototype. The second one hides a key of the first under `undefined`. -/
def selfReferring : Native :=
  .newFunction "f" .inert fun _ =>
  .perform (.newObject none) fun base =>
  .perform (.newObject (some base)) fun o =>
  .perform (.set base "child" (.object o)) fun _ =>
  .perform (.set base "y" (.int 1)) fun _ =>
  .perform (.set o "y" .undefined) fun _ =>
  .done (.ok (.object o))

/-- The heap after that. -/
def selfReferringHeap : Heap := ((Machine.running .empty selfReferring).steps .cached 6).world.heap

theorem grounded_reached_selfReferring :
    selfReferringHeap.getOwn? 0 "apply" = some (.object 0) ∧
      selfReferringHeap.getOwn? 1 "child" = some (.object 2) ∧
      selfReferringHeap.chain 2 = [2, 1] ∧ selfReferringHeap.Grounded 2 ∧
      selfReferringHeap.lookup 2 "y" = .undefined := by
  have present : selfReferringHeap.contains 2 := by cbv
  refine ⟨by cbv, by cbv, by cbv, ?_, by cbv⟩
  exact grounded_reached selfReferring .cached 6 selfReferringHeap rfl 2 present

theorem setsOnly_reached_selfReferring :
    selfReferringHeap.SetsOnly 1 "y" (.object 0) (selfReferringHeap.set 1 "y" (.object 0)) ∧
      (selfReferringHeap.set 1 "y" (.object 0)).lookup 1 "y" = .object 0 ∧
      (selfReferringHeap.set 1 "y" (.object 0)).lookup 2 "y" = .undefined := by
  have present : selfReferringHeap.contains 1 := by cbv
  have closed : selfReferringHeap.closed (.object 0) := by cbv
  refine ⟨?_, by cbv, by cbv⟩
  exact setsOnly_reached selfReferring .cached 6 selfReferringHeap rfl 1 "y" (.object 0) present
    closed

end ProtoVM
