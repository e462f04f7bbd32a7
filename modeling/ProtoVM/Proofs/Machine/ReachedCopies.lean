import Mathlib
import ProtoVM.Proofs.Machine.Alterations
import ProtoVM.Proofs.Object.Copies

/-!
# Copies in sessions

A session changes its heap by steps only (`Heap.Step`): one that makes an object, one that sets a
key, and one that counts a change. So the heaps that it reaches are neat, and a copy that is made on
one of them is what `Heap.Copies` says, in whatever order and however often the keys of the source
were set.
-/

namespace ProtoVM

/-! ## Sessions -/

namespace World

theorem reaches_load (w : World) (l : LoaderId) (loader : Loader) (id : String)
    (payload : List UInt8) : w.heap.Reaches (w.load l loader id payload).2.heap := by
  rw [load]
  cases w.accept loader id payload with
  | error e => exact .refl
  | ok unit => exact Heap.reaches_newFunction ..

theorem reaches_act (w : World) (a : Action) : w.heap.Reaches (w.act a).2.heap := by
  cases a with
  | newObject proto => exact .single (.alloc .plain proto .inert)
  | newScope parent => exact .single (.alloc .scope parent .inert)
  | set o key value => exact .single (.set o key value)
  | map o f =>
    rw [act]
    split
    · exact Heap.reaches_map ..
    · exact .refl
  | invalidate ts => exact Heap.reaches_invalidateAll ..
  | cachedLookup c o =>
    rw [act]
    cases w.caches[c]? <;> exact .refl
  | declare d id name parameters function =>
    rw [act]
    cases w.dictionaries[d]? <;> exact .refl
  | newLoader config d global =>
    rw [act]
    split <;> exact .refl
  | load l id payload =>
    rw [act]
    cases w.loaders[l]? with
    | none => exact .refl
    | some loader => exact w.reaches_load l loader id payload
  | unitCachedLookup f offset r => rw [act, heap_useUnitCache]
  | resetUnitCache f offset => rw [act, heap_useUnitCache]
  | _ => exact .refl

theorem reaches_perform (w : World) (a : Action) : w.heap.Reaches (w.perform a).2.heap := by
  rw [perform]
  split
  · exact w.reaches_act a
  · exact .refl

theorem reaches_newFunction (w : World) (name : String) (spec : HandleSpec NativeEntry) :
    w.heap.Reaches (w.newFunction name spec).2.heap := by
  rw [newFunction]
  cases w.handleOf spec with
  | none => exact .refl
  | some handle => exact Heap.reaches_newFunction ..

theorem reaches_define (w : World) (l : LoaderId) (id name : String)
    (spec : HandleSpec NativeEntry) : w.heap.Reaches (w.define l id name spec).2.heap := by
  rw [define]
  cases w.loaders[l]? with
  | none => exact .refl
  | some loader =>
    cases w.handleOf spec with
    | none => exact .refl
    | some handle =>
      dsimp only
      rw [defineNative]
      cases w.acceptNative loader id handle with
      | error e => exact .refl
      | ok _ => exact Heap.reaches_newFunction ..

end World

/-! ## Machines -/

theorem Activation.reaches_start (unit : BoundUnit) (loader : Loader) (receiver : Value)
    (args : List Value) (w : World) :
    w.heap.Reaches (Activation.start unit loader receiver args w).2.heap :=
  .head (.alloc .scope (some loader.global) .inert) (Heap.reaches_setAll _ _ _)

theorem Activation.reaches_step (a : Activation) (reads : PropertyReads) (w : World) :
    w.heap.Reaches (a.step reads w).2.heap := by
  have leaves := a.leaves_step reads w
  generalize (a.step reads w).2.heap = h at leaves
  cases leaves with
  | alone none => exact .refl
  | made new proto => exact .single (.alloc .plain proto .inert)
  | altered o key value sets => exact .single (.set o key value)

namespace Machine

theorem reaches_step (m : Machine) (reads : PropertyReads) :
    m.world.heap.Reaches (m.step reads).world.heap := by
  obtain ⟨control, waiting, w⟩ := m
  cases control with
  | invoke callee receiver args =>
    have started := started_invoke w callee receiver args
    rw [step]
    generalize invoke w callee receiver args = result at started
    cases started with
    | refused i => exact .refl
    | native entry handle => exact .refl
    | code unit loader handle found closed =>
      have starts := Activation.reaches_start unit loader receiver args
        (w.enter unit.loader loader).2
      rwa [World.heap_enter] at starts
  | code a =>
    rw [heap_step_code]
    exact a.reaches_step reads w
  | native p =>
    cases p with
    | done result => exact .refl
    | call callee receiver args next => exact .refl
    | perform action next =>
      rw [step]
      dsimp only
      rw [snd_resume]
      exact w.reaches_perform action
    | newFunction name spec next =>
      rw [step]
      dsimp only
      rw [snd_resume]
      exact w.reaches_newFunction name spec
    | defineNative l id name spec next =>
      rw [step]
      dsimp only
      rw [snd_resume]
      exact w.reaches_define l id name spec
  | deliver result =>
    cases waiting with
    | nil => exact .refl
    | cons first waiting =>
      cases first with
      | code a =>
        rw [step]
        split <;> exact .refl
      | native next => cases result with
        | ok v => exact .refl
        | error i => cases i <;> exact .refl

theorem reaches_steps (m : Machine) (reads : PropertyReads) (n : Nat) :
    m.world.heap.Reaches (m.steps reads n).world.heap := by
  induction n with
  | zero => exact .refl
  | succ n ih =>
    rw [steps_succ_eq]
    exact ih.trans (reaches_step _ reads)

end Machine

/-! ## Reached heaps -/

section

variable (p : Native) (reads : PropertyReads) (n : Nat) (h : Heap)
  (reached : ((Machine.running .empty p).steps reads n).world.heap = h)
include reached

theorem Heap.neat_reached : h.Neat := by
  rw [← reached]
  exact Heap.neat_empty.reaches ((Machine.running .empty p).reaches_steps reads n)

/-- A copy is a new object at the layout of its source, apart from it for good, and a copy of a copy
is a copy by both images. -/
theorem copies_reached (o : ObjectId) (present : h.contains o) (f g : Value → Value) :
    h.Copies o f (h.map o f).1 (h.map o f).2 ∧
      ((h.map o f).2.map (h.map o f).1 g).2.entries ((h.map o f).2.map (h.map o f).1 g).1 =
        (h.map o (g ∘ f)).2.entries (h.map o (g ∘ f)).1 := by
  have neat := Heap.neat_reached p reads n h reached
  exact ⟨neat.copies_map present f, neat.entries_map_map present f g⟩

end

/-- An object that inherits a key gets two of its own, the first of them twice, after its prototype
got the second. -/
def setThrice : Native :=
  .perform (.newObject none) fun base =>
  .perform (.set base "a" (.int 5)) fun _ =>
  .perform (.newObject (some base)) fun o =>
  .perform (.set o "b" (.int 1)) fun _ =>
  .perform (.set o "a" .undefined) fun _ =>
  .perform (.set o "b" (.int 3)) fun _ =>
  .done (.ok .undefined)

/-- The heap after that. -/
def setThriceHeap : Heap := ((Machine.running .empty setThrice).steps .cached 6).world.heap

def tenfold : Value → Value
  | .int i => .int (10 * i)
  | v => v

theorem copies_reached_setThrice :
    setThriceHeap.contains 1 ∧ setThriceHeap.generation 1 = 3 ∧
      (setThriceHeap.map 1 tenfold).2.entries 2 = [("b", .int 30), ("a", .undefined)] ∧
      (setThriceHeap.map 1 tenfold).2.generation 2 = 2 ∧
      setThriceHeap.Copies 1 tenfold 2 (setThriceHeap.map 1 tenfold).2 := by
  have present : setThriceHeap.contains 1 := by cbv
  have copied := copies_reached setThrice .cached 6 setThriceHeap rfl 1 present tenfold tenfold
  exact ⟨present, by cbv, by cbv, by cbv, copied.1⟩

end ProtoVM
