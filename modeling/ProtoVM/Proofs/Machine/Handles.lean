import ProtoVM.Proofs.Machine.Soundness
import ProtoVM.Proofs.Session.Handles

/-!
# How objects are called in a run

A step of a machine makes at most one object that can be called: when native code loads a unit or
makes a function (`Makes`). Every other object is called as before, so that a property of all
handles of a session lasts while what is made has it.
-/

namespace ProtoVM

/-! ## Instructions -/

namespace Activation

variable {reads : PropertyReads} {w : World}

theorem handle_readProperty (a : Activation) (p : ObjectId) (key : String) (o : ObjectId) :
    (a.readProperty reads w p key).2.heap.handle o = w.heap.handle o := by
  rw [readProperty.eq_def]
  split <;> rfl

theorem handle_execute (a : Activation) (op : Opcode) (o : ObjectId) :
    (a.execute reads w op).2.heap.handle o = w.heap.handle o := by
  cases op with
  | setName | setGlobal =>
    rw [execute]
    cases a.binding with
    | error i => rfl
    | ok r => exact Heap.handle_set o
  | getProperty =>
    rw [execute]
    cases a.readTarget w.heap with
    | error i => rfl
    | ok r => exact a.handle_readProperty r.2.1 r.1 o
  | setProperty =>
    rw [execute]
    cases a.writeTarget w.heap with
    | error i => rfl
    | ok r => exact Heap.handle_set o
  | newObject =>
    rw [execute]
    cases a.protoTarget w.heap with
    | error i => rfl
    | ok r => exact w.heap.handle_alloc_inert _ _ o
  | _ => rfl

/-- No instruction makes an object that can be called. -/
theorem handle_step (a : Activation) (reads : PropertyReads) (w : World) (o : ObjectId) :
    (a.step reads w).2.heap.handle o = w.heap.handle o :=
  a.step_cases reads w rfl (fun _ => rfl) fun op _ => a.handle_execute op o

theorem handle_start (unit : BoundUnit) (loader : Loader) (receiver : Value) (args : List Value)
    (w : World) (o : ObjectId) :
    (start unit loader receiver args w).2.heap.handle o = w.heap.handle o := by
  rw [start]
  exact (Heap.handle_setAll _ _ _ _).trans (w.heap.handle_alloc_inert _ _ o)

end Activation

namespace Machine

/-- How the object is called that the next step makes. -/
inductive Makes (m : Machine) : Handle → Prop
  | unit (l : LoaderId) (id : String) (payload : List UInt8)
      (next : Except LoadError ObjectId → Native)
      (at_ : m.control = .native (.perform (.load l id payload) next)) (loader : Loader)
      (found : m.world.loaders[l]? = some loader) (unit : CodeUnit)
      (accepted : m.world.accept loader id payload = .ok unit) :
      Makes m (.interpreted ⟨m.world.banks.size, id, unit, l⟩)
  | function (name : String) (spec : HandleSpec NativeEntry) (next : ObjectId → Native)
      (at_ : m.control = .native (.newFunction name spec next)) (handle : Handle)
      (found : m.world.handleOf spec = some handle) : Makes m handle
  | native (l : LoaderId) (id name : String) (spec : HandleSpec NativeEntry)
      (next : Except LoadError ObjectId → Native)
      (at_ : m.control = .native (.defineNative l id name spec next)) (handle : Handle)
      (found : m.world.handleOf spec = some handle) : Makes m handle

variable {P : Handle → Prop} {w : World} {waiting : List Waiting} {reads : PropertyReads}

theorem calls_invoke (calls : w.Calls P) (callee : ObjectId) (receiver : Value)
    (args : List Value) : (invoke w callee receiver args).2.Calls P := by
  have started := started_invoke w callee receiver args
  generalize invoke w callee receiver args = result at started
  cases started with
  | refused i => exact calls
  | native entry handle => exact calls
  | code unit loader handle found closed arity room =>
    have entered : (w.enter unit.loader loader).2.Calls P := by
      intro o
      rw [World.heap_enter]
      exact calls o
    exact entered.of_handle fun o => Activation.handle_start unit loader receiver args _ o

theorem calls_step {m : Machine} (calls : m.world.Calls P)
    (made : ∀ handle, m.Makes handle → P handle) : (m.step reads).world.Calls P := by
  obtain ⟨control, waiting, w⟩ := m
  cases control with
  | invoke callee receiver args => exact calls_invoke calls callee receiver args
  | code a =>
    have same := fun o => a.handle_step reads w o
    rw [step]
    generalize a.step reads w = result at same
    obtain ⟨effect, w'⟩ := result
    cases effect <;> exact calls.of_handle same
  | native p =>
    cases p with
    | done result => exact calls
    | perform action next =>
      have kept : (w.perform action).2.Calls P := by
        refine calls.perform action ?_
        rintro l id payload rfl loader found unit accepted
        exact made _ (.unit l id payload next rfl loader found unit accepted)
      rw [step]
      dsimp only
      rw [snd_resume]
      exact kept
    | call callee receiver args next => exact calls
    | newFunction name spec next =>
      have kept := calls.newFunction name fun handle found =>
        made handle (.function name spec next rfl handle found)
      rw [step]
      dsimp only
      rw [snd_resume]
      exact kept
    | defineNative l id name spec next =>
      have kept := calls.define l id name fun handle found =>
        made handle (.native l id name spec next rfl handle found)
      rw [step]
      dsimp only
      rw [snd_resume]
      exact kept
  | deliver result =>
    cases waiting with
    | nil => exact calls
    | cons first waiting =>
      cases first with
      | code a =>
        rw [step]
        cases result.bind a.push <;> exact calls
      | native next =>
        rcases result with (e | _) | v <;> exact calls

end Machine

end ProtoVM
