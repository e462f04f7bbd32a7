import ProtoVM.Proofs.Machine.CheckedRuns
import ProtoVM.Proofs.Machine.Handles
import ProtoVM.Proofs.Machine.Passages

/-!
# What a run crashes on

A run crashes where something is used that does not exist. Units do nothing of the kind: their code
is checked before they are loaded, their loaders are never given up, and the objects that they work
with exist. So only native code that asks for what is not there, and is refused, makes a run crash.
-/

namespace ProtoVM

/-- The native code is refused what it asks for next: it ends with an object that does not exist, it
calls one or passes one, or its request names something that is not there. -/
inductive Native.Refused (w : World) : Native → Prop
  | done (v : Value) (gone : w.heap.closed v = false) : Refused w (.done (.ok v))
  | perform (action : Action) (next : action.Answer → Native)
      (refused : (w.perform action).1 = none) : Refused w (.perform action next)
  | call (callee : ObjectId) (receiver : Value) (args : List Value)
      (next : Except RuntimeError Value → Native)
      (gone : ¬ (w.heap.contains callee ∧ ∀ v ∈ receiver :: args, w.heap.closed v)) :
      Refused w (.call callee receiver args next)
  | newFunction (name : String) (spec : HandleSpec NativeEntry) (next : ObjectId → Native)
      (refused : (w.newFunction name spec).1 = none) : Refused w (.newFunction name spec next)
  | defineNative (l : LoaderId) (id name : String) (spec : HandleSpec NativeEntry)
      (next : Except LoadError ObjectId → Native) (refused : (w.define l id name spec).1 = none) :
      Refused w (.defineNative l id name spec next)

/-- Native code is refused what it asks for at this moment. -/
def Machine.Refused (m : Machine) : Prop := ∃ p, m.control = .native p ∧ p.Refused m.world

/-! ## Calls into checked units -/

namespace Activation

/-- The code of the call passes the code check, and the call stands where the check has been. -/
def Stands (a : Activation) : Prop :=
  ∃ map, a.unit.unit.mapFrom 0 a.code = .ok map ∧
    (∀ jump ∈ map.jumps, map.Boundary a.code.length jump.target) ∧
    map.Boundary a.code.length a.ip

variable {a b : Activation} {reads : PropertyReads} {w : World}

theorem stands_start {unit : BoundUnit} (checked : unit.unit.check = .ok ()) (loader : Loader)
    (receiver : Value) (args : List Value) (w : World) :
    (start unit loader receiver args w).1.Stands := by
  obtain ⟨map, walk, landed⟩ := CodeUnit.check_eq_ok_iff.mp checked
  exact ⟨map, walk, landed, CodeUnit.boundary_of_mapFrom (Nat.zero_le _) walk⟩

theorem Stands.of_push (stands : a.Stands) {v : Value} (pushed : a.push v = .ok b) : b.Stands := by
  obtain ⟨stack, rfl⟩ := eq_of_push pushed
  exact stands

/-- The call goes on where the check has been, and it does not crash. -/
theorem Stands.step (stands : a.Stands) (reads : PropertyReads) (w : World) :
    (∀ b, (a.step reads w).1 = .next b → b.Stands) ∧
      (∀ b callee receiver args, (a.step reads w).1 = .call b callee receiver args → b.Stands) ∧
      (a.step reads w).1 ≠ .finish (.error .crash) := by
  obtain ⟨map, walk, landed, place⟩ := stands
  have keeps := step_keeps_boundary walk landed place reads w
  have goesOn (b : Activation) (next : Continues (fun _ => True) (map.Boundary a.code.length) a b) :
      b.Stands := by
    have same : b.code = a.code := by rw [code, code, unit_eq_of_continues next]
    refine ⟨map, ?_, ?_, ?_⟩
    · rw [same, unit_eq_of_continues next]
      exact walk
    · rw [same]
      exact landed
    · rw [same]
      exact next.place
  refine ⟨?_, ?_, ?_⟩
  · intro b effect
    rw [effect] at keeps
    exact goesOn b keeps
  · intro b callee receiver args effect
    rw [effect] at keeps
    exact goesOn b keeps.1
  · intro effect
    rw [effect] at keeps
    exact keeps trivial

/-- An operand that finds no room is no crash. -/
theorem push_ne_crash (v : Value) : a.push v ≠ .error .crash := by
  intro crash
  rw [push] at crash
  split at crash
  · cases crash
  · cases crash

end Activation

/-! ## Machines -/

/-- A unit that is called has passed the code check, and its loader is there. -/
def Handle.Ready (w : World) : Handle → Prop
  | .interpreted unit => unit.unit.check = .ok () ∧ ∃ loader, w.loaders[unit.loader]? = some loader
  | _ => True

/-- What is done next finds what it needs. -/
def Control.Ready (w : World) : Control → Prop
  | .invoke callee receiver args => w.heap.contains callee ∧ ∀ v ∈ receiver :: args, w.heap.closed v
  | .code a => a.Stands
  | .native _ => True
  | .deliver result => result ≠ .error .crash

/-- A value or an error that is handed over is no crash. -/
theorem Control.ready_ok (w : World) (v : Value) : (Control.deliver (.ok v)).Ready w := by
  intro crash
  cases crash

theorem Control.ready_error (w : World) (e : RuntimeError) :
    (Control.deliver (.error (.error e))).Ready w := by
  intro crash
  cases crash

/-- What waits finds what it needs. -/
def Waiting.Ready : Waiting → Prop
  | .code a => a.Stands
  | .native _ => True

namespace Machine

/-- The machine is sound, and what it goes on with finds what it needs. -/
structure Furnished (m : Machine) : Prop where
  sound : m.Sound fun _ => True
  handles : m.world.Calls (Handle.Ready m.world)
  control : m.control.Ready m.world
  waiting : ∀ x ∈ m.waiting, x.Ready

variable {m : Machine} {w : World} {waiting : List Waiting} {reads : PropertyReads}

theorem furnished_running (p : Native) : (running .empty p).Furnished where
  sound := sound_running World.sound_empty (p.asksOnly_of_forall fun _ => trivial)
  handles := fun _ => trivial
  control := trivial
  waiting := fun _ mem => nomatch mem

/-- A unit that is loaded has passed the code check, and loaders are not given up. -/
theorem ready_step (handles : m.world.Calls (Handle.Ready m.world)) (reads : PropertyReads) :
    (m.step reads).world.Calls (Handle.Ready (m.step reads).world) := by
  have kept : (m.step reads).world.Calls (Handle.Ready m.world) := by
    refine calls_step handles ?_
    rintro handle (⟨l, id, payload, next, -, loader, found, unit, accepted⟩ |
      ⟨name, spec, next, -, _, found⟩ | ⟨l, id, name, spec, next, -, _, found⟩)
    · have decoded := World.decode_of_accept accepted
      exact ⟨(Payload.decode_eq_ok_iff_readUnit.mp decoded).1, loader, found⟩
    · exact handles.of_handleOf found trivial fun _ _ => ⟨fun _ => trivial, trivial⟩
    · exact handles.of_handleOf found trivial fun _ _ => ⟨fun _ => trivial, trivial⟩
  intro o
  have ready := kept o
  cases handle : (m.step reads).world.heap.handle o with
  | interpreted unit =>
    rw [handle] at ready
    obtain ⟨checked, loader, found⟩ := ready
    obtain ⟨loader', later, -⟩ := exists_loader_step reads found
    exact ⟨checked, loader', later⟩
  | _ => exact trivial

theorem control_invoke_ready (handles : w.Calls (Handle.Ready w)) {callee : ObjectId}
    {receiver : Value} {args : List Value}
    (exist : w.heap.contains callee ∧ ∀ v ∈ receiver :: args, w.heap.closed v) :
    (invoke w callee receiver args).1.Ready (invoke w callee receiver args).2 := by
  have ready := handles callee
  have present : (w.heap.contains callee && (receiver :: args).all w.heap.closed) = true := by
    rw [exist.1, Bool.true_and]
    exact List.all_eq_true.mpr exist.2
  unfold invoke
  rw [present, if_neg (by decide)]
  dsimp only
  cases checkArity (w.heap.handle callee) args with
  | error e => exact Control.ready_error w e
  | ok _ =>
    dsimp only
    cases handle : w.heap.handle callee with
    | inert => exact Control.ready_error w _
    | fixed arity entry => exact trivial
    | variadic entry => exact trivial
    | interpreted unit =>
      rw [handle] at ready
      obtain ⟨checked, loader, found⟩ := ready
      dsimp only
      rw [enter, found]
      dsimp only
      cases entered : w.enter unit.loader loader with
      | mk outcome w' =>
        cases outcome with
        | error f => exact Control.ready_error w' _
        | ok _ => exact Activation.stands_start checked loader receiver args w'

section

variable (below : ∀ x ∈ waiting, x.Ready)
include below

theorem step_code_ready {a : Activation} (sound : w.Sound fun _ => True) (live : a.Live w)
    (stands : a.Stands) :
    (step reads ⟨.code a, waiting, w⟩).control.Ready (step reads ⟨.code a, waiting, w⟩).world ∧
      ∀ x ∈ (step reads ⟨.code a, waiting, w⟩).waiting, x.Ready := by
  have keeps := a.keeps_step sound live reads
  obtain ⟨next, call, noCrash⟩ := stands.step reads w
  rw [step]
  generalize a.step reads w = result at keeps next call noCrash
  obtain ⟨effect, w'⟩ := result
  cases effect with
  | next b => exact ⟨next b rfl, below⟩
  | call b callee receiver args =>
    obtain ⟨-, closedCallee, closedReceiver, closedArgs⟩ := keeps
    refine ⟨⟨closedCallee, ?_⟩, ?_⟩
    · intro v hv
      rcases List.mem_cons.mp hv with rfl | hv
      · exact closedReceiver
      · exact closedArgs v hv
    · intro x hx
      rcases List.mem_cons.mp hx with rfl | hx
      · exact call b callee receiver args rfl
      · exact below x hx
  | finish result =>
    refine ⟨?_, below⟩
    intro crash
    exact noCrash (congrArg Effect.finish crash)

theorem step_native_ready {p : Native} (granted : ¬ p.Refused w) :
    (step reads ⟨.native p, waiting, w⟩).control.Ready (step reads ⟨.native p, waiting, w⟩).world ∧
      ∀ x ∈ (step reads ⟨.native p, waiting, w⟩).waiting, x.Ready := by
  -- an answer lets the code go on
  have resumed {α : Type} {next : α → Native} {answer : Option α × World}
      (answered : answer.1 ≠ none) : (resume next answer).1.Ready (resume next answer).2 := by
    obtain ⟨_ | a, w'⟩ := answer
    · exact absurd rfl answered
    · exact trivial
  cases p with
  | done result =>
    refine ⟨?_, below⟩
    cases result with
    | error e => exact Control.ready_error w _
    | ok v =>
      have closed : w.heap.closed v = true := by
        cases closed : w.heap.closed v with
        | true => rfl
        | false => exact absurd (.done v closed) granted
      show (Control.deliver (resultOf w.heap (.ok v))).Ready w
      rw [resultOf, if_pos closed]
      exact Control.ready_ok w v
  | perform action next => exact ⟨resumed fun none => granted (.perform action next none), below⟩
  | call callee receiver args next =>
    refine ⟨Classical.byContradiction fun gone =>
      granted (.call callee receiver args next gone), ?_⟩
    intro x hx
    rcases List.mem_cons.mp hx with rfl | hx
    · exact trivial
    · exact below x hx
  | newFunction name spec next =>
    exact ⟨resumed fun none => granted (.newFunction name spec next none), below⟩
  | defineNative l id name spec next =>
    exact ⟨resumed fun none => granted (.defineNative l id name spec next none), below⟩

theorem step_deliver_ready {result : Except Interrupt Value} (noCrash : result ≠ .error .crash) :
    (step reads ⟨.deliver result, waiting, w⟩).control.Ready
        (step reads ⟨.deliver result, waiting, w⟩).world ∧
      ∀ x ∈ (step reads ⟨.deliver result, waiting, w⟩).waiting, x.Ready := by
  cases waiting with
  | nil => exact ⟨noCrash, below⟩
  | cons first waiting =>
    have rest : ∀ x ∈ waiting, x.Ready := fun x hx => below x (List.mem_cons_of_mem _ hx)
    have stands := below first List.mem_cons_self
    cases first with
    | code a =>
      rw [step]
      cases pushed : result.bind a.push with
      | error i =>
        refine ⟨?_, rest⟩
        rintro ⟨⟩
        cases result with
        | error i =>
          cases pushed
          exact noCrash rfl
        | ok v => exact Activation.push_ne_crash v pushed
      | ok b =>
        cases result with
        | error i => cases pushed
        | ok v => exact ⟨Activation.Stands.of_push stands pushed, rest⟩
    | native next =>
      rcases result with (e | _) | v
      · exact ⟨trivial, rest⟩
      · exact absurd rfl noCrash
      · exact ⟨trivial, rest⟩

end

theorem furnished_step (h : m.Furnished) (granted : ¬ m.Refused) (reads : PropertyReads) :
    (m.step reads).Furnished := by
  have sound := (leads_step h.sound reads).sound
  have handles := ready_step h.handles reads
  obtain ⟨control, waiting, w⟩ := m
  have later : (step reads ⟨control, waiting, w⟩).control.Ready
        (step reads ⟨control, waiting, w⟩).world ∧
      ∀ x ∈ (step reads ⟨control, waiting, w⟩).waiting, x.Ready := by
    cases control with
    | invoke callee receiver args => exact ⟨control_invoke_ready h.handles h.control, h.waiting⟩
    | code a => exact step_code_ready h.waiting h.sound.world h.sound.control h.control
    | native p => exact step_native_ready h.waiting fun refused => granted ⟨p, rfl, refused⟩
    | deliver result => exact step_deliver_ready h.waiting h.control
  exact ⟨sound, handles, later.1, later.2⟩

/-- A run crashes only where native code was refused what it asked for. -/
theorem exists_refused_of_crash (p : Native) (reads : PropertyReads) (n : Nat)
    (crash : ((running .empty p).steps reads n).control = .deliver (.error .crash)) :
    ∃ k < n, ((running .empty p).steps reads k).Refused := by
  by_contra granted
  push Not at granted
  have furnished : ∀ k ≤ n, ((running .empty p).steps reads k).Furnished := by
    intro k
    induction k with
    | zero => exact fun _ => furnished_running p
    | succ k ih =>
      intro hk
      rw [steps_succ_eq]
      exact furnished_step (ih (Nat.le_of_succ_le hk)) (granted k hk) reads
  have ready := (furnished n (Nat.le_refl n)).control
  rw [crash] at ready
  exact ready rfl

end Machine

end ProtoVM
