import Mathlib
import ProtoVM.Proofs.Bytecode.Walks
import ProtoVM.Proofs.Machine.Soundness
import ProtoVM.Proofs.Session.Agreement

/-!
# Reading properties without caches

A run whose instructions read properties through their caches and a run in which they look them up
directly go through the same states, up to what the caches remember. The cache of an instruction is
found by its offset; it serves the name that the instruction refers to.
-/

namespace ProtoVM

open World (Agrees Alike)

variable {allowed : Action → Prop} {w w' : World}

namespace Activation

variable {a b : Activation}

theorem exists_operand_of_name {key : String} (named : a.name = .ok key) :
    ∃ index, a.code.operandAt? (a.ip + 1) 2 = some index ∧
      a.unit.unit.stringAt? index = some key := by
  rw [name] at named
  obtain ⟨index, operand, found⟩ := exists_of_bind_eq_ok named
  refine ⟨index, ?_, ?_⟩
  · rw [Activation.operand] at operand
    cases read : a.code.operandAt? (a.ip + 1) 2 with
    | none =>
      rw [read] at operand
      cases operand
    | some n =>
      rw [read] at operand
      cases operand
      rfl
  · cases read : a.unit.unit.stringAt? index with
    | none =>
      rw [read] at found
      cases found
    | some s =>
      rw [read] at found
      cases found
      rfl

/-- The cache of an instruction serves the name that the instruction refers to. -/
theorem key_of_unitCache? (live : a.Live w) {key : String} (named : a.name = .ok key)
    {cache : PropertyCache} (found : w.unitCache? a.unit a.ip = some cache) : cache.key = key := by
  obtain ⟨index, operand, string⟩ := exists_operand_of_name named
  obtain ⟨own, hown, mem⟩ := World.mem_of_unitCache? found
  obtain ⟨bank, hbank, keys⟩ := live.bound
  obtain rfl : own = bank := Option.some.inj (hown.symm.trans hbank)
  have site := CodeUnit.stringAt?_of_mem_propertySites (keys _ mem) operand
  exact Option.some.inj (site.symm.trans string)

theorem name_of_readTarget {h : Heap} {r : String × ObjectId × Activation}
    (found : a.readTarget h = .ok r) : a.name = .ok r.1 := by
  obtain ⟨key, named, rest⟩ := exists_of_bind_eq_ok found
  obtain ⟨⟨v, b⟩, -, rest⟩ := exists_of_bind_eq_ok rest
  obtain ⟨o, -, same⟩ := exists_of_bind_eq_ok rest
  cases same
  exact named

/-- Reading through a cache gives what a lookup gives. -/
theorem readProperty_agrees (sound : w.Sound allowed) (bounded : w.heap.Bounded) (live : a.Live w)
    (agrees : w.Agrees w') {o : ObjectId} (present : w.heap.contains o) {key : String}
    (named : a.name = .ok key) :
    Alike (a.readProperty .cached w o key) (a.readProperty .direct w' o key) := by
  have direct : a.readProperty .direct w' o key = (w.heap.lookup o key, w') := by
    rw [← agrees.heap]
    rfl
  rw [direct]
  cases found : w.unitCache? a.unit a.ip with
  | none =>
    have missing : a.readProperty .cached w o key = (w.heap.lookup o key, w) := by
      simp only [readProperty, found]
    rw [missing]
    exact agrees.alike _
  | some cache =>
    have used : a.readProperty .cached w o key = ((cache.lookup w.heap o).1,
        w.setUnitCache a.unit a.ip (cache.lookup w.heap o).2) := by
      simp only [readProperty, found]
    have value := World.lookup_unitCache? sound bounded present found
    rw [key_of_unitCache? live named found] at value
    rw [used, value]
    have kept := World.agrees_setUnitCache found (cache.key_lookup w.heap o)
    exact ⟨rfl, kept.symm.trans agrees⟩

/-! ## One instruction -/

theorem execute_agrees (sound : w.Sound allowed) (bounded : w.heap.Bounded) (live : a.Live w)
    (agrees : w.Agrees w') (op : Opcode) :
    Alike (a.execute .cached w op) (a.execute .direct w' op) := by
  cases op with
  | setName =>
    unfold execute
    cases a.binding with
    | error i => exact agrees.alike _
    | ok r =>
      obtain ⟨key, v, b⟩ := r
      exact ⟨rfl, agrees.mapHeap (·.set a.scope key v)⟩
  | setGlobal =>
    unfold execute
    cases a.binding with
    | error i => exact agrees.alike _
    | ok r =>
      obtain ⟨key, v, b⟩ := r
      exact ⟨rfl, agrees.mapHeap (·.set a.global key v)⟩
  | getProperty =>
    have supplied : Supplied (w.heap.closed ·) a .cached w .getProperty :=
      supplied_of_leads sound live (.refl sound) fun new => absurd new (by decide)
    have taken := yields_readTarget (decodes_trivial a .getProperty) supplied rfl
    unfold execute
    rw [agrees.heap]
    cases found : a.readTarget w.heap with
    | error i => exact agrees.alike _
    | ok r =>
      rw [found] at taken
      obtain ⟨key, o, b⟩ := r
      have read := readProperty_agrees sound bounded live agrees taken.1 (name_of_readTarget found)
      refine ⟨?_, read.world⟩
      dsimp only
      rw [read.answer]
  | setProperty =>
    unfold execute
    rw [agrees.heap]
    cases a.writeTarget w.heap with
    | error i => exact agrees.alike _
    | ok r =>
      obtain ⟨key, o, v, b⟩ := r
      exact ⟨rfl, agrees.mapHeap (·.set o key v)⟩
  | newObject =>
    unfold execute
    rw [agrees.heap]
    cases a.protoTarget w.heap with
    | error i => exact agrees.alike _
    | ok r =>
      obtain ⟨proto, b⟩ := r
      have made := agrees.allocWith (·.newObject proto)
      refine ⟨?_, made.world⟩
      dsimp only
      rw [made.answer]
  | function =>
    unfold execute
    rw [agrees.dictionary]
    exact agrees.alike _
  | getName | add | sub | mul | lessThan =>
    unfold execute
    rw [agrees.heap]
    exact agrees.alike _
  | _ => exact agrees.alike _

theorem step_agrees (sound : w.Sound allowed) (bounded : w.heap.Bounded) (live : a.Live w)
    (agrees : w.Agrees w') : Alike (a.step .cached w) (a.step .direct w') := by
  unfold step
  cases a.code[a.ip]? with
  | none => exact agrees.alike _
  | some byte =>
    dsimp only
    cases Opcode.ofByte? byte with
    | none => exact agrees.alike _
    | some op => exact execute_agrees sound bounded live agrees op

theorem start_agrees (agrees : w.Agrees w') (unit : BoundUnit) (loader : Loader) (receiver : Value)
    (args : List Value) :
    Alike (start unit loader receiver args w) (start unit loader receiver args w') := by
  have made := agrees.allocWith (·.newScope (some loader.global))
  unfold start
  dsimp only
  rw [made.answer]
  exact ⟨rfl, made.world.mapHeap (·.setAll _ (("this", receiver) :: unit.unit.parameters.zip args))⟩

end Activation

/-! ## Machines -/

namespace Machine

/-- The machines do the same next, and their sessions agree. -/
structure Agrees (m m' : Machine) : Prop where
  control : m'.control = m.control
  waiting : m'.waiting = m.waiting
  world : m.world.Agrees m'.world

/-- The same result, if there is one already. -/
theorem Agrees.result? {m m' : Machine} (agrees : m.Agrees m') : m'.result? = m.result? := by
  unfold Machine.result?
  rw [agrees.control, agrees.waiting]

theorem enter_agrees (agrees : w.Agrees w') (unit : BoundUnit) (receiver : Value)
    (args : List Value) : Alike (enter w unit receiver args) (enter w' unit receiver args) := by
  unfold enter
  rw [agrees.loaders]
  cases w.loaders[unit.loader]? with
  | none => exact agrees.alike _
  | some loader =>
    have entered := agrees.enter unit.loader loader
    dsimp only
    generalize w.enter unit.loader loader = result at entered
    generalize w'.enter unit.loader loader = result' at entered
    obtain ⟨outcome, w₁⟩ := result
    obtain ⟨outcome', w₁'⟩ := result'
    obtain ⟨rfl, world⟩ := entered
    cases outcome' with
    | error f => exact world.alike _
    | ok _ =>
      have started := Activation.start_agrees world unit loader receiver args
      exact ⟨congrArg Control.code started.answer, started.world⟩

theorem invoke_agrees (agrees : w.Agrees w') (callee : ObjectId) (receiver : Value)
    (args : List Value) :
    Alike (invoke w callee receiver args) (invoke w' callee receiver args) := by
  unfold invoke
  rw [agrees.heap]
  by_cases present : !(w.heap.contains callee && (receiver :: args).all w.heap.closed)
  · rw [if_pos present, if_pos present]
    exact agrees.alike _
  · rw [if_neg present, if_neg present]
    dsimp only
    cases checkArity (w.heap.handle callee) args with
    | error e => exact agrees.alike _
    | ok _ =>
      dsimp only
      cases w.heap.handle callee with
      | interpreted unit => exact enter_agrees agrees unit receiver args
      | _ => exact agrees.alike _

theorem resume_agrees {α : Type} (next : α → Native) {answer answer' : Option α × World}
    (alike : Alike answer answer') : Alike (resume next answer) (resume next answer') := by
  obtain ⟨a, w⟩ := answer
  obtain ⟨a', w'⟩ := answer'
  obtain ⟨rfl, world⟩ := alike
  cases a' with
  | none => exact world.alike _
  | some a => exact world.alike _

variable {m m' : Machine}

/-- What waited goes on waiting in both machines. -/
theorem agrees_of_alike {waiting : List Waiting} {r r' : Control × World} (alike : Alike r r') :
    Agrees ⟨r.1, waiting, r.2⟩ ⟨r'.1, waiting, r'.2⟩ := ⟨alike.answer, rfl, alike.world⟩

theorem step_code_agrees {waiting : List Waiting} {a : Activation}
    (stepped : Alike (a.step .cached w) (a.step .direct w')) :
    Agrees (step .cached ⟨.code a, waiting, w⟩) (step .direct ⟨.code a, waiting, w'⟩) := by
  rw [step, step]
  generalize a.step .cached w = result at stepped
  generalize a.step .direct w' = result' at stepped
  obtain ⟨effect, w₁⟩ := result
  obtain ⟨effect', w₁'⟩ := result'
  obtain ⟨rfl, world⟩ := stepped
  cases effect' with
  | next b => exact ⟨rfl, rfl, world⟩
  | call b callee receiver args => exact ⟨rfl, rfl, world⟩
  | finish result => exact ⟨rfl, rfl, world.leave a.unit.loader⟩

section

variable {waiting : List Waiting} (agrees : w.Agrees w')
include agrees

theorem step_native_agrees {p : Native} (asks : p.AsksOnly Action.IgnoresUnitHits)
    (sound : w.Sound allowed) (sound' : w'.Sound allowed) (bounded : w.heap.Bounded) :
    Agrees (step .cached ⟨.native p, waiting, w⟩) (step .direct ⟨.native p, waiting, w'⟩) := by
  cases asks with
  | done result =>
    refine ⟨?_, rfl, agrees⟩
    rw [step, step, agrees.heap]
  | perform action next ignores later =>
    exact agrees_of_alike (resume_agrees next (agrees.perform sound sound' bounded action ignores))
  | call callee receiver args next later => exact ⟨rfl, rfl, agrees⟩
  | newFunction name spec next entries later =>
    exact agrees_of_alike (resume_agrees next (agrees.newFunction name spec))
  | defineNative l id name spec next entries later =>
    exact agrees_of_alike (resume_agrees next (agrees.define l id name spec))

theorem step_deliver_agrees (result : Except Interrupt Value) :
    Agrees (step .cached ⟨.deliver result, waiting, w⟩)
      (step .direct ⟨.deliver result, waiting, w'⟩) := by
  cases waiting with
  | nil => exact ⟨rfl, rfl, agrees⟩
  | cons first waiting =>
    cases first with
    | code a =>
      rw [step, step]
      cases result.bind a.push with
      | error i => exact ⟨rfl, rfl, agrees.leave a.unit.loader⟩
      | ok b => exact ⟨rfl, rfl, agrees⟩
    | native next =>
      cases result with
      | ok v => exact ⟨rfl, rfl, agrees⟩
      | error i =>
        cases i with
        | error e => exact ⟨rfl, rfl, agrees⟩
        | crash => exact ⟨rfl, rfl, agrees⟩

end

theorem step_agrees (sound : m.Sound Action.IgnoresUnitHits)
    (sound' : m'.Sound Action.IgnoresUnitHits) (bounded : m.world.heap.Bounded)
    (agrees : m.Agrees m') : (m.step .cached).Agrees (m'.step .direct) := by
  obtain ⟨control, waiting, w⟩ := m
  obtain ⟨control', waiting', w'⟩ := m'
  obtain ⟨rfl, rfl, world⟩ := agrees
  obtain ⟨sessionSound, live, -⟩ := sound
  cases control' with
  | invoke callee receiver args =>
    exact agrees_of_alike (invoke_agrees world callee receiver args)
  | code a =>
    exact step_code_agrees (a.step_agrees sessionSound bounded live world)
  | native p => exact step_native_agrees world live sessionSound sound'.world bounded
  | deliver result => exact step_deliver_agrees world result

theorem steps_agree (n : Nat) (sound : m.Sound Action.IgnoresUnitHits)
    (sound' : m'.Sound Action.IgnoresUnitHits)
    (bounded : (m.steps .cached n).world.heap.Bounded) (agrees : m.Agrees m') :
    (m.steps .cached n).Agrees (m'.steps .direct n) := by
  induction n generalizing m m' with
  | zero => exact agrees
  | succ n ih =>
    -- counts of changes only grow, so they were in range at the start as well
    have later := (leads_steps sound .cached (n + 1)).world.heap
    have first := step_agrees sound sound' (bounded.of_evolves later) agrees
    exact ih (leads_step sound .cached).sound (leads_step sound' .direct).sound bounded first

end Machine

/-- Host code runs in an empty session: it makes objects, loaders and functions, loads units, calls
what it likes, uses any caches, and goes on by what it is answered; only how often the caches of
units were hit is not its business. Whether properties are read through the caches of the
instructions or along the chain, the run goes through the same states: the same calls, results and
errors, and the same objects, dictionaries and loaders. -/
theorem steps_direct_agree (p : Native) (ignores : p.AsksOnly Action.IgnoresUnitHits) (n : Nat)
    (bounded : ((Machine.running .empty p).steps .cached n).world.heap.Bounded) :
    ((Machine.running .empty p).steps .cached n).Agrees
      ((Machine.running .empty p).steps .direct n) :=
  have sound := Machine.sound_running World.sound_empty ignores
  Machine.steps_agree n sound sound bounded ⟨rfl, rfl, .refl _⟩

/-- The payload of a unit that answers the property `x` of its receiver. The digest is left
blank. -/
def propertyPayload : List UInt8 :=
  Payload.magic ++ [1, 0] ++ [1, 0, 0, 0, 102] ++ [0, 0, 0, 0] ++
    [1, 0, 0, 0, 2, 1, 0, 0, 0, 120] ++ [5, 0, 0, 0, 2, 6, 0, 0, 21] ++ List.replicate 32 0

/-- The unit is loaded and called twice, so that the second call finds what the first has left in
the cache. -/
def readingTwice : Native :=
  .perform .newDictionary fun d =>
  .perform (.newObject none) fun o =>
  .perform (.newLoader { verifyChecksum := false } d o) fun l =>
  .perform (.set o "x" (.int 7)) fun _ =>
  .perform (.load l "f" propertyPayload) fun
    | .error _ => .done (.ok .undefined)
    | .ok f =>
      .call f (.object o) [] fun _ =>
      .call f (.object o) [] fun
        | .error _ => .done (.ok .undefined)
        | .ok v => .done (.ok v)

theorem steps_direct_agree_readingTwice :
    ((Machine.running .empty readingTwice).steps .direct 18).result? = some (.ok (.int 7)) := by
  have ignores : readingTwice.AsksOnly Action.IgnoresUnitHits := by
    refine .perform _ _ trivial fun d => .perform _ _ trivial fun o => .perform _ _ trivial fun l =>
      .perform _ _ trivial fun _ => .perform _ _ trivial fun loaded => ?_
    cases loaded with
    | error e => exact .done _
    | ok f =>
      refine .call _ _ _ _ fun _ => .call _ _ _ _ fun result => ?_
      cases result with
      | error e => exact .done _
      | ok v => exact .done _
  have cached : (fun m : Machine => (m.result?, m.world.heap.objects.toList.all
      fun object => decide (object.changes < UInt64.size)))
      ((Machine.running .empty readingTwice).steps .cached 18) = (some (.ok (.int 7)), true) := by
    cbv
  obtain ⟨result, small⟩ := Prod.mk.inj cached
  have bounded := Heap.bounded_of_all small
  exact (steps_direct_agree readingTwice ignores 18 bounded).result?.trans result

end ProtoVM
