import ProtoVM.Proofs.Machine.Activations
import ProtoVM.Proofs.Machine.Instructions
import ProtoVM.Proofs.Session.Operations

/-!
# Sound runs

A machine is sound when its session is and when everything that it works with exists: the operands
and receivers of the calls that are under way, and a value that is being handed over. A step leads
to a sound machine, and so does a run.
-/

namespace ProtoVM

variable {allowed : Action → Prop} {w w' : World}

namespace Activation

/-- What a call that is under way works with exists in the session. -/
structure Live (w : World) (a : Activation) : Prop where
  bound : w.Bound a.unit
  receiver : w.heap.closed a.receiver
  operands : ∀ v ∈ a.stack.values, w.heap.closed v

variable {a b : Activation} {op : Opcode} {reads : PropertyReads}

theorem Live.mono (leads : w.Leads allowed w') (live : a.Live w) : a.Live w' where
  bound := leads.bound a.unit live.bound
  receiver := leads.heap.closed live.receiver
  operands := fun v hv => leads.heap.closed (live.operands v hv)

/-- The same call, with operands that exist. -/
theorem Live.of_continues {good : Value → Prop} {place : Nat → Prop} (live : a.Live w)
    (closed : ∀ v, good v → w.heap.closed v) (next : Continues good place a b) : b.Live w := by
  obtain ⟨stack, ip, rfl⟩ := next.same
  exact ⟨live.bound, live.receiver, fun v hv => closed v (next.operands v hv)⟩

theorem Live.of_push (live : a.Live w) {v : Value} (hv : w.heap.closed v)
    (pushed : a.push v = .ok b) : b.Live w :=
  live.of_continues (fun _ h => h) (continues_of_push live.operands hv pushed)

/-! ## One instruction -/

theorem closed_of_plain {h : Heap} {v : Value} (plain : v.asObject? = none) : h.closed v := by
  rw [Heap.closed, plain]
  rfl

theorem good_readProperty {good : Value → Prop} (holds : w.heap.Holds good)
    (undefined : good .undefined) (a : Activation) (reads : PropertyReads) (o : ObjectId)
    (key : String) : good (a.readProperty reads w o key).1 := by
  rw [readProperty.eq_def]
  split
  · exact PropertyCache.good_lookup _ holds undefined o
  · exact holds.lookup undefined o key

theorem leads_readProperty (sound : w.Sound allowed) (a : Activation) (reads : PropertyReads)
    {o : ObjectId} (present : w.heap.contains o) (key : String) :
    w.Leads allowed (a.readProperty reads w o key).2 := by
  rw [readProperty.eq_def]
  split
  · rename_i cache found
    have old := World.sound_unitCache? sound found
    exact World.leads_setUnitCache sound found (PropertyCache.key_lookup cache w.heap o)
      (PropertyCache.sound_lookup old sound.heap present)
  · exact .refl sound

/-- What a session and a call hold supplies an instruction. What is good may take more in when the
instruction is carried out. -/
theorem supplied_of_holds {good good' : Value → Prop} (holds : w.heap.Holds good)
    (plain : ∀ v : Value, v.asObject? = none → good v) (more : ∀ v, good v → good' v)
    (receiver : good a.receiver) (operands : ∀ v ∈ a.stack.values, good v)
    (function : ∀ id o, (w.dictionary a.dictionary).resolve? id = some o → good (.object o))
    (fresh : op = .newObject → ∀ r, a.protoTarget w.heap = .ok r →
      good' (.object w.heap.size)) : Supplied good' a reads w op where
  plain := fun v hv => more v (plain v hv)
  receiver := more a.receiver receiver
  operands := fun v hv => more v (operands v hv)
  lookup := fun o key => more _ (holds.lookup (plain .undefined rfl) o key)
  property := fun o key _ =>
    more _ (good_readProperty holds (plain .undefined rfl) a reads o key)
  function := fun id o found => more _ (function id o found)
  fresh := fresh

/-- A later session provides what an instruction needs. -/
theorem supplied_of_leads (sound : w.Sound allowed) (live : a.Live w) (leads : w.Leads allowed w')
    (fresh : op = .newObject → ∀ r, a.protoTarget w.heap = .ok r →
      w'.heap.contains w.heap.size) : Supplied (w'.heap.closed ·) a reads w op :=
  supplied_of_holds sound.heap.values (fun _ => closed_of_plain) (fun _ => leads.heap.closed)
    live.receiver live.operands (fun _ _ found => World.contains_of_resolve? sound found) fresh

theorem leads_execute (sound : w.Sound allowed) (live : a.Live w) (reads : PropertyReads)
    (op : Opcode) : w.Leads allowed (a.execute reads w op).2 := by
  -- what the instruction takes from the operands exists
  have supplied (op : Opcode) (old : op ≠ .newObject) : Supplied (w.heap.closed ·) a reads w op :=
    supplied_of_leads sound live (.refl sound) fun new => absurd new old
  cases op with
  | setName =>
    have taken := yields_binding (decodes_trivial a .setName) (supplied .setName (by decide)) rfl
    rw [execute]
    cases bound : a.binding with
    | error i => exact .refl sound
    | ok r =>
      rw [bound] at taken
      exact World.leads_set sound taken.1
  | setGlobal =>
    have taken := yields_binding (decodes_trivial a .setGlobal)
      (supplied .setGlobal (by decide)) rfl
    rw [execute]
    cases bound : a.binding with
    | error i => exact .refl sound
    | ok r =>
      rw [bound] at taken
      exact World.leads_set sound taken.1
  | getProperty =>
    have taken := yields_readTarget (decodes_trivial a .getProperty)
      (supplied .getProperty (by decide)) rfl
    rw [execute]
    cases found : a.readTarget w.heap with
    | error i => exact .refl sound
    | ok r =>
      rw [found] at taken
      exact leads_readProperty sound a reads taken.1 r.1
  | setProperty =>
    have taken := yields_writeTarget (decodes_trivial a .setProperty)
      (supplied .setProperty (by decide)) rfl
    rw [execute]
    cases found : a.writeTarget w.heap with
    | error i => exact .refl sound
    | ok r =>
      rw [found] at taken
      exact World.leads_set sound taken.2.1
  | newObject =>
    have taken := yields_protoTarget (decodes_trivial a .undefined)
      (supplied .undefined (by decide))
    rw [execute]
    cases found : a.protoTarget w.heap with
    | error i => exact .refl sound
    | ok r =>
      rw [found] at taken
      exact World.leads_newObject sound taken.1
  | _ => exact .refl sound

/-- After an instruction, everything that the call goes on with exists. -/
theorem keeps_execute (sound : w.Sound allowed) (live : a.Live w) (reads : PropertyReads)
    (op : Opcode) :
    (a.execute reads w op).1.Keeps ((a.execute reads w op).2.heap.closed ·) (fun _ => True)
      (fun _ => True) a := by
  apply execute_keeps (decodes_trivial a op)
  apply supplied_of_leads sound live (leads_execute sound live reads op)
  rintro rfl r found
  rw [execute, found]
  exact Heap.contains_alloc_self

theorem leads_step (sound : w.Sound allowed) (live : a.Live w) (reads : PropertyReads) :
    w.Leads allowed (a.step reads w).2 :=
  a.step_cases reads w (.refl sound) (fun _ => .refl sound) fun op _ =>
    leads_execute sound live reads op

theorem keeps_step (sound : w.Sound allowed) (live : a.Live w) (reads : PropertyReads) :
    (a.step reads w).1.Keeps ((a.step reads w).2.heap.closed ·) (fun _ => True) (fun _ => True)
      a :=
  a.step_cases reads w (closed_of_plain rfl) (fun _ => trivial) fun op _ =>
    keeps_execute sound live reads op

/-! ## The start of a call -/

/-- The values that are bound when a call is entered. -/
def arguments (parameters : List String) (receiver : Value) (args : List Value) :
    List (String × Value) := ("this", receiver) :: parameters.zip args

theorem mem_of_mem_arguments {parameters : List String} {receiver : Value} {args : List Value}
    {binding : String × Value} (mem : binding ∈ arguments parameters receiver args) :
    binding.2 ∈ receiver :: args := by
  rcases List.mem_cons.mp mem with rfl | mem
  · exact List.mem_cons_self
  · exact List.mem_cons_of_mem _ (List.of_mem_zip mem).2

theorem leads_start (sound : w.Sound allowed) (unit : BoundUnit) {loader : Loader}
    (global : w.heap.contains loader.global) {receiver : Value} {args : List Value}
    (closed : ∀ v ∈ receiver :: args, w.heap.closed v) :
    w.Leads allowed (start unit loader receiver args w).2 := by
  have made : w.Leads allowed (w.allocWith (·.newScope (some loader.global))).2 :=
    World.leads_newScope sound fun p hp => Option.some.inj hp ▸ global
  refine made.trans (World.leads_setAll made.sound ?_)
  intro binding mem
  exact made.heap.closed (closed binding.2 (mem_of_mem_arguments mem))

theorem live_start {unit : BoundUnit} (bound : w.Bound unit) (loader : Loader) {receiver : Value}
    (args : List Value) (closed : w.heap.closed receiver) :
    (start unit loader receiver args w).1.Live w where
  bound := bound
  receiver := closed
  operands := fun _ mem => nomatch mem

end Activation

/-! ## Machines -/

variable (allowed) in
/-- What a machine does next can be done in the session. -/
def Control.Live (w : World) : Control → Prop
  | .invoke _ _ _ => True
  | .code a => a.Live w
  | .native p => p.AsksOnly allowed
  | .deliver (.ok v) => w.heap.closed v
  | .deliver (.error _) => True

variable (allowed) in
/-- What waits can go on in the session. -/
def Waiting.Live (w : World) : Waiting → Prop
  | .code a => a.Live w
  | .native next => ∀ result, (next result).AsksOnly allowed

theorem Waiting.Live.mono {x : Waiting} (leads : w.Leads allowed w') (live : x.Live allowed w) :
    x.Live allowed w' := by
  cases x with
  | code a => exact Activation.Live.mono leads live
  | native next => exact live

namespace Machine

variable (allowed) in
/-- The session is sound, and what is done next and what waits works with what exists. -/
structure Sound (m : Machine) : Prop where
  world : m.world.Sound allowed
  control : m.control.Live allowed m.world
  waiting : ∀ x ∈ m.waiting, x.Live allowed m.world

theorem sound_running (sound : w.Sound allowed) {p : Native} (asks : p.AsksOnly allowed) :
    (running w p).Sound allowed where
  world := sound
  control := asks
  waiting := fun _ mem => nomatch mem

/-- What waited goes on waiting while the session is led on. -/
theorem sound_of_leads {waiting : List Waiting} {control : Control} (leads : w.Leads allowed w')
    (live : ∀ x ∈ waiting, x.Live allowed w) (next : control.Live allowed w') :
    (⟨control, waiting, w'⟩ : Machine).Sound allowed where
  world := leads.sound
  control := next
  waiting := fun x hx => (live x hx).mono leads

theorem leads_invoke (sound : w.Sound allowed) (callee : ObjectId) (receiver : Value)
    (args : List Value) :
    w.Leads allowed (invoke w callee receiver args).2 ∧
      (invoke w callee receiver args).1.Live allowed (invoke w callee receiver args).2 := by
  have started := started_invoke w callee receiver args
  generalize invoke w callee receiver args = result at started
  cases started with
  | refused i => exact ⟨.refl sound, trivial⟩
  | native entry handle =>
    have admits := sound.handles callee
    refine ⟨.refl sound, ?_⟩
    rcases handle with ⟨arity, fixed⟩ | variadic
    · rw [fixed] at admits
      exact admits (receiver :: args)
    · rw [variadic] at admits
      exact admits (receiver :: args)
  | code unit loader handle found closed =>
    have admits := sound.handles callee
    rw [handle] at admits
    have entered := World.leads_enter sound unit.loader loader
    have global := sound.globals loader (Array.mem_of_getElem? found)
    have closed' : ∀ v ∈ receiver :: args,
        (w.enter unit.loader loader).2.heap.closed v := fun v hv =>
      entered.heap.closed (closed v hv)
    have started := Activation.leads_start entered.sound unit (entered.heap.contains global) closed'
    have live := Activation.live_start (entered.bound unit admits) loader args
      (closed' receiver List.mem_cons_self)
    exact ⟨entered.trans started, live.mono started⟩

/-- Native code that is answered goes on as it may. -/
theorem live_resume {α : Type} {next : α → Native} {answer : Option α × World}
    (later : ∀ a, (next a).AsksOnly allowed) :
    (resume next answer).1.Live allowed (resume next answer).2 := by
  obtain ⟨_ | a, w⟩ := answer
  · exact trivial
  · exact later a

theorem snd_resume {α : Type} (next : α → Native) (answer : Option α × World) :
    (resume next answer).2 = answer.2 := by
  obtain ⟨_ | a, w⟩ := answer
  · rfl
  · rfl

theorem live_resultOf (w : World) (result : Except HostError Value) :
    (Control.deliver (resultOf w.heap result)).Live allowed w := by
  cases result with
  | error e => exact trivial
  | ok v =>
    rw [resultOf]
    by_cases closed : w.heap.closed v
    · rw [if_pos closed]
      exact closed
    · rw [if_neg closed]
      exact trivial

/-- A step leads a machine on to a sound one. -/
structure Leads (allowed : Action → Prop) (m m' : Machine) : Prop where
  world : m.world.Leads allowed m'.world
  sound : m'.Sound allowed

section

variable {waiting : List Waiting} (world : w.Sound allowed)
  (below : ∀ x ∈ waiting, x.Live allowed w)
include world below

theorem leads_step_code {a : Activation} (live : a.Live w) (reads : PropertyReads) :
    Leads allowed ⟨.code a, waiting, w⟩ (step reads ⟨.code a, waiting, w⟩) := by
  have leads := a.leads_step world live reads
  have keeps := a.keeps_step world live reads
  rw [step]
  generalize a.step reads w = result at leads keeps
  obtain ⟨effect, w'⟩ := result
  cases effect with
  | next b =>
    have goesOn : b.Live w' := (live.mono leads).of_continues (fun _ h => h) keeps
    exact ⟨leads, sound_of_leads leads below goesOn⟩
  | call b callee receiver args =>
    have goesOn : b.Live w' := (live.mono leads).of_continues (fun _ h => h) keeps.1
    refine ⟨leads, leads.sound, trivial, ?_⟩
    intro x hx
    rcases List.mem_cons.mp hx with rfl | hx
    · exact goesOn
    · exact (below x hx).mono leads
  | finish result =>
    have left := leads.trans (World.leads_leave leads.sound a.unit.loader)
    refine ⟨left, sound_of_leads left below ?_⟩
    cases result with
    | ok v => exact keeps
    | error i => exact trivial

theorem leads_step_native {p : Native} (asks : p.AsksOnly allowed) (reads : PropertyReads) :
    Leads allowed ⟨.native p, waiting, w⟩ (step reads ⟨.native p, waiting, w⟩) := by
  -- the code goes on with the answer to what it asked for
  have answered {α : Type} {next : α → Native} {answer : Option α × World}
      (leads : w.Leads allowed answer.2) (later : ∀ a, (next a).AsksOnly allowed) :
      Leads allowed ⟨.native p, waiting, w⟩
        ⟨(resume next answer).1, waiting, (resume next answer).2⟩ := by
    rw [← snd_resume next answer] at leads
    exact ⟨leads, sound_of_leads leads below (live_resume later)⟩
  cases asks with
  | done result =>
    exact ⟨.refl world, sound_of_leads (.refl world) below (live_resultOf w result)⟩
  | perform action next _ later => exact answered (World.leads_perform world action) later
  | call callee receiver args next later =>
    refine ⟨.refl world, world, trivial, ?_⟩
    intro x hx
    rcases List.mem_cons.mp hx with rfl | hx
    · exact later
    · exact below x hx
  | newFunction name spec next entries later =>
    exact answered (World.leads_newFunction world name entries) later
  | defineNative l id name spec next entries later =>
    exact answered (World.leads_define world l id name entries) later

theorem leads_step_deliver {result : Except Interrupt Value}
    (live : (Control.deliver result).Live allowed w) (reads : PropertyReads) :
    Leads allowed ⟨.deliver result, waiting, w⟩ (step reads ⟨.deliver result, waiting, w⟩) := by
  cases waiting with
  | nil => exact ⟨.refl world, world, live, below⟩
  | cons first waiting =>
    have rest : ∀ x ∈ waiting, x.Live allowed w := fun x hx => below x (List.mem_cons_of_mem _ hx)
    have next := below first List.mem_cons_self
    cases first with
    | code a =>
      rw [step]
      cases pushed : result.bind a.push with
      | error i =>
        have left := World.leads_leave world a.unit.loader
        exact ⟨left, sound_of_leads left rest trivial⟩
      | ok b =>
        cases result with
        | error i => cases pushed
        | ok v =>
          have goesOn : b.Live w := Activation.Live.of_push next live pushed
          exact ⟨.refl world, sound_of_leads (.refl world) rest goesOn⟩
    | native later =>
      cases result with
      | ok v => exact ⟨.refl world, sound_of_leads (.refl world) rest (next (.ok v))⟩
      | error i =>
        cases i with
        | error e => exact ⟨.refl world, sound_of_leads (.refl world) rest (next (.error e))⟩
        | crash => exact ⟨.refl world, sound_of_leads (.refl world) rest trivial⟩

end

variable {m : Machine}

theorem leads_step (sound : m.Sound allowed) (reads : PropertyReads) :
    Leads allowed m (m.step reads) := by
  obtain ⟨control, waiting, w⟩ := m
  obtain ⟨world, live, below⟩ := sound
  cases control with
  | invoke callee receiver args =>
    obtain ⟨leads, goesOn⟩ := leads_invoke world callee receiver args
    exact ⟨leads, sound_of_leads leads below goesOn⟩
  | code a => exact leads_step_code world below live reads
  | native p => exact leads_step_native world below live reads
  | deliver result => exact leads_step_deliver world below live reads

theorem leads_steps (sound : m.Sound allowed) (reads : PropertyReads) (n : Nat) :
    Leads allowed m (m.steps reads n) := by
  induction n generalizing m with
  | zero => exact ⟨.refl sound.world, sound⟩
  | succ n ih =>
    have first := leads_step sound reads
    have later := ih first.sound
    exact ⟨first.world.trans later.world, later.sound⟩

end Machine

end ProtoVM
