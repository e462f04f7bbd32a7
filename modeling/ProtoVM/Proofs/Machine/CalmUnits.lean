import Mathlib
import ProtoVM.Proofs.Machine.Alterations
import ProtoVM.Proofs.Machine.BoundArities
import ProtoVM.Proofs.Machine.EndingCalls
import ProtoVM.Proofs.Object.Inheritance

/-!
# Calm units

A unit is calm if it sets no keys but those of its own scope and makes no calls. A call into a
calm unit leaves everything as it was, whether it returns or fails: it binds names in a scope that
is new, and the objects that it meets were there before or are made by it (`Machine.Known`), so
that its result is one of these.
-/

namespace ProtoVM

/-! ## Heaps -/

namespace Heap

variable {good good' : Value → Prop} {h : Heap}

theorem Holds.imp (holds : h.Holds good) (more : ∀ v, good v → good' v) : h.Holds good' :=
  fun o object found v mem => more v (holds o object found v mem)

theorem Holds.alloc (holds : h.Holds good) (kind : ObjectKind) (proto : Option ObjectId)
    (hd : Handle) : (h.alloc kind proto hd).2.Holds good := by
  intro o object found v mem
  rw [get?_alloc] at found
  split at found
  · cases found
    cases mem
  · exact holds o object found v mem

theorem Holds.set (holds : h.Holds good) (o : ObjectId) (key : String) {value : Value}
    (new : good value) : (h.set o key value).Holds good := by
  intro p object found v mem
  rw [get?_set] at found
  obtain ⟨old, there, rfl⟩ := Option.map_eq_some_iff.mp found
  split at mem
  · rcases Store.mem_values_insert mem with rfl | mem
    · exact new
    · exact holds p old there v mem
  · exact holds p old there v mem

theorem Holds.setAll (holds : h.Holds good) (o : ObjectId) (entries : List (String × Value))
    (new : ∀ entry ∈ entries, good entry.2) : (h.setAll o entries).Holds good := by
  induction entries generalizing h with
  | nil => exact holds
  | cons entry entries ih =>
    simp only [List.forall_mem_cons] at new
    exact ih (holds.set o entry.1 new.1) new.2

end Heap

/-! ## Calls -/

/-- The unit sets no keys but those of the scope of its call, and it makes no calls. -/
def CodeUnit.Calm (u : CodeUnit) : Prop :=
  ∀ map, u.mapFrom 0 u.code = .ok map → ∀ offset ∈ map.starts,
    ∀ op ∈ (u.code[offset]?).bind Opcode.ofByte?, op ∉ [.setGlobal, .setProperty, .call]

/-- The instruction does not start another call. -/
def Effect.MakesNoCall : Effect → Prop
  | .call _ _ _ _ => False
  | _ => True

namespace Activation

variable {a b : Activation} {w : World} {good good' : Value → Prop} {op : Opcode}

theorem Stands.calm_opcode (stands : a.Stands) (calm : a.unit.unit.Calm)
    (here : a.opcode? = some op) : op ∉ [.setGlobal, .setProperty, .call] := by
  obtain ⟨map, walk, -, atEnd | start⟩ := stands
  · have outside : a.code[a.ip]? = none := List.getElem?_eq_none (Nat.le_of_eq atEnd.symm)
    simp [opcode?, outside] at here
  · exact calm map walk a.ip start op here

/-- What sets a key in a calm unit sets it in the scope of the call. -/
theorem sets?_of_calm (calm : ∀ op, a.opcode? = some op → op ∉ [.setGlobal, .setProperty, .call])
    {o : ObjectId} (sets : a.sets? w.heap = some o) : a.scope = o := by
  obtain ⟨op, here, target⟩ := Option.bind_eq_some_iff.mp sets
  have calm := calm op here
  cases op with
  | setName =>
    obtain ⟨-, -, scope⟩ := Option.map_eq_some_iff.mp target
    exact scope
  | setGlobal => simp at calm
  | setProperty => simp at calm
  | _ => cases target

/-- An instruction of a calm unit leaves all objects as they are, but for the scope of the call. -/
theorem get?_step_of_calm
    (calm : ∀ op, a.opcode? = some op → op ∉ [.setGlobal, .setProperty, .call]) {o : ObjectId}
    (present : w.heap.contains o) (other : a.scope ≠ o) (reads : PropertyReads) :
    (a.step reads w).2.heap.get? o = w.heap.get? o :=
  a.get?_step_of_sets? present reads fun sets => other (sets?_of_calm calm sets)

/-! ### No calls -/

theorem makesNoCall_pushNext (a : Activation) (op : Opcode) (v : Value) :
    Yields Effect.MakesNoCall (fun _ => True) (a.pushNext op v) :=
  Yields.bind (yields_trivial _) fun _ _ => trivial

theorem makesNoCall_settle {x : Except Interrupt Effect}
    (h : Yields Effect.MakesNoCall (fun _ => True) x) : (settle x).MakesNoCall := by
  cases x with
  | error i => exact trivial
  | ok effect => exact h

theorem makesNoCall_binary (a : Activation) (op : Opcode)
    (f : Value → Value → Except Fault Value) :
    Yields Effect.MakesNoCall (fun _ => True) (a.binary op f) := by
  refine Yields.bind (yields_trivial _) fun ⟨right, b⟩ _ => ?_
  refine Yields.bind (yields_trivial _) fun ⟨left, c⟩ _ => ?_
  dsimp only
  cases f left right with
  | ok v => exact makesNoCall_pushNext c op v
  | error e => exact trivial

theorem makesNoCall_execute (a : Activation) (reads : PropertyReads) (w : World)
    (other : op ≠ .call) : (a.execute reads w op).1.MakesNoCall := by
  have push {α : Type} (x : Except Interrupt α) (b : α → Activation) (v : α → Value) :
      Yields Effect.MakesNoCall (fun _ => True) (x.bind fun r => (b r).pushNext op (v r)) :=
    Yields.bind (yields_trivial x) fun r _ => makesNoCall_pushNext (b r) op (v r)
  cases op with
  | constant => exact makesNoCall_settle (push _ _ _)
  | undefined => exact makesNoCall_settle (makesNoCall_pushNext ..)
  | receiver => exact makesNoCall_settle (makesNoCall_pushNext ..)
  | getName => exact makesNoCall_settle (push _ _ _)
  | setName =>
    rw [execute]
    cases a.binding <;> exact trivial
  | setGlobal =>
    rw [execute]
    cases a.binding <;> exact trivial
  | getProperty =>
    rw [execute]
    cases a.readTarget w.heap with
    | error i => exact trivial
    | ok r => exact makesNoCall_settle (makesNoCall_pushNext ..)
  | setProperty =>
    rw [execute]
    cases a.writeTarget w.heap <;> exact trivial
  | newObject =>
    rw [execute]
    cases a.protoTarget w.heap with
    | error i => exact trivial
    | ok r => exact makesNoCall_settle (makesNoCall_pushNext ..)
  | function =>
    refine makesNoCall_settle (Yields.bind (yields_trivial _) fun id _ => ?_)
    cases (w.dictionary a.dictionary).resolve? id with
    | none => exact trivial
    | some o => exact makesNoCall_pushNext ..
  | call => exact absurd rfl other
  | pop => exact makesNoCall_settle (Yields.bind (yields_trivial _) fun _ _ => trivial)
  | dup => exact makesNoCall_settle (push _ _ _)
  | add | sub | mul | lessThan | equal => exact makesNoCall_settle (makesNoCall_binary ..)
  | not => exact makesNoCall_settle (push _ _ _)
  | jump => exact makesNoCall_settle (Yields.bind (yields_trivial _) fun _ _ => trivial)
  | jumpIfFalse =>
    refine makesNoCall_settle (Yields.bind (yields_trivial _) fun r _ => ?_)
    obtain ⟨condition, b⟩ := r
    dsimp only
    split
    · exact trivial
    · exact Yields.bind (yields_trivial _) fun _ _ => trivial
  | ret => exact makesNoCall_settle (Yields.bind (yields_trivial _) fun _ _ => trivial)

theorem makesNoCall_step (calm : ∀ op, a.opcode? = some op → op ≠ .call) (reads : PropertyReads)
    (w : World) : (a.step reads w).1.MakesNoCall :=
  a.step_cases reads w trivial (fun _ => trivial) fun op here =>
    makesNoCall_execute a reads w (calm op here)

/-! ### What a call meets -/

/-- All values that a call can come by are good. -/
structure Meets (good : Value → Prop) (a : Activation) (w : World) : Prop where
  plain : ∀ v : Value, v.asObject? = none → good v
  heap : w.heap.Holds good
  receiver : good a.receiver
  operands : ∀ v ∈ a.stack.values, good v
  function : ∀ id o, (w.dictionary a.dictionary).resolve? id = some o → good (.object o)

/-- A call that is entered meets what is there, and what it is given. -/
theorem meets_start {allowed : Action → Prop} (sound : w.Sound allowed) (unit : BoundUnit)
    (loader : Loader) {receiver : Value} {args : List Value}
    (closed : ∀ v ∈ receiver :: args, w.heap.closed v) (old : ∀ v, w.heap.closed v → good v) :
    (start unit loader receiver args w).1.Meets good (start unit loader receiver args w).2 where
  plain := fun v plain => old v (closed_of_plain plain)
  heap := by
    have before : w.heap.Holds good := Heap.Holds.imp sound.heap.values old
    have made : (w.heap.newScope (some loader.global)).2.Holds good := before.alloc _ _ _
    exact made.setAll _ (arguments unit.unit.parameters receiver args) fun binding mem =>
      old _ (closed _ (mem_of_mem_arguments mem))
  receiver := old _ (closed _ List.mem_cons_self)
  operands := fun _ mem => nomatch mem
  function := fun _ _ found => old _ (World.contains_of_resolve? sound found)

section

variable (meets : a.Meets good w) (more : ∀ v, good v → good' v)
include meets more

omit more in
/-- The same call goes on with good operands. -/
theorem Meets.of_continues (more : ∀ v, good v → good' v) {w' : World}
    (heap : w'.heap.Holds good') (same : w'.dictionaries = w.dictionaries)
    {place : Nat → Prop} (next : Continues good' place a b) : b.Meets good' w' := by
  have operands := next.operands
  obtain ⟨stack, ip, rfl⟩ := next.same
  refine ⟨fun v plain => more v (meets.plain v plain), heap, more _ meets.receiver, operands, ?_⟩
  intro id o found
  rw [World.dictionary, same] at found
  exact more _ (meets.function id o found)

theorem Meets.keeps (reads : PropertyReads)
    (fresh : a.opcode? = some .newObject → ∀ r, a.protoTarget w.heap = .ok r →
      good' (.object w.heap.size)) :
    (a.step reads w).1.Keeps good' (fun _ => True) (fun _ => True) a := by
  refine a.step_cases reads w (more _ (meets.plain _ rfl)) (fun _ => trivial) fun op here => ?_
  refine execute_keeps (decodes_trivial a op) ?_
  refine supplied_of_holds meets.heap meets.plain more meets.receiver meets.operands
    meets.function ?_
  rintro rfl
  exact fresh here

/-- What a calm unit stores are values that it has met. -/
theorem Meets.holds
    (calm : ∀ op, a.opcode? = some op → op ∉ [.setGlobal, .setProperty, .call])
    (reads : PropertyReads) : (a.step reads w).2.heap.Holds good' := by
  have still := meets.heap.imp more
  refine a.step_cases reads w still (fun _ => still) fun op here => ?_
  have calm := calm op here
  cases op with
  | setName =>
    have supplied : Supplied good' a reads w .setName :=
      supplied_of_holds meets.heap meets.plain more meets.receiver meets.operands meets.function
        nofun
    have taken := yields_binding (decodes_trivial a .setName) supplied rfl
    rw [execute]
    cases bound : a.binding with
    | error i => exact still
    | ok r =>
      rw [bound] at taken
      exact still.set a.scope r.1 taken.1
  | setGlobal => simp at calm
  | setProperty => simp at calm
  | getProperty =>
    rw [execute]
    cases a.readTarget w.heap with
    | error i => exact still
    | ok r =>
      dsimp only
      rw [heap_readProperty]
      exact still
  | newObject =>
    rw [execute]
    cases a.protoTarget w.heap with
    | error i => exact still
    | ok r => exact still.alloc _ _ _
  | _ => exact still

end

end Activation

/-! ## Machines -/

namespace Machine

variable {reads : PropertyReads} {m : Machine} {unit : BoundUnit} {k : Nat} {o : ObjectId}

/-- The next step is an instruction of the unit that makes the object. -/
def Creates (reads : PropertyReads) (m : Machine) (unit : BoundUnit) (o : ObjectId) : Prop :=
  ∃ a, m.control = .code a ∧ a.unit = unit ∧ a.opcode? = some .newObject ∧
    o = m.world.heap.size ∧ (m.step reads).world.heap.contains o

/-- The object existed at the start of a run, or an instruction of the unit has made it since. -/
def Known (reads : PropertyReads) (m : Machine) (unit : BoundUnit) (k : Nat) (o : ObjectId) :
    Prop :=
  m.world.heap.contains o ∨ ∃ j < k, (m.steps reads j).Creates reads unit o

/-- If the value is an object, it is a known one. -/
def Knows (reads : PropertyReads) (m : Machine) (unit : BoundUnit) (k : Nat) (v : Value) : Prop :=
  ∀ o, v.asObject? = some o → m.Known reads unit k o

theorem Knows.succ {v : Value} (knows : m.Knows reads unit k v) : m.Knows reads unit (k + 1) v := by
  intro o object
  rcases knows o object with old | ⟨j, before, created⟩
  · exact .inl old
  · exact .inr ⟨j, by omega, created⟩

/-- What holds while a call into the unit goes on that began with the first step, and when it comes
to its result. -/
structure Carries (reads : PropertyReads) (m : Machine) (unit : BoundUnit) (k : Nat) : Prop where
  untouched : ∀ o, m.world.heap.contains o →
    (m.steps reads k).world.heap.get? o = m.world.heap.get? o
  dictionaries : (m.steps reads k).world.dictionaries = m.world.dictionaries
  waiting : (m.steps reads k).waiting = m.waiting
  control : match (m.steps reads k).control with
    | .code a => a.unit = unit ∧ a.Stands ∧ ¬ m.world.heap.contains a.scope ∧
        a.Meets (m.Knows reads unit k) (m.steps reads k).world
    | .deliver (.ok v) => m.Knows reads unit k v
    | .deliver (.error _) => True
    | _ => False

theorem knows_of_closed {v : Value} (closed : m.world.heap.closed v) :
    m.Knows reads unit k v := by
  intro o object
  rw [Heap.closed, object] at closed
  exact .inl closed

/-- A call that is entered has a new scope, and knows what it is given. -/
theorem carries_start {allowed : Action → Prop} (sound : m.Sound allowed)
    (ready : m.world.Calls (Handle.Ready m.world)) {callee : ObjectId} {receiver : Value}
    {args : List Value} (called : m.control = .invoke callee receiver args)
    (handle : m.world.heap.handle callee = .interpreted unit) (reads : PropertyReads) :
    m.Carries reads unit 1 := by
  obtain ⟨control, waiting, w⟩ := m
  obtain rfl : control = .invoke callee receiver args := called
  have started := started_invoke w callee receiver args
  have registry := (registry_invoke w callee receiver args).1
  have stepped : steps reads 1 ⟨.invoke callee receiver args, waiting, w⟩ =
    ⟨(invoke w callee receiver args).1, waiting, (invoke w callee receiver args).2⟩ := rfl
  generalize invoke w callee receiver args = result at started registry stepped
  cases started with
  | refused i => constructor <;> simp [stepped]
  | native entry other =>
    rcases other with ⟨arity, other⟩ | other <;> simp [handle] at other
  | code unit' loader other found closed arity room =>
    obtain rfl : unit' = unit := Handle.interpreted.inj (other.symm.trans handle)
    have checked := ready callee
    rw [handle] at checked
    have entered := World.leads_enter sound.world unit'.loader loader
    have same := World.heap_enter w unit'.loader loader
    generalize (w.enter unit'.loader loader).2 = w₁ at registry stepped entered same
    have old (v : Value) (present : w₁.heap.closed v) :
        Knows reads ⟨.invoke callee receiver args, waiting, w⟩ unit' 1 v :=
      knows_of_closed (same ▸ present)
    have meets := Activation.meets_start entered.sound unit' loader (same ▸ closed) old
    constructor
    case control =>
      rw [stepped]
      refine ⟨rfl, Activation.stands_start checked.1 loader receiver args w₁, ?_, meets⟩
      show ¬ w.heap.contains w₁.heap.size
      rw [same]
      exact w.heap.not_contains_size
    case untouched =>
      intro o present
      rw [stepped, ← same]
      exact Activation.get?_start unit' loader receiver args (same ▸ present)
    case dictionaries =>
      rw [stepped]
      exact registry
    case waiting => rw [stepped]

/-- The object that an instruction makes is known from then on. -/
theorem knows_of_created {a : Activation} (at_ : (m.steps reads k).control = .code a)
    (same : a.unit = unit) (here : a.opcode? = some .newObject)
    {r : Option ObjectId × Activation}
    (found : a.protoTarget (m.steps reads k).world.heap = .ok r) :
    m.Knows reads unit (k + 1) (.object (m.steps reads k).world.heap.size) := by
  rintro o ⟨⟩
  refine .inr ⟨k, Nat.lt_succ_self k, a, at_, same, here, rfl, ?_⟩
  generalize m.steps reads k = mk at at_ found
  obtain ⟨control, waiting, w⟩ := mk
  obtain rfl : control = .code a := at_
  rw [heap_step_code, Activation.step_eq_execute here, Activation.execute, found]
  exact Heap.contains_alloc_self

/-- What an instruction of a calm unit does not change, and what it goes on with. -/
theorem carries_succ {allowed : Action → Prop} (sound : m.Sound allowed) (calm : unit.unit.Calm)
    (carries : m.Carries reads unit k) {a : Activation}
    (at_ : (m.steps reads k).control = .code a) : m.Carries reads unit (k + 1) := by
  obtain ⟨untouched, dictionaries, waits, control⟩ := carries
  rw [at_] at control
  obtain ⟨same, stands, scope, meets⟩ := control
  have there (o : ObjectId) (old : m.world.heap.contains o) :
      (m.steps reads k).world.heap.contains o := (leads_steps sound reads k).world.heap.contains old
  have fresh (here : a.opcode? = some .newObject) (r : Option ObjectId × Activation)
      (found : a.protoTarget (m.steps reads k).world.heap = .ok r) :
      m.Knows reads unit (k + 1) (.object (m.steps reads k).world.heap.size) :=
    knows_of_created at_ same here found
  have stepped := steps_succ_eq reads k m
  generalize m.steps reads k = mk at *
  obtain ⟨control', waiting, w⟩ := mk
  obtain rfl : control' = .code a := at_
  have calmly (op : Opcode) (here : a.opcode? = some op) :
      op ∉ [.setGlobal, .setProperty, .call] := stands.calm_opcode (same ▸ calm) here
  have spared (o : ObjectId) (old : m.world.heap.contains o) :
      (a.step reads w).2.heap.get? o = m.world.heap.get? o := by
    have other : a.scope ≠ o := by
      rintro rfl
      exact scope old
    rw [Activation.get?_step_of_calm calmly (there o old) other reads, untouched o old]
  have registry := (a.registry_step reads w).2
  have keeps := meets.keeps (fun v => Knows.succ) reads fresh
  have holds := meets.holds (fun v => Knows.succ) calmly reads
  have noCall := Activation.makesNoCall_step
    (fun op here => by rintro rfl; simpa using calmly .call here) reads w
  obtain ⟨next, -, -⟩ := stands.step reads w
  rw [step] at stepped
  generalize a.step reads w = result at *
  obtain ⟨effect, w'⟩ := result
  cases effect with
  | call b callee receiver args => exact noCall.elim
  | next b =>
    have goesOn := meets.of_continues (fun v => Knows.succ) holds registry keeps
    obtain ⟨stack, ip, rfl⟩ := keeps.same
    refine ⟨?_, ?_, ?_, ?_⟩ <;> rw [stepped]
    exacts [spared, registry.trans dictionaries, waits, ⟨same, next _ rfl, scope, goesOn⟩]
  | finish result =>
    refine ⟨?_, ?_, ?_, ?_⟩ <;> rw [stepped]
    · exact spared
    · exact registry.trans dictionaries
    · exact waits
    · cases result with
      | ok v => exact keeps
      | error i => exact trivial

/-- A call into a calm unit goes on as it has begun until it comes to its result. -/
theorem carries_steps {allowed : Action → Prop} (sound : m.Sound allowed)
    (ready : m.world.Calls (Handle.Ready m.world)) {callee : ObjectId} {receiver : Value}
    {args : List Value} (called : m.control = .invoke callee receiver args)
    (handle : m.world.heap.handle callee = .interpreted unit) (calm : unit.unit.Calm)
    (running : ∀ j < k + 1, ∀ result, (m.steps reads j).control ≠ .deliver result) :
    m.Carries reads unit (k + 1) := by
  induction k with
  | zero => exact carries_start sound ready called handle reads
  | succ k ih =>
    have before := ih fun j earlier => running j (by omega)
    have control := before.control
    cases at_ : (m.steps reads (k + 1)).control with
    | code a => exact carries_succ sound calm before at_
    | deliver result => exact absurd at_ (running (k + 1) (by omega) result)
    | invoke callee receiver args =>
      rw [at_] at control
      exact control.elim
    | native p =>
      rw [at_] at control
      exact control.elim

/-- What a call into a unit that began with the first step of a run has not changed, and what it
gives. -/
structure LeavesAlone (reads : PropertyReads) (m : Machine) (unit : BoundUnit) (k : Nat) :
    Prop where
  objects : ∀ o, m.world.heap.contains o →
    m.world.heap.Unchanged (m.steps reads k).world.heap o
  dictionaries : (m.steps reads k).world.dictionaries = m.world.dictionaries
  waiting : (m.steps reads k).waiting = m.waiting
  result : ∀ o, (m.steps reads k).control = .deliver (.ok (.object o)) → m.Known reads unit k o

theorem Carries.leavesAlone {allowed : Action → Prop} (sound : m.Sound allowed)
    (carries : m.Carries reads unit k) : m.LeavesAlone reads unit k where
  objects := fun o present => sound.world.heap.unchanged
    (leads_steps sound reads k).world.heap.layouts (carries.untouched o present)
  dictionaries := carries.dictionaries
  waiting := carries.waiting
  result := by
    intro o delivered
    have control := carries.control
    rw [delivered] at control
    exact control o rfl

/-- The units that can be called at any moment of a run have passed the code check. -/
theorem ready_steps (ready : m.world.Calls (Handle.Ready m.world)) (reads : PropertyReads)
    (n : Nat) :
    (m.steps reads n).world.Calls (Handle.Ready (m.steps reads n).world) := by
  induction n generalizing m with
  | zero => exact ready
  | succ n ih => exact ih (ready_step ready reads)

end Machine

/-- Native code can do anything in any order. A call into a calm unit that is made at any moment
leaves all objects and dictionaries as they are, at every moment up to its result, and if the result
is an object, the unit has made it or it was there before. -/
theorem leavesAlone_of_calm (p : Native) (reads : PropertyReads) (n : Nat) (m : Machine)
    (reached : (Machine.running .empty p).steps reads n = m) {callee : ObjectId} {receiver : Value}
    {args : List Value} (called : m.control = .invoke callee receiver args) {unit : BoundUnit}
    (handle : m.world.heap.handle callee = .interpreted unit) (calm : unit.unit.Calm) (k : Nat)
    (running : ∀ j < k, ∀ result, (m.steps reads j).control ≠ .deliver result) :
    m.LeavesAlone reads unit k := by
  have start := Machine.furnished_running p
  have sound := (Machine.leads_steps start.sound reads n).sound
  have ready := Machine.ready_steps start.handles reads n
  rw [reached] at sound ready
  cases k with
  | zero =>
    refine ⟨fun o _ => sound.world.heap.unchanged (.refl _) rfl, rfl, rfl, fun o delivered => ?_⟩
    have invoked := called.symm.trans delivered
    cases invoked
  | succ k => exact (Machine.carries_steps sound ready called handle calm running).leavesAlone sound

theorem Handle.unit?_eq_some_iff {handle : Handle} {unit : BoundUnit} :
    handle.unit? = some unit ↔ handle = .interpreted unit := by
  cases handle <;> simp [unit?]

/-- The result that is handed over. -/
def Control.delivered? : Control → Option (Except Interrupt Value)
  | .deliver result => some result
  | _ => none

theorem Control.delivered?_eq_some_iff {control : Control} {result : Except Interrupt Value} :
    control.delivered? = some result ↔ control = .deliver result := by
  cases control <;> simp [delivered?]

/-- A unit that makes an object, binds it to a name and returns it. -/
def makingUnit : CodeUnit := ⟨"f", [], [.str "x"], [1, 8, 12, 4, 0, 0, 21]⟩

/-- A payload of the unit, with a digest that nobody looks at. -/
def makingPayload : List UInt8 :=
  Payload.magic ++ [1, 0] ++ [1, 0, 0, 0, 102] ++ [0, 0, 0, 0] ++
    [1, 0, 0, 0, 2, 1, 0, 0, 0, 120] ++ [7, 0, 0, 0, 1, 8, 12, 4, 0, 0, 21] ++
    List.replicate 32 0

/-- The unit is loaded and called. -/
def making : Native :=
  .perform .newDictionary fun d =>
  .perform (.newObject none) fun o =>
  .perform (.newLoader { verifyChecksum := false } d o) fun l =>
  .perform (.load l "f" makingPayload) fun _ =>
    .call 1 .undefined [] fun _ => .done (.ok .undefined)

/-- The moment at which it is called. -/
def madeCall : Machine := (Machine.running .empty making).steps .cached 5

/-- The object that the unit returns was not there when it was called. -/
theorem leavesAlone_of_calm_making :
    madeCall.LeavesAlone .cached ⟨0, "f", makingUnit, 0⟩ 6 ∧
      (madeCall.steps .cached 6).control = .deliver (.ok (.object 3)) ∧
      ¬ madeCall.world.heap.contains 3 := by
  have walk : makingUnit.mapFrom 0 makingUnit.code = .ok ⟨[0, 1, 2, 3, 6], []⟩ := by cbv
  have calm : makingUnit.Calm := by
    intro map found
    obtain rfl := Except.ok.inj (found.symm.trans walk)
    decide
  have called : madeCall.control = .invoke 1 .undefined [] :=
    Control.called?_eq_some_iff.mp (by decide +kernel)
  have handle : madeCall.world.heap.handle 1 = .interpreted ⟨0, "f", makingUnit, 0⟩ :=
    Handle.unit?_eq_some_iff.mp (by decide +kernel)
  have running : ∀ j < 6, ∀ result, (madeCall.steps .cached j).control ≠ .deliver result := by
    have none : ∀ j < 6, (madeCall.steps .cached j).control.delivered? = none := by decide +kernel
    intro j before result delivered
    have found := Control.delivered?_eq_some_iff.mpr delivered
    rw [none j before] at found
    cases found
  refine ⟨?_, Control.delivered?_eq_some_iff.mp (by decide +kernel), by decide +kernel⟩
  exact leavesAlone_of_calm making .cached 5 madeCall rfl called handle calm 6 running

end ProtoVM
