import Mathlib
import ProtoVM.Proofs.Machine.PassedErrors

/-!
# Calls that end

Units whose jumps all lead forward, and native functions that call back with fewer arguments only,
can call themselves and each other without end in sight, and still every call ends. Three things get
less, one inside the other: the calls that the loaders still let in, the arguments from one native
function to the next, and the code that is left inside a call into a unit.
-/

namespace ProtoVM

/-- Every jump of the code leads further on. -/
def CodeUnit.JumpsForward (u : CodeUnit) : Prop :=
  ∀ map, u.mapFrom 0 u.code = .ok map → ∀ jump ∈ map.jumps, jump.offset < jump.target

/-- If the handle leads to a unit, all its jumps lead forward. -/
def Handle.JumpsForward (handle : Handle) : Prop :=
  ∀ unit, handle.unit? = some unit → unit.unit.JumpsForward

def Action.MakesLoader : Action → Prop
  | .newLoader _ _ _ => True
  | _ => False

/-- Native code that was entered with a number of arguments makes no loader and calls with fewer
arguments only. Host code that no call has entered, which has no such number, makes loaders and
calls as it likes. The native functions that the code makes keep to the same. -/
inductive Native.Brief : Option Nat → Native → Prop
  | done {count : Option Nat} (result : Except HostError Value) : Brief count (.done result)
  | perform {count : Option Nat} (action : Action) (next : action.Answer → Native)
      (noLoader : count ≠ none → ¬ action.MakesLoader)
      (later : ∀ answer, Brief count (next answer)) : Brief count (.perform action next)
  | call {count : Option Nat} (callee : ObjectId) (receiver : Value) (args : List Value)
      (next : Except RuntimeError Value → Native) (fewer : ∀ n ∈ count, args.length < n)
      (later : ∀ result, Brief count (next result)) : Brief count (.call callee receiver args next)
  | newFunction {count : Option Nat} (name : String) (spec : HandleSpec NativeEntry)
      (next : ObjectId → Native)
      (entries : ∀ entry, spec.entry? = some entry → ∀ receiver args,
        Brief (some args.length) (entry (receiver :: args)))
      (later : ∀ o, Brief count (next o)) : Brief count (.newFunction name spec next)
  | defineNative {count : Option Nat} (l : LoaderId) (id name : String)
      (spec : HandleSpec NativeEntry) (next : Except LoadError ObjectId → Native)
      (entries : ∀ entry, spec.entry? = some entry → ∀ receiver args,
        Brief (some args.length) (entry (receiver :: args)))
      (later : ∀ answer, Brief count (next answer)) :
      Brief count (.defineNative l id name spec next)

/-- The handle leads to native code that calls back with fewer arguments only, or to checked
code. -/
def Handle.Brief : Handle → Prop
  | .inert => True
  | .fixed _ entry => ∀ receiver args, (entry (receiver :: args)).Brief (some args.length)
  | .variadic entry => ∀ receiver args, (entry (receiver :: args)).Brief (some args.length)
  | .interpreted unit => unit.unit.check = .ok ()

theorem Handle.Brief.native {handle : Handle} {entry : NativeEntry} (brief : handle.Brief)
    (leads : (∃ arity, handle = .fixed arity entry) ∨ handle = .variadic entry) (receiver : Value)
    (args : List Value) : (entry (receiver :: args)).Brief (some args.length) := by
  rcases leads with ⟨arity, rfl⟩ | rfl
  · exact brief receiver args
  · exact brief receiver args

/-! ## The calls that loaders still let in -/

/-- The calls that the loader still lets in. -/
def Loader.room (loader : Loader) : Nat := loader.config.maxCallDepth.toNat - loader.depth

namespace World

/-- The loaders of a session without what they have bound. -/
def depths (w : World) : Array Loader := w.loaders.map fun loader => { loader with loaded := [] }

/-- The calls that the loaders of a session still let in, taken together. -/
def room (w : World) : Nat :=
  ∑ l ∈ Finset.range w.depths.size, ((w.depths[l]?).map Loader.room).getD 0

variable {w w' : World}

theorem depths_of_loaders (same : w'.loaders = w.loaders) : w'.depths = w.depths := by
  rw [depths, depths, same]

theorem depths_mapLoader (w : World) (l : LoaderId) {f : Loader → Loader}
    (commutes : ∀ loader : Loader,
      { f loader with loaded := [] } = f { loader with loaded := [] }) :
    (w.mapLoader l f).depths = w.depths.modify l f := by
  apply Array.ext_getElem?
  intro other
  rw [depths, depths, Array.getElem?_map, loaders_mapLoader, Array.getElem?_modify,
    Array.getElem?_map]
  by_cases same : l = other
  · rw [if_pos same, if_pos same]
    cases w.loaders[other]? with
    | none => rfl
    | some loader => exact congrArg some (commutes loader)
  · rw [if_neg same, if_neg same]

theorem depths_leave (w : World) (l : LoaderId) : (w.leave l).depths =
    w.depths.modify l fun loader => { loader with depth := loader.depth - 1 } :=
  w.depths_mapLoader l fun _ => rfl

/-- What was entered can be left again. -/
theorem depths_leave_of_enters {l : LoaderId}
    (entered : w'.depths = w.depths.modify l fun loader =>
      { loader with depth := loader.depth + 1 }) : (w'.leave l).depths = w.depths := by
  rw [depths_leave, entered]
  apply Array.ext_getElem?
  intro other
  rw [Array.getElem?_modify, Array.getElem?_modify]
  by_cases same : l = other
  · rw [if_pos same, if_pos same]
    cases w.depths[other]? <;> rfl
  · rw [if_neg same, if_neg same]

/-- Whatever else is done to the loaders, only a new one changes the calls that are counted. -/
theorem depths_of_keeps (keeps : w.KeepsLoaders w') (size : w'.loaders.size = w.loaders.size) :
    w'.depths = w.depths := by
  apply Array.ext_getElem?
  intro l
  rw [depths, depths, Array.getElem?_map, Array.getElem?_map]
  cases found : w.loaders[l]? with
  | none =>
    have outside : w.loaders.size ≤ l := Array.getElem?_eq_none_iff.mp found
    rw [Array.getElem?_eq_none (size ▸ outside)]
  | some loader =>
    obtain ⟨loaded, kept⟩ := keeps.old l loader found
    rw [kept]
    rfl

theorem room_of_depths (same : w'.depths = w.depths) : w'.room = w.room := by
  rw [room, room, same]

/-- A call that is let in takes some of the room. -/
theorem room_of_enters {l : LoaderId} {loader : Loader} (found : w.loaders[l]? = some loader)
    (below : loader.depth < loader.config.maxCallDepth.toNat)
    (entered : w'.depths = w.depths.modify l fun loader =>
      { loader with depth := loader.depth + 1 }) : w'.room < w.room := by
  have here : w.depths[l]? = some { loader with loaded := [] } := by
    rw [depths, Array.getElem?_map, found]
    rfl
  have inside : l < w.depths.size := (Array.getElem?_eq_some_iff.mp here).1
  have each (other : LoaderId) : ((w'.depths[other]?).map Loader.room).getD 0 =
      ((w.depths[other]?).map Loader.room).getD 0 - if l = other then 1 else 0 := by
    rw [entered, Array.getElem?_modify]
    by_cases same : l = other
    · rw [if_pos same, if_pos same]
      cases w.depths[other]? <;> rfl
    · rw [if_neg same, if_neg same, Nat.sub_zero]
  rw [room, room, entered, Array.size_modify, ← entered]
  refine Finset.sum_lt_sum (fun other _ => ?_) ⟨l, Finset.mem_range.mpr inside, ?_⟩
  · rw [each]
    exact Nat.sub_le _ _
  · have some_room : 0 < Loader.room { loader with loaded := [] } := Nat.sub_pos_of_lt below
    rw [each, here, if_pos rfl]
    exact Nat.sub_lt some_room Nat.one_pos

/-! ## Operations that make no loader -/

theorem size_load (w : World) (l : LoaderId) (loader : Loader) (id : String)
    (payload : List UInt8) : (w.load l loader id payload).2.loaders.size = w.loaders.size := by
  rw [load]
  cases w.accept loader id payload with
  | error e => rfl
  | ok unit => exact Array.size_modify

theorem size_defineNative (w : World) (l : LoaderId) (loader : Loader) (id name : String)
    (handle : Handle) :
    (w.defineNative l loader id name handle).2.loaders.size = w.loaders.size := by
  rw [defineNative]
  cases w.acceptNative loader id handle with
  | error e => rfl
  | ok _ => exact Array.size_modify

theorem depths_perform (w : World) (a : Action) (noLoader : ¬ a.MakesLoader) :
    (w.perform a).2.depths = w.depths := by
  refine depths_of_keeps (w.keepsLoaders_perform a) ?_
  rw [perform]
  split
  · cases a with
    | newLoader config d global => exact absurd trivial noLoader
    | map o f =>
      rw [act]
      split <;> rfl
    | cachedLookup c o =>
      rw [act]
      cases w.caches[c]? <;> rfl
    | declare d id name parameters function =>
      rw [act]
      cases w.dictionaries[d]? <;> rfl
    | load l id payload =>
      rw [act]
      cases w.loaders[l]? with
      | none => rfl
      | some loader => exact w.size_load l loader id payload
    | unitCachedLookup o offset receiver => rw [act, loaders_useUnitCache]
    | resetUnitCache o offset => rw [act, loaders_useUnitCache]
    | _ => rfl
  · rfl

theorem depths_newFunction (w : World) (name : String) (spec : HandleSpec NativeEntry) :
    (w.newFunction name spec).2.depths = w.depths := by
  rw [newFunction]
  cases w.handleOf spec <;> rfl

theorem depths_define (w : World) (l : LoaderId) (id name : String)
    (spec : HandleSpec NativeEntry) : (w.define l id name spec).2.depths = w.depths := by
  refine depths_of_keeps (w.keepsLoaders_define l id name spec) ?_
  rw [define]
  cases w.loaders[l]? with
  | none => rfl
  | some loader =>
    cases w.handleOf spec with
    | none => rfl
    | some handle => exact w.size_defineNative l loader id name handle

end World

/-! ## Code that goes forward -/

namespace Activation

variable {a b : Activation} {reads : PropertyReads} {w : World}

theorem Stands.ip_le (stands : a.Stands) : a.ip ≤ a.code.length := by
  obtain ⟨map, walk, -, atEnd | start⟩ := stands
  · exact Nat.le_of_eq atEnd
  · obtain ⟨op, operand, h⟩ := CodeUnit.instruction_of_mem_starts a.code rfl walk a.ip start
    obtain ⟨byte, found, -⟩ := Option.bind_eq_some_iff.mp h.opcode
    exact Nat.le_of_lt (List.getElem?_eq_some_iff.mp found).1

/-- A jump that leads forward, or the next instruction, is further on. -/
theorem decodes_forward {map : CodeMap} {op : Opcode} {operand : Nat}
    (h : a.unit.unit.Instruction map a.ip op operand)
    (forward : ∀ jump ∈ map.jumps, jump.offset < jump.target) :
    Decodes (a.ip < ·) (fun _ => True) a op where
  next := Nat.lt_add_of_pos_right op.length_pos
  constant := fun _ => yields_constant a
  name := fun _ => yields_trivial _
  count := fun _ => yields_trivial _
  target := by
    intro isJump
    have width : op.length - 1 = 2 := by
      cases op with
      | jump | jumpIfFalse => rfl
      | _ => cases isJump
    rw [operand_of_instruction h width]
    exact forward _ (h.jump isJump)
  dynamic := fun _ _ => trivial

/-- Every instruction leads further on in the same unit. -/
theorem Stands.forward (stands : a.Stands) (jumps : a.unit.unit.JumpsForward)
    (reads : PropertyReads) (w : World) :
    (∀ b, (a.step reads w).1 = .next b → a.ip < b.ip ∧ b.unit = a.unit) ∧
      ∀ b callee receiver args, (a.step reads w).1 = .call b callee receiver args →
        a.ip < b.ip ∧ b.unit = a.unit := by
  obtain ⟨map, walk, -, place⟩ := stands
  have keeps : (a.step reads w).1.Keeps (fun _ => True) (a.ip < ·) (fun _ => True) a := by
    rcases place with atEnd | start
    · have outside : a.code[a.ip]? = none := List.getElem?_eq_none (Nat.le_of_eq atEnd.symm)
      rw [Activation.step, outside]
      exact trivial
    · obtain ⟨op, operand, h⟩ := CodeUnit.instruction_of_mem_starts a.code rfl walk a.ip start
      rw [step_eq_execute h.opcode]
      exact execute_keeps (decodes_forward h (jumps map walk)) (supplied_trivial a reads w op)
  constructor
  · intro b effect
    rw [effect] at keeps
    exact ⟨keeps.place, unit_eq_of_continues keeps⟩
  · intro b callee receiver args effect
    rw [effect] at keeps
    exact ⟨keeps.1.place, unit_eq_of_continues keeps.1⟩

end Activation

/-! ## Results -/

namespace Machine

/-- The jumps of all units that are loaded lead forward, now and at every later moment. -/
def LoadsForward (reads : PropertyReads) (m : Machine) : Prop :=
  ∀ n, (m.steps reads n).world.Calls Handle.JumpsForward

/-- Whatever waits for it, what is done next comes to a result and leaves the calls that are counted
as given, if only units whose jumps lead forward are loaded. -/
def Ends (reads : PropertyReads) (control : Control) (w : World) (depths : Array Loader) : Prop :=
  ∀ waiting, LoadsForward reads ⟨control, waiting, w⟩ →
    ∃ (n : Nat) (result : Except Interrupt Value) (w' : World),
      steps reads n ⟨control, waiting, w⟩ = ⟨.deliver result, waiting, w'⟩ ∧
        w'.Calls Handle.Brief ∧ w'.depths = depths

variable {reads : PropertyReads} {w w' : World} {control next : Control} {depths : Array Loader}
  {m m' : Machine}

theorem LoadsForward.steps_eq (forward : m.LoadsForward reads) (n : Nat)
    (steps_eq : m.steps reads n = m') : m'.LoadsForward reads := by
  intro k
  rw [← steps_eq, ← steps_add]
  exact forward (n + k)

theorem ends_deliver (calls : w.Calls Handle.Brief) (result : Except Interrupt Value) :
    Ends reads (.deliver result) w w.depths := fun _ _ => ⟨0, result, w, rfl, calls, rfl⟩

theorem Ends.of_step (ends : Ends reads next w' depths)
    (step_eq : ∀ waiting, step reads ⟨control, waiting, w⟩ = ⟨next, waiting, w'⟩) :
    Ends reads control w depths := by
  intro waiting forward
  obtain ⟨n, result, w'', steps_eq, later⟩ := ends waiting (forward.steps_eq 1 (step_eq waiting))
  refine ⟨n + 1, result, w'', ?_, later⟩
  rw [steps, step_eq, steps_eq]

/-- What makes a call ends when the call does and when what goes on with its result does. -/
theorem Ends.of_call {callee : ObjectId} {receiver : Value} {args : List Value} {x : Waiting}
    (ends : Ends reads (.invoke callee receiver args) w' w'.depths)
    (step_eq : ∀ waiting, step reads ⟨control, waiting, w⟩ =
      ⟨.invoke callee receiver args, x :: waiting, w'⟩)
    (goesOn : ∀ result (w₁ : World), w₁.Calls Handle.Brief → w₁.depths = w'.depths →
      ∃ next w₂, (∀ waiting, step reads ⟨.deliver result, x :: waiting, w₁⟩ = ⟨next, waiting, w₂⟩) ∧
        Ends reads next w₂ depths) : Ends reads control w depths := by
  intro waiting forward
  have forward₁ := forward.steps_eq 1 (step_eq waiting)
  obtain ⟨k, result, w₁, called, calls, same⟩ := ends (x :: waiting) forward₁
  obtain ⟨next, w₂, resumed, goesOn⟩ := goesOn result w₁ calls same
  have forward₂ := (forward₁.steps_eq k called).steps_eq 1 (resumed waiting)
  obtain ⟨n, final, w₃, finished, later⟩ := goesOn waiting forward₂
  refine ⟨1 + k + 1 + n, final, w₃, ?_, later⟩
  rw [steps_add, steps_succ_eq, steps_add, steps, steps, step_eq, called, resumed, finished]

/-! ## What is brief stays brief -/

/-- The native code that is run next is brief. -/
def Control.Brief : Control → Prop
  | .native p => ∃ count, p.Brief count
  | _ => True

theorem brief_world_step {m : Machine} (calls : m.world.Calls Handle.Brief)
    (brief : Control.Brief m.control) (reads : PropertyReads) :
    (m.step reads).world.Calls Handle.Brief := by
  refine calls_step calls ?_
  -- a function that is made is brief, since the code that makes it is
  have own {spec : HandleSpec NativeEntry} {handle : Handle}
      (entries : ∀ entry, spec.entry? = some entry → ∀ receiver args,
        (entry (receiver :: args)).Brief (some args.length))
      (found : m.world.handleOf spec = some handle) : handle.Brief :=
    calls.of_handleOf found trivial fun entry is => ⟨fun _ => entries entry is, entries entry is⟩
  rintro handle (⟨l, id, payload, next, at_, loader, found, unit, accepted⟩ |
    ⟨name, spec, next, at_, _, found⟩ | ⟨l, id, name, spec, next, at_, _, found⟩)
  · rw [at_] at brief
    obtain ⟨count, brief⟩ := brief
    have decoded := World.decode_of_accept accepted
    cases brief with
    | perform => exact (Payload.decode_eq_ok_iff_readUnit.mp decoded).1
  · rw [at_] at brief
    obtain ⟨count, brief⟩ := brief
    cases brief with
    | newFunction _ _ _ entries => exact own entries found
  · rw [at_] at brief
    obtain ⟨count, brief⟩ := brief
    cases brief with
    | defineNative _ _ _ _ _ entries => exact own entries found

/-! ## Every call ends -/

/-- A call into a unit ends when the calls that are made from it do: with every instruction, less of
the code is left. -/
theorem ends_code {room : Nat}
    (calls_end : ∀ (w : World) callee receiver args, w.room = room → w.Calls Handle.Brief →
      Ends reads (.invoke callee receiver args) w w.depths)
    {a : Activation} (stands : a.Stands) (jumps : a.unit.unit.JumpsForward) (w : World)
    (hw : w.room = room) (calls : w.Calls Handle.Brief) :
    Ends reads (.code a) w (w.leave a.unit.loader).depths := by
  induction left : a.code.length - a.ip using Nat.strongRecOn generalizing a w with
  | ind left ih =>
    have loaders := (a.registry_step reads w).1
    have handles := fun o => a.handle_step reads w o
    obtain ⟨next, call, -⟩ := stands.step reads w
    obtain ⟨nextForward, callForward⟩ := stands.forward jumps reads w
    cases stepped : a.step reads w with
    | mk effect w₁ =>
      rw [stepped] at loaders handles next call nextForward callForward
      have calls₁ : w₁.Calls Handle.Brief := calls.of_handle handles
      have depths₁ : w₁.depths = w.depths := World.depths_of_loaders loaders
      have room₁ : w₁.room = room := (World.room_of_depths depths₁).trans hw
      -- the same call goes on further on in the code
      have goesOn {b : Activation} (standsB : b.Stands) (further : a.ip < b.ip)
          (same : b.unit = a.unit) (w₂ : World) (depths₂ : w₂.depths = w.depths)
          (calls₂ : w₂.Calls Handle.Brief) :
          Ends reads (.code b) w₂ (w.leave a.unit.loader).depths := by
        have inside := standsB.ip_le
        have code : b.code = a.code := by rw [Activation.code, Activation.code, same]
        rw [code] at inside
        have ends := ih (b.code.length - b.ip) (by rw [code]; omega) standsB (same ▸ jumps) w₂
          ((World.room_of_depths depths₂).trans hw) calls₂ rfl
        rw [World.depths_leave, depths₂, same, ← World.depths_leave] at ends
        exact ends
      have finishes (result : Except Interrupt Value) (w₂ : World)
          (depths₂ : w₂.depths = w.depths) (calls₂ : w₂.Calls Handle.Brief) :
          Ends reads (.deliver result) (w₂.leave a.unit.loader) (w.leave a.unit.loader).depths := by
        have after : (w₂.leave a.unit.loader).Calls Handle.Brief := calls₂
        have ends : Ends reads (.deliver result) _ _ := ends_deliver after result
        rw [World.depths_leave, depths₂, ← World.depths_leave] at ends
        exact ends
      cases effect with
      | next b =>
        obtain ⟨further, same⟩ := nextForward b rfl
        refine (goesOn (next b rfl) further same w₁ depths₁ calls₁).of_step fun waiting => ?_
        rw [step, stepped]
      | call b callee receiver args =>
        obtain ⟨further, same⟩ := callForward b callee receiver args rfl
        refine (calls_end w₁ callee receiver args room₁ calls₁).of_call
          (x := .code b) (fun waiting => by rw [step, stepped]) ?_
        intro result w₂ calls₂ depths₂
        have kept := depths₂.trans depths₁
        cases pushed : result.bind b.push with
        | error i =>
          refine ⟨.deliver (.error i), w₂.leave a.unit.loader, ?_, finishes _ w₂ kept calls₂⟩
          intro waiting
          rw [step, pushed, same]
        | ok c =>
          cases result with
          | error i => cases pushed
          | ok v =>
            have standsC : c.Stands := (call b callee receiver args rfl).of_push pushed
            obtain ⟨stack, rfl⟩ := Activation.eq_of_push pushed
            refine ⟨_, w₂, ?_, goesOn standsC further same w₂ kept calls₂⟩
            intro waiting
            rw [step, pushed]
      | finish result =>
        refine (finishes result w₁ depths₁ calls₁).of_step fun waiting => ?_
        rw [step, stepped]

/-- Native code that asks for something ends, if it ends whatever it is answered. -/
theorem ends_resume {α : Type} {p : Native} {next : α → Native} {answer : Option α × World}
    (step_eq : ∀ waiting, step reads ⟨.native p, waiting, w⟩ =
      ⟨(resume next answer).1, waiting, (resume next answer).2⟩)
    (calls : answer.2.Calls Handle.Brief) (kept : answer.2.depths = w.depths)
    (later : ∀ a (w₁ : World), w₁.Calls Handle.Brief → w₁.depths = w.depths →
      Ends reads (.native (next a)) w₁ w₁.depths) : Ends reads (.native p) w w.depths := by
  rw [← kept]
  obtain ⟨_ | a, w₁⟩ := answer
  · exact (ends_deliver calls (.error .crash)).of_step step_eq
  · exact (later a w₁ calls kept).of_step step_eq

/-- Native code ends when the calls with fewer arguments do. -/
theorem ends_native {room count : Nat}
    (calls_end : ∀ (w : World) callee receiver (args : List Value), args.length < count →
      w.room = room → w.Calls Handle.Brief → Ends reads (.invoke callee receiver args) w w.depths)
    {p : Native} (brief : p.Brief (some count)) (w : World) (hw : w.room = room)
    (calls : w.Calls Handle.Brief) : Ends reads (.native p) w w.depths := by
  generalize counted : some count = counts at brief
  induction brief generalizing w with
  | done result => exact (ends_deliver calls (resultOf w.heap result)).of_step fun waiting => rfl
  | perform action next noLoader answers ih =>
    subst counted
    have after := brief_world_step (m := ⟨.native (.perform action next), [], w⟩) calls
      ⟨_, .perform action next noLoader answers⟩ reads
    refine ends_resume (fun waiting => rfl) (snd_resume next (w.perform action) ▸ after)
      (w.depths_perform action (noLoader nofun)) fun a w₁ calls₁ same => ?_
    exact ih a w₁ ((World.room_of_depths same).trans hw) calls₁ rfl
  | call callee receiver args next fewer results ih =>
    subst counted
    refine (calls_end w callee receiver args (fewer count rfl) hw calls).of_call
      (x := .native next) (fun waiting => rfl) fun result w₁ calls₁ same => ?_
    rw [← same]
    have goesOn (answer : Except RuntimeError Value) :
        Ends reads (.native (next answer)) w₁ w₁.depths :=
      ih answer w₁ ((World.room_of_depths same).trans hw) calls₁ rfl
    rcases result with (e | _) | v
    · exact ⟨.native (next (.error e)), w₁, fun waiting => rfl, goesOn (.error e)⟩
    · exact ⟨.deliver (.error .crash), w₁, fun waiting => rfl, ends_deliver calls₁ _⟩
    · exact ⟨.native (next (.ok v)), w₁, fun waiting => rfl, goesOn (.ok v)⟩
  | newFunction name spec next entries answers _ ih =>
    have after := brief_world_step (m := ⟨.native (.newFunction name spec next), [], w⟩) calls
      ⟨_, .newFunction name spec next entries answers⟩ reads
    refine ends_resume (fun waiting => rfl) (snd_resume next (w.newFunction name spec) ▸ after)
      (w.depths_newFunction name spec) fun a w₁ calls₁ same => ?_
    exact ih a w₁ ((World.room_of_depths same).trans hw) calls₁ counted
  | defineNative l id name spec next entries answers _ ih =>
    have after := brief_world_step (m := ⟨.native (.defineNative l id name spec next), [], w⟩)
      calls ⟨_, .defineNative l id name spec next entries answers⟩ reads
    refine ends_resume (fun waiting => rfl) (snd_resume next (w.define l id name spec) ▸ after)
      (w.depths_define l id name spec) fun a w₁ calls₁ same => ?_
    exact ih a w₁ ((World.room_of_depths same).trans hw) calls₁ counted

/-- A call ends, by the room that is left for calls into units, and then by the number of
arguments. -/
theorem ends_invoke (reads : PropertyReads) (w : World) (callee : ObjectId) (receiver : Value)
    (args : List Value) (calls : w.Calls Handle.Brief) :
    Ends reads (.invoke callee receiver args) w w.depths := by
  induction hroom : w.room using Nat.strongRecOn generalizing w callee receiver args with
  | ind room fewerRoom =>
    induction hcount : args.length using Nat.strongRecOn generalizing w callee receiver args with
    | ind count fewerArgs =>
      have started := started_invoke w callee receiver args
      have called := calls callee
      have stepped (waiting : List Waiting) :
          step reads ⟨.invoke callee receiver args, waiting, w⟩ =
          ⟨(invoke w callee receiver args).1, waiting, (invoke w callee receiver args).2⟩ := rfl
      have calls₁ := calls_invoke calls callee receiver args
      generalize invoke w callee receiver args = result at started stepped calls₁
      cases started with
      | refused i => exact (ends_deliver calls (.error i)).of_step stepped
      | native entry handle =>
        have brief := called.native handle receiver args
        refine (ends_native ?_ brief w hroom calls).of_step stepped
        intro w₁ callee receiver args₁ fewer hroom₁ calls₁
        exact fewerArgs args₁.length (hcount ▸ fewer) w₁ callee receiver args₁ calls₁ hroom₁ rfl
      | code unit loader handle found closed arity below =>
        intro waiting forward
        have jumps : unit.unit.JumpsForward := forward 0 callee unit (by rw [steps, handle]; rfl)
        rw [handle] at called
        have entered := World.depths_of_loaders (loaders_of_enters below rfl :
          (Activation.start unit loader receiver args (w.enter unit.loader loader).2).2.loaders = _)
        rw [World.depths_mapLoader w unit.loader fun _ => rfl] at entered
        have less := World.room_of_enters found below entered
        have stands := Activation.stands_start called loader receiver args
          (w.enter unit.loader loader).2
        have ends : Ends reads _ _ _ := ends_code (fun w₁ callee receiver args room₁ calls₁ =>
          fewerRoom _ (hroom ▸ less) w₁ callee receiver args calls₁ room₁) stands jumps _ rfl calls₁
        have left : (Activation.start unit loader receiver args
            (w.enter unit.loader loader).2).1.unit.loader = unit.loader := rfl
        rw [left, World.depths_leave_of_enters entered] at ends
        exact ends.of_step stepped waiting forward

/-! ## Sessions -/

/-- What waits goes on with brief native code. -/
def Waiting.Brief : Waiting → Prop
  | .code _ => True
  | .native next => ∃ count, ∀ result, (next result).Brief count

/-- All native code of the machine is brief, and the code of all its units is checked. -/
structure Brief (m : Machine) : Prop where
  calls : m.world.Calls Handle.Brief
  control : Control.Brief m.control
  waiting : ∀ x ∈ m.waiting, Waiting.Brief x

variable {waiting : List Waiting}

theorem brief_control_invoke (calls : w.Calls Handle.Brief) (callee : ObjectId) (receiver : Value)
    (args : List Value) : Control.Brief (invoke w callee receiver args).1 := by
  have started := started_invoke w callee receiver args
  have called := calls callee
  generalize invoke w callee receiver args = result at started
  cases started with
  | refused i => exact trivial
  | native entry handle => exact ⟨some args.length, called.native handle receiver args⟩
  | code unit loader handle found closed arity below => exact trivial

theorem brief_resume {α : Type} {next : α → Native} {count : Option Nat}
    (later : ∀ a, (next a).Brief count) (answer : Option α × World) :
    Control.Brief (resume next answer).1 := by
  obtain ⟨_ | a, w⟩ := answer
  · exact trivial
  · exact ⟨count, later a⟩

/-- What is added to what waits, or taken from it. -/
theorem brief_cons {x : Waiting} (first : Waiting.Brief x)
    (below : ∀ y ∈ waiting, Waiting.Brief y) :
    ∀ y ∈ x :: waiting, Waiting.Brief y := by
  intro y hy
  rcases List.mem_cons.mp hy with rfl | hy
  · exact first
  · exact below y hy

theorem brief_step (brief : m.Brief) (reads : PropertyReads) : (m.step reads).Brief := by
  suffices later : Control.Brief (m.step reads).control ∧
      ∀ x ∈ (m.step reads).waiting, Waiting.Brief x from
    ⟨brief_world_step brief.calls brief.control reads, later.1, later.2⟩
  obtain ⟨control, waiting, w⟩ := m
  obtain ⟨calls, next, below⟩ := brief
  cases control with
  | invoke callee receiver args => exact ⟨brief_control_invoke calls callee receiver args, below⟩
  | code a =>
    rw [step]
    cases a.step reads w with
    | mk effect w' =>
      cases effect with
      | next b => exact ⟨trivial, below⟩
      | call b callee receiver args => exact ⟨trivial, brief_cons trivial below⟩
      | finish result => exact ⟨trivial, below⟩
  | native p =>
    obtain ⟨count, brief⟩ := next
    cases brief with
    | done result => exact ⟨trivial, below⟩
    | perform action next _ later => exact ⟨brief_resume later _, below⟩
    | call callee receiver args next _ later => exact ⟨trivial, brief_cons ⟨count, later⟩ below⟩
    | newFunction name spec next _ later => exact ⟨brief_resume later _, below⟩
    | defineNative l id name spec next _ later => exact ⟨brief_resume later _, below⟩
  | deliver result =>
    cases waiting with
    | nil => exact ⟨trivial, below⟩
    | cons first waiting =>
      have rest : ∀ x ∈ waiting, Waiting.Brief x := fun x hx => below x (List.mem_cons_of_mem _ hx)
      have here := below first List.mem_cons_self
      cases first with
      | code a =>
        rw [step]
        cases result.bind a.push <;> exact ⟨trivial, rest⟩
      | native next =>
        obtain ⟨count, later⟩ := here
        rcases result with (e | _) | v
        · exact ⟨⟨count, later (.error e)⟩, rest⟩
        · exact ⟨trivial, rest⟩
        · exact ⟨⟨count, later (.ok v)⟩, rest⟩

theorem brief_steps (brief : m.Brief) (reads : PropertyReads) (n : Nat) :
    (m.steps reads n).Brief := by
  induction n generalizing m with
  | zero => exact brief
  | succ n ih => exact ih (brief_step brief reads)

end Machine

/-! ## Units that are loaded -/

/-- If the action loads a unit, all its jumps lead forward. -/
def Action.LoadsForward : Action → Prop
  | .load _ _ payload =>
    ∀ verify unit, Payload.decode payload verify = .ok unit → unit.JumpsForward
  | _ => True

/-- Host code that offers no other units loads no other units. -/
theorem Machine.loadsForward_of_asksOnly {p : Native} (asks : p.AsksOnly Action.LoadsForward)
    (reads : PropertyReads) : (running .empty p).LoadsForward reads := by
  have sound (n : Nat) := (leads_steps (sound_running World.sound_empty asks) reads n).sound
  intro n
  induction n with
  | zero => exact fun _ => nofun
  | succ n ih =>
    rw [steps_succ_eq]
    refine calls_step ih ?_
    have native {spec : HandleSpec NativeEntry} {handle : Handle}
        (found : ((running .empty p).steps reads n).world.handleOf spec = some handle) :
        handle.JumpsForward := ih.of_handleOf found nofun fun entry _ => ⟨fun _ => nofun, nofun⟩
    rintro handle (⟨l, id, payload, next, at_, loader, found, unit, accepted⟩ |
      ⟨name, spec, next, at_, _, found⟩ | ⟨l, id, name, spec, next, at_, _, found⟩)
    · have live := (sound n).control
      rw [at_] at live
      cases live with
      | perform _ _ forward =>
        intro loaded is
        cases is
        exact forward _ unit (World.decode_of_accept accepted)
    · exact native found
    · exact native found

/-- Host code builds a session, and the jumps of all units that it loads lead forward; its native
functions make no loader and call back with fewer arguments only. Whatever is called at any moment,
with any receiver and arguments, by host code, by native functions or by units, the call comes to a
result: a value or an error, unless native code asks for what does not exist. -/
theorem invoke_ends (p : Native) (brief : p.Brief none) (reads : PropertyReads)
    (forward : (Machine.running .empty p).LoadsForward reads) (n : Nat) {callee : ObjectId}
    {receiver : Value} {args : List Value}
    (called : ((Machine.running .empty p).steps reads n).control = .invoke callee receiver args) :
    ∃ k result, ((Machine.running .empty p).steps reads (n + k)).control = .deliver result ∧
      ((Machine.running .empty p).steps reads (n + k)).waiting =
        ((Machine.running .empty p).steps reads n).waiting ∧
      (result = .error .crash →
        ∃ j < n + k, ((Machine.running .empty p).steps reads j).Refused) := by
  have start : (Machine.running .empty p).Brief :=
    ⟨fun _ => trivial, ⟨none, brief⟩, fun _ mem => nomatch mem⟩
  have calls := (Machine.brief_steps start reads n).calls
  have moment : (Machine.running .empty p).steps reads n = ⟨.invoke callee receiver args,
      ((Machine.running .empty p).steps reads n).waiting,
      ((Machine.running .empty p).steps reads n).world⟩ := by
    rw [← called]
  obtain ⟨k, result, w, ends, -⟩ := Machine.ends_invoke reads _ callee receiver args calls _
    (forward.steps_eq n moment)
  have arrived : (Machine.running .empty p).steps reads (n + k) =
      ⟨.deliver result, ((Machine.running .empty p).steps reads n).waiting, w⟩ := by
    rw [Machine.steps_add, ← ends, ← called]
  refine ⟨k, result, by rw [arrived], by rw [arrived], ?_⟩
  rintro rfl
  exact Machine.exists_refused_of_crash p reads (n + k) (by rw [arrived])

/-- The object that is called next, with the receiver and the arguments. -/
def Control.called? : Control → Option (ObjectId × Value × List Value)
  | .invoke callee receiver args => some (callee, receiver, args)
  | _ => none

theorem Control.called?_eq_some_iff {control : Control} {callee : ObjectId} {receiver : Value}
    {args : List Value} : control.called? = some (callee, receiver, args) ↔
      control = .invoke callee receiver args := by
  cases control <;> simp [called?]

/-- Two units that call each other without end are loaded, and one of them is called. -/
def entangled : Native :=
  .perform .newDictionary fun d =>
  .perform (.newObject none) fun o =>
  .perform (.newLoader { verifyChecksum := false } d o) fun l =>
  .perform (.load l "f" (callingPayload 102 103)) fun _ =>
  .perform (.load l "g" (callingPayload 103 102)) fun _ =>
    .call 1 .undefined [] fun _ => .done (.ok .undefined)

theorem invoke_ends_entangled :
    ∃ k result, ((Machine.running .empty entangled).steps .cached (6 + k)).control =
        .deliver result ∧
      ((Machine.running .empty entangled).steps .cached (6 + k)).waiting =
        ((Machine.running .empty entangled).steps .cached 6).waiting ∧
      (result = .error .crash →
        ∃ j < 6 + k, ((Machine.running .empty entangled).steps .cached j).Refused) := by
  -- neither unit has a jump
  have asks (name callee : UInt8) (u : CodeUnit)
      (decoded : Payload.decode (callingPayload name callee) false = .ok u)
      (walk : u.mapFrom 0 u.code = .ok ⟨[0, 3, 4, 6], []⟩) :
      Action.LoadsForward (.load 0 "" (callingPayload name callee)) := by
    intro verify unit accepted map found jump mem
    obtain rfl := Except.ok.inj ((Payload.decode_unverified accepted).symm.trans decoded)
    obtain rfl := Except.ok.inj (found.symm.trans walk)
    cases mem
  have first := asks 102 103 ⟨"f", [], [.str "g"], [9, 0, 0, 1, 10, 0, 21]⟩ (by cbv) (by cbv)
  have second := asks 103 102 ⟨"g", [], [.str "f"], [9, 0, 0, 1, 10, 0, 21]⟩ (by cbv) (by cbv)
  have free {a : Action} : (none : Option Nat) ≠ none → ¬ a.MakesLoader := fun h => absurd rfl h
  have unbounded : ∀ n ∈ (none : Option Nat), ([] : List Value).length < n :=
    fun n mem => absurd mem (Option.not_mem_none n)
  have brief : entangled.Brief none :=
    .perform _ _ free fun d => .perform _ _ free fun o => .perform _ _ free fun l =>
      .perform _ _ free fun _ => .perform _ _ free fun _ => .call _ _ _ _ unbounded fun _ => .done _
  have forward : (Machine.running .empty entangled).LoadsForward .cached := by
    refine Machine.loadsForward_of_asksOnly ?_ .cached
    exact .perform _ _ trivial fun d => .perform _ _ trivial fun o => .perform _ _ trivial fun l =>
      .perform _ _ first fun _ => .perform _ _ second fun _ => .call _ _ _ _ fun _ => .done _
  have called : ((Machine.running .empty entangled).steps .cached 6).control.called? =
      some (1, .undefined, []) := by decide +kernel
  exact invoke_ends entangled brief .cached forward 6 (Control.called?_eq_some_iff.mp called)

end ProtoVM
