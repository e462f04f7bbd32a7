import Mathlib.Data.List.Forall2
import ProtoVM.Proofs.Machine.Handles
import ProtoVM.Proofs.Machine.RaisedActivations

/-!
# Runs within the limits

A run in which no call is entered too deeply and no operand is without room goes through the same
states when the limits are raised, however calls are nested and however they end. Native code must
not go by the limits itself.
-/

namespace ProtoVM

open World (Echoes)

/-! ## Native code -/

/-- The second code does what the first does, whatever both are answered; only the settings of
loaders may differ, and their limits are at least as high in the second. -/
inductive Native.Raised : Native → Native → Prop
  | done (result : Except HostError Value) : Raised (.done result) (.done result)
  | perform (action : Action) (next next' : action.Answer → Native)
      (ignores : ¬ action.ReadsSettings) (later : ∀ answer, Raised (next answer) (next' answer)) :
      Raised (.perform action next) (.perform action next')
  | newLoader (config config' : Config) (within : config.Within config') (d : DictionaryId)
      (global : ObjectId) (next next' : LoaderId → Native)
      (later : ∀ l, Raised (next l) (next' l)) :
      Raised (.perform (.newLoader config d global) next)
        (.perform (.newLoader config' d global) next')
  | loaderInfo (l : LoaderId) (next next' : LoaderInfo → Native)
      (later : ∀ (info : LoaderInfo) (config : Config), info.config.Within config →
        Raised (next info) (next' { info with config })) :
      Raised (.perform (.loaderInfo l) next) (.perform (.loaderInfo l) next')
  | call (callee : ObjectId) (receiver : Value) (args : List Value)
      (next next' : Except RuntimeError Value → Native)
      (later : ∀ result, Raised (next result) (next' result)) :
      Raised (.call callee receiver args next) (.call callee receiver args next')
  | newFunction (name : String) (spec : HandleSpec NativeEntry) (next next' : ObjectId → Native)
      (entries : ∀ entry, spec.entry? = some entry → ∀ args, Raised (entry args) (entry args))
      (later : ∀ o, Raised (next o) (next' o)) :
      Raised (.newFunction name spec next) (.newFunction name spec next')
  | defineNative (l : LoaderId) (id name : String) (spec : HandleSpec NativeEntry)
      (next next' : Except LoadError ObjectId → Native)
      (entries : ∀ entry, spec.entry? = some entry → ∀ args, Raised (entry args) (entry args))
      (later : ∀ answer, Raised (next answer) (next' answer)) :
      Raised (.defineNative l id name spec next) (.defineNative l id name spec next')

/-- The code goes on in the same way whatever the limits of loaders are. -/
def Native.IgnoresLimits (p : Native) : Prop := p.Raised p

/-- Native code behind the handle goes on in the same way whatever the limits of loaders are. -/
def Handle.IgnoresLimits : Handle → Prop
  | .inert => True
  | .fixed _ entry => ∀ args, (entry args).IgnoresLimits
  | .variadic entry => ∀ args, (entry args).IgnoresLimits
  | .interpreted _ => True

/-! ## Machines -/

/-- The second does next what the first does, under limits at least as high. -/
inductive Control.Raised : Control → Control → Prop
  | invoke (callee : ObjectId) (receiver : Value) (args : List Value) :
      Raised (.invoke callee receiver args) (.invoke callee receiver args)
  | code {a b : Activation} (raised : a.Raised b) : Raised (.code a) (.code b)
  | native {p p' : Native} (raised : p.Raised p') : Raised (.native p) (.native p')
  | deliver (result : Except Interrupt Value) : Raised (.deliver result) (.deliver result)

/-- The second goes on with a result as the first does, under limits at least as high. -/
inductive Waiting.Raised : Waiting → Waiting → Prop
  | code {a b : Activation} (raised : a.Raised b) : Raised (.code a) (.code b)
  | native {next next' : Except RuntimeError Value → Native}
      (raised : ∀ result, (next result).Raised (next' result)) :
      Raised (.native next) (.native next')

namespace Machine

variable {w w' : World} {reads : PropertyReads}

/-- The machines are at the same moment of a run, the second one under limits at least as high. -/
structure Raised (m m' : Machine) : Prop where
  control : m.control.Raised m'.control
  waiting : m.waiting.Forall₂ Waiting.Raised m'.waiting
  world : m.world.Raised m'.world

/-- The call is not entered, because too many are under way. -/
def isTooDeep : Control → Bool
  | .deliver (.error (.error (.fault (.callDepth _)))) => true
  | _ => false

/-- The call ends, because there is no room for an operand. -/
def isOutOfRoom : Effect → Bool
  | .finish (.error (.error (.fault .stackOverflow))) => true
  | _ => false

/-- The next step fails for a limit: a call is entered too deeply, or an operand is pushed for which
there is no room. -/
def hitsLimit (reads : PropertyReads) (m : Machine) : Bool :=
  match m with
  | ⟨.invoke callee receiver args, _, w⟩ => isTooDeep (invoke w callee receiver args).1
  | ⟨.code a, _, w⟩ => isOutOfRoom (a.step reads w).1
  | ⟨.deliver (.ok v), .code a :: _, _⟩ => !(a.push v).isOk
  | _ => false

/-- The machines go on in the same way after a step. -/
structure GoesOn (r r' : Control × World) : Prop where
  control : r.1.Raised r'.1
  world : r.2.Raised r'.2

theorem GoesOn.raised {r r' : Control × World} (goesOn : GoesOn r r')
    {waiting waiting' : List Waiting} (below : waiting.Forall₂ Waiting.Raised waiting') :
    Raised ⟨r.1, waiting, r.2⟩ ⟨r'.1, waiting', r'.2⟩ := ⟨goesOn.control, below, goesOn.world⟩

theorem enter_raised (world : w.Raised w') (unit : BoundUnit) (receiver : Value)
    (args : List Value) (fits : isTooDeep (enter w unit receiver args).1 = false) :
    GoesOn (enter w unit receiver args) (enter w' unit receiver args) := by
  have found := world.loader unit.loader
  unfold enter at fits ⊢
  generalize w.loaders[unit.loader]? = x at found fits
  generalize w'.loaders[unit.loader]? = x' at found
  cases found with
  | none => exact ⟨.deliver _, world⟩
  | @some loader _ more =>
    obtain ⟨config, within, rfl⟩ := more
    by_cases deep : loader.config.maxCallDepth.toNat ≤ loader.depth
    · have refused : w.enter unit.loader loader =
          (.error (.callDepth loader.config.maxCallDepth.toNat), w) := if_pos deep
      simp [refused, isTooDeep] at fits
    · have entered := world.enter unit.loader within (Nat.lt_of_not_le deep)
      have same : w.enter unit.loader loader = (.ok (), w.mapLoader unit.loader
          fun loader => { loader with depth := loader.depth + 1 }) := if_neg deep
      rw [same] at entered
      dsimp only
      rw [same]
      generalize w'.enter unit.loader { loader with config } = r at entered
      obtain ⟨outcome, w₁⟩ := r
      obtain ⟨rfl, raised⟩ := entered
      obtain ⟨control, later⟩ := Activation.start_raised raised unit within receiver args
      exact ⟨.code control, later⟩

theorem invoke_raised (world : w.Raised w') (handles : w.Calls Handle.IgnoresLimits)
    (callee : ObjectId) (receiver : Value) (args : List Value)
    (fits : isTooDeep (invoke w callee receiver args).1 = false) :
    GoesOn (invoke w callee receiver args) (invoke w' callee receiver args) := by
  have called := handles callee
  unfold invoke at fits ⊢
  rw [world.heap_eq]
  by_cases present : !(w.heap.contains callee && (receiver :: args).all w.heap.closed)
  · rw [if_pos present, if_pos present]
    exact ⟨.deliver _, world⟩
  · rw [if_neg present] at fits
    rw [if_neg present, if_neg present]
    dsimp only at fits ⊢
    cases arity : checkArity (w.heap.handle callee) args with
    | error e => exact ⟨.deliver _, world⟩
    | ok _ =>
      rw [arity] at fits
      dsimp only at fits ⊢
      cases handle : w.heap.handle callee with
      | inert => exact ⟨.deliver _, world⟩
      | fixed count entry =>
        rw [handle] at called
        exact ⟨.native (called (receiver :: args)), world⟩
      | variadic entry =>
        rw [handle] at called
        exact ⟨.native (called (receiver :: args)), world⟩
      | interpreted unit =>
        rw [handle] at fits
        exact enter_raised world unit receiver args fits

/-- Native code that is answered alike goes on in the same way. -/
theorem resume_raised {α : Type} {next next' : α → Native} {r r' : Option α × World}
    (later : ∀ answer, (next answer).Raised (next' answer)) (echoes : Echoes r r') :
    GoesOn (resume next r) (resume next' r') := by
  obtain ⟨answer, w⟩ := r
  obtain ⟨answer', w'⟩ := r'
  obtain ⟨rfl, world⟩ := echoes
  cases answer' with
  | none => exact ⟨.deliver _, world⟩
  | some a => exact ⟨.native (later a), world⟩

section

variable {waiting waiting' : List Waiting} (below : waiting.Forall₂ Waiting.Raised waiting')
  (world : w.Raised w')
include below world

theorem step_code_raised {a b : Activation} (raised : a.Raised b)
    (fits : isOutOfRoom (a.step reads w).1 = false) :
    Raised (step reads ⟨.code a, waiting, w⟩) (step reads ⟨.code b, waiting', w'⟩) := by
  rcases raised.step world reads with full | ⟨effect, later⟩
  · rw [full] at fits
    cases fits
  · rw [step, step]
    generalize a.step reads w = r at effect later
    generalize b.step reads w' = r' at effect later
    obtain ⟨x, w₁⟩ := r
    obtain ⟨x', w₁'⟩ := r'
    cases effect with
    | next goesOn => exact ⟨.code goesOn, below, later⟩
    | call goesOn callee receiver args =>
      exact ⟨.invoke callee receiver args, .cons (.code goesOn) below, later⟩
    | finish result =>
      dsimp only
      rw [raised.unit_eq]
      exact ⟨.deliver result, below, later.leave a.unit.loader⟩

theorem step_native_raised {p p' : Native} (raised : p.Raised p') :
    Raised (step reads ⟨.native p, waiting, w⟩) (step reads ⟨.native p', waiting', w'⟩) := by
  cases raised with
  | done result =>
    rw [step, step, world.heap_eq]
    exact ⟨.deliver _, below, world⟩
  | perform action next next' ignores later =>
    exact (resume_raised later (world.perform action ignores)).raised below
  | newLoader config config' within d global next next' later =>
    have goesOn : GoesOn (resume next (w.perform (.newLoader config d global)))
        (resume next' (w'.perform (.newLoader config' d global))) := by
      rcases world.newLoader within d global with
        ⟨first, second⟩ | ⟨l, w₁, w₁', more, first, second⟩
      · rw [first, second]
        exact ⟨.deliver _, world⟩
      · rw [first, second]
        exact ⟨.native (later l), more⟩
    exact goesOn.raised below
  | loaderInfo l next next' later =>
    have goesOn : GoesOn (resume next (w.perform (.loaderInfo l)))
        (resume next' (w'.perform (.loaderInfo l))) := by
      rcases world.loaderInfo l with ⟨first, second⟩ | ⟨info, config, within, first, second⟩
      · rw [first, second]
        exact ⟨.deliver _, world⟩
      · rw [first, second]
        exact ⟨.native (later info config within), world⟩
    exact goesOn.raised below
  | call callee receiver args next next' later =>
    exact ⟨.invoke callee receiver args, .cons (.native later) below, world⟩
  | newFunction name spec next next' entries later =>
    exact (resume_raised later (world.newFunction name spec)).raised below
  | defineNative l id name spec next next' entries later =>
    exact (resume_raised later (world.define l id name spec)).raised below

theorem step_deliver_raised (result : Except Interrupt Value)
    (fits : hitsLimit reads ⟨.deliver result, waiting, w⟩ = false) :
    Raised (step reads ⟨.deliver result, waiting, w⟩)
      (step reads ⟨.deliver result, waiting', w'⟩) := by
  cases below with
  | nil => exact ⟨.deliver result, .nil, world⟩
  | cons first rest =>
    cases first with
    | @code a b raised =>
      rw [step, step]
      cases result with
      | error i =>
        show Raised ⟨.deliver (.error i), _, _⟩ ⟨.deliver (.error i), _, _⟩
        rw [raised.unit_eq]
        exact ⟨.deliver _, rest, world.leave _⟩
      | ok v =>
        have first : (Except.ok v : Except Interrupt Value).bind a.push = a.push v := rfl
        have second : (Except.ok v : Except Interrupt Value).bind b.push = b.push v := rfl
        have pushed := raised.push v
        have room : (a.push v).isOk = true := by simpa [hitsLimit] using fits
        rw [first, second]
        generalize a.push v = x at pushed room
        generalize b.push v = y at pushed
        cases pushed with
        | full y => cases room
        | error i => cases room
        | ok goesOn => exact ⟨.code goesOn, rest, world⟩
    | native raised =>
      cases result with
      | ok v => exact ⟨.native (raised (.ok v)), rest, world⟩
      | error i =>
        cases i with
        | error e => exact ⟨.native (raised (.error e)), rest, world⟩
        | crash => exact ⟨.deliver _, rest, world⟩

end

variable {m m' : Machine}

theorem step_raised (raised : m.Raised m') (handles : m.world.Calls Handle.IgnoresLimits)
    (fits : m.hitsLimit reads = false) : (m.step reads).Raised (m'.step reads) := by
  obtain ⟨control, waiting, w⟩ := m
  obtain ⟨control', waiting', w'⟩ := m'
  obtain ⟨next, below, world⟩ := raised
  cases next with
  | invoke callee receiver args =>
    exact (invoke_raised world handles callee receiver args fits).raised below
  | code raised => exact step_code_raised below world raised fits
  | native raised => exact step_native_raised below world raised
  | deliver result => exact step_deliver_raised below world result fits

/-- The native functions that are made do not go by the limits either. -/
theorem ignoresLimits_step (raised : m.Raised m') (handles : m.world.Calls Handle.IgnoresLimits)
    (reads : PropertyReads) : (m.step reads).world.Calls Handle.IgnoresLimits := by
  refine calls_step handles fun handle makes => ?_
  have own {spec : HandleSpec NativeEntry}
      (entries : ∀ entry, spec.entry? = some entry → ∀ args, (entry args).IgnoresLimits)
      (found : m.world.handleOf spec = some handle) : handle.IgnoresLimits :=
    handles.of_handleOf found trivial fun entry own =>
      ⟨fun _ => entries entry own, entries entry own⟩
  have same := raised.control
  generalize m'.control = control' at same
  cases makes with
  | unit l id payload next at_ loader found unit accepted => exact trivial
  | function name spec next at_ _ found =>
    rw [at_] at same
    cases same with
    | native made =>
      cases made with
      | newFunction _ _ _ _ entries => exact own entries found
  | native l id name spec next at_ _ found =>
    rw [at_] at same
    cases same with
    | native made =>
      cases made with
      | defineNative _ _ _ _ _ _ entries => exact own entries found

theorem steps_raised (n : Nat) (raised : m.Raised m')
    (handles : m.world.Calls Handle.IgnoresLimits)
    (fits : ∀ k < n, (m.steps reads k).hitsLimit reads = false) :
    (m.steps reads n).Raised (m'.steps reads n) ∧
      (m.steps reads n).world.Calls Handle.IgnoresLimits := by
  induction n generalizing m m' with
  | zero => exact ⟨raised, handles⟩
  | succ n ih =>
    have first := step_raised raised handles (fits 0 (Nat.succ_pos n))
    have later := ignoresLimits_step raised handles reads
    exact ih first later fun k hk => fits (k + 1) (Nat.succ_lt_succ hk)

/-- The same result, if there is one already. -/
theorem Raised.result? (raised : m.Raised m') : m'.result? = m.result? := by
  obtain ⟨control, waiting, w⟩ := m
  obtain ⟨control', waiting', w'⟩ := m'
  obtain ⟨next, below, -⟩ := raised
  cases next <;> cases below <;> rfl

end Machine

/-- Host code builds two sessions in the same way but for the limits of their loaders. While no
limit of the first is hit, the sessions differ in their limits alone, and no native function goes by
them. -/
theorem Machine.steps_raised_running {p p' : Native} (raised : p.Raised p')
    (reads : PropertyReads) (n : Nat)
    (fits : ∀ k < n, ((running .empty p).steps reads k).hitsLimit reads = false) :
    ((running .empty p).steps reads n).Raised ((running .empty p').steps reads n) ∧
      ((running .empty p).steps reads n).world.Calls Handle.IgnoresLimits :=
  steps_raised n ⟨.native raised, .nil, ⟨#[], ⟨rfl, fun _ => .none⟩, rfl⟩⟩ (fun _ => trivial) fits

/-- What a call leaves: its result, the objects and the dictionaries. -/
def World.outcome (r : Except Interrupt Value × World) :
    Except Interrupt Value × Heap × Array Dictionary := (r.1, r.2.heap, r.2.dictionaries)

theorem World.Raised.outcome {w w' : World} (raised : w.Raised w')
    (result : Except Interrupt Value) : World.outcome (result, w') = World.outcome (result, w) := by
  obtain ⟨loaders, -, rfl⟩ := raised
  rfl

theorem Machine.run_raised {m m' : Machine} {reads : PropertyReads} (n : Nat)
    (raised : m.Raised m') (handles : m.world.Calls Handle.IgnoresLimits)
    (fits : ∀ k < n, (m.steps reads k).hitsLimit reads = false) :
    (m'.run reads n).map World.outcome = (m.run reads n).map World.outcome := by
  induction n generalizing m m' with
  | zero =>
    rw [run, run, raised.result?]
    cases m.result? with
    | none => rfl
    | some result => exact congrArg some (raised.world.outcome result)
  | succ n ih =>
    rw [run, run, raised.result?]
    cases m.result? with
    | some result => exact congrArg some (raised.world.outcome result)
    | none =>
      have first := step_raised raised handles (fits 0 (Nat.succ_pos n))
      have later := ignoresLimits_step raised handles reads
      exact ih first later fun k hk => fits (k + 1) (Nat.succ_lt_succ hk)

/-- A session and the same one with limits at least as high, in which no native function goes by the
limits. A call that stays within the limits of the first session, whatever is called from it, has
the same result or error in the second one, and leaves the same objects and dictionaries. -/
theorem World.invoke_within_limits {w w' : World} (raised : w.Raised w')
    (ignores : w.Calls Handle.IgnoresLimits) (callee : ObjectId) (receiver : Value)
    (args : List Value) (limit : Nat)
    (fits : ∀ k < limit,
      ((Machine.calling w callee receiver args).steps .cached k).hitsLimit .cached = false) :
    (w'.invoke limit callee receiver args).map World.outcome =
      (w.invoke limit callee receiver args).map World.outcome :=
  Machine.run_raised limit ⟨.invoke callee receiver args, .nil, raised⟩ ignores fits

/-- The payload of a unit that calls the function `g`, with a blank digest. -/
def forwardingPayload : List UInt8 :=
  Payload.magic ++ [1, 0] ++ [1, 0, 0, 0, 102] ++ [0, 0, 0, 0] ++
    [1, 0, 0, 0, 2, 1, 0, 0, 0, 103] ++ [7, 0, 0, 0, 9, 0, 0, 1, 10, 0, 21] ++
    List.replicate 32 0

/-- The payload of a unit that returns its receiver, with a blank digest. -/
def receiverPayload : List UInt8 :=
  Payload.magic ++ [1, 0] ++ [1, 0, 0, 0, 103] ++ [0, 0, 0, 0] ++ [0, 0, 0, 0] ++
    [2, 0, 0, 0, 2, 21] ++ List.replicate 32 0

/-- Both units are loaded by one loader. -/
def forwarding (config : Config) : Native :=
  .perform .newDictionary fun d =>
  .perform (.newObject none) fun o =>
  .perform (.newLoader config d o) fun l =>
  .perform (.load l "g" receiverPayload) fun _ =>
  .perform (.load l "f" forwardingPayload) fun _ => .done (.ok .undefined)

/-- The session in which both units are loaded. -/
def forwardingSession (config : Config) : World :=
  ((Machine.running .empty (forwarding config)).steps .cached 5).world

/-- Two calls and two operands at a time are just enough, and more change nothing. -/
theorem World.invoke_within_limits_forwarding :
    ((forwardingSession ⟨false, 512, 4096⟩).invoke 16 2 .undefined []).map World.outcome =
        ((forwardingSession ⟨false, 2, 2⟩).invoke 16 2 .undefined []).map World.outcome ∧
      ((forwardingSession ⟨false, 2, 2⟩).invoke 16 2 .undefined []).map (·.1) =
        some (.ok .undefined) := by
  have within : Config.Within ⟨false, 2, 2⟩ ⟨false, 512, 4096⟩ := ⟨rfl, by decide, by decide⟩
  have history : (forwarding ⟨false, 2, 2⟩).Raised (forwarding ⟨false, 512, 4096⟩) :=
    .perform _ _ _ id fun d => .perform _ _ _ id fun o =>
      .newLoader _ _ within d o _ _ fun l =>
        .perform _ _ _ id fun _ => .perform _ _ _ id fun _ => .done _
  obtain ⟨built, ignores⟩ := Machine.steps_raised_running history .cached 5 (by decide +kernel)
  have same := World.invoke_within_limits built.world ignores 2 .undefined [] 16 (by decide +kernel)
  exact ⟨same, by decide +kernel⟩

end ProtoVM
