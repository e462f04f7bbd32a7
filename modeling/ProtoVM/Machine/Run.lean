import ProtoVM.Machine.Activation
import ProtoVM.Session.Perform

/-!
# Running calls

A machine runs one call, and the calls made from it, step by step. It carries out one thing at a
time and keeps what waits for its result; a run ends when there is a result and nothing waits for
it. Calls may never end, so a run is given a bound on its steps.
-/

namespace ProtoVM

/-- What a machine does next. -/
inductive Control where
  /-- Starts a call. -/
  | invoke (callee : ObjectId) (receiver : Value) (args : List Value)
  /-- Goes on with an activation. -/
  | code (a : Activation)
  /-- Goes on with native code. -/
  | native (p : Native)
  /-- Hands a result to what waits for it. -/
  | deliver (result : Except Interrupt Value)

/-- What waits for the result of a call. -/
inductive Waiting where
  | code (a : Activation)
  | native (next : Except RuntimeError Value → Native)

/-- A machine in the middle of a run. -/
structure Machine where
  control : Control
  /-- What waits, innermost first. -/
  waiting : List Waiting
  world : World

namespace Machine

/-- The machine that is about to call an object. -/
def calling (w : World) (callee : ObjectId) (receiver : Value) (args : List Value) : Machine :=
  ⟨.invoke callee receiver args, [], w⟩

/-- The machine that is about to run native code. -/
def running (w : World) (p : Native) : Machine := ⟨.native p, [], w⟩

/-- A call must pass as many values as the handle takes, the receiver included. -/
def checkArity (handle : Handle) (args : List Value) : Except RuntimeError Unit :=
  match handle.arity? with
  | none => .ok ()
  | some arity =>
    if arity = args.length + 1 then .ok () else .error (.arityMismatch args.length (arity - 1))

/-- Starts a call into a unit, unless too many are under way. -/
def enter (w : World) (unit : BoundUnit) (receiver : Value) (args : List Value) :
    Control × World :=
  match w.loaders[unit.loader]? with
  | none => (.deliver (.error .crash), w)
  | some loader =>
    match w.enter unit.loader loader with
    | (.error f, w) => (.deliver (.error (.error (.fault f))), w)
    | (.ok (), w) =>
      let (a, w) := Activation.start unit loader receiver args w
      (.code a, w)

/-- Starts a call by the handle of the callee. -/
def invoke (w : World) (callee : ObjectId) (receiver : Value) (args : List Value) :
    Control × World :=
  if !(w.heap.contains callee && (receiver :: args).all w.heap.closed) then
    (.deliver (.error .crash), w)
  else
    let handle := w.heap.handle callee
    match checkArity handle args with
    | .error e => (.deliver (.error (.error e)), w)
    | .ok () =>
      match handle with
      | .inert => (.deliver (.error (.error .notInvocable)), w)
      | .fixed _ entry => (.native (entry (receiver :: args)), w)
      | .variadic entry => (.native (entry (receiver :: args)), w)
      | .interpreted unit => enter w unit receiver args

/-- The result of native code that has ended. -/
def resultOf (h : Heap) : Except HostError Value → Except Interrupt Value
  | .ok v => if h.closed v then .ok v else .error .crash
  | .error e => .error (.error (.ofHost e))

/-- Goes on with native code, unless it was refused what it asked for. -/
def resume {α : Type} (next : α → Native) : Option α × World → Control × World
  | (some answer, w) => (.native (next answer), w)
  | (none, w) => (.deliver (.error .crash), w)

/-- Carries out one step. -/
def step (reads : PropertyReads) (m : Machine) : Machine :=
  match m with
  | ⟨.invoke callee receiver args, waiting, w⟩ =>
    let (control, w) := invoke w callee receiver args
    ⟨control, waiting, w⟩
  | ⟨.code a, waiting, w⟩ =>
    match a.step reads w with
    | (.next a, w) => ⟨.code a, waiting, w⟩
    | (.call a callee receiver args, w) =>
      ⟨.invoke callee receiver args, .code a :: waiting, w⟩
    | (.finish result, w) => ⟨.deliver result, waiting, w.leave a.unit.loader⟩
  | ⟨.native p, waiting, w⟩ =>
    match p with
    | .done result => ⟨.deliver (resultOf w.heap result), waiting, w⟩
    | .perform action next =>
      let (control, w) := resume next (w.perform action)
      ⟨control, waiting, w⟩
    | .call callee receiver args next =>
      ⟨.invoke callee receiver args, .native next :: waiting, w⟩
    | .newFunction name handle next =>
      let (control, w) := resume next (w.newFunction name handle)
      ⟨control, waiting, w⟩
    | .defineNative l id name handle next =>
      let (control, w) := resume next (w.define l id name handle)
      ⟨control, waiting, w⟩
  | ⟨.deliver result, .code a :: waiting, w⟩ =>
    match result.bind a.push with
    | .ok a => ⟨.code a, waiting, w⟩
    | .error i => ⟨.deliver (.error i), waiting, w.leave a.unit.loader⟩
  | ⟨.deliver result, .native next :: waiting, w⟩ =>
    match result with
    | .ok v => ⟨.native (next (.ok v)), waiting, w⟩
    | .error (.error e) => ⟨.native (next (.error e)), waiting, w⟩
    | .error .crash => ⟨.deliver (.error .crash), waiting, w⟩
  | ⟨.deliver result, [], w⟩ => ⟨.deliver result, [], w⟩

/-- The result of a run that has ended. -/
def result? (m : Machine) : Option (Except Interrupt Value) :=
  match m.control, m.waiting with
  | .deliver result, [] => some result
  | _, _ => none

/-- Carries out a number of steps. -/
def steps (reads : PropertyReads) : Nat → Machine → Machine
  | 0, m => m
  | n + 1, m => steps reads n (m.step reads)

/-- Runs until there is a result, for at most a number of steps. -/
def run (reads : PropertyReads) : Nat → Machine → Option (Except Interrupt Value × World)
  | 0, m => m.result?.map (·, m.world)
  | n + 1, m =>
    match m.result? with
    | some result => some (result, m.world)
    | none => run reads n (m.step reads)

end Machine

namespace World

/-- Calls an object. There is no answer if the call takes more than the given number of steps. -/
def invoke (w : World) (limit : Nat) (callee : ObjectId) (receiver : Value) (args : List Value) :
    Option (Except Interrupt Value × World) :=
  (Machine.calling w callee receiver args).run .cached limit

end World

end ProtoVM
