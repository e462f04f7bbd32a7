import ProtoVM.Proofs.Machine.Crashes

/-!
# Errors on their way out

Calls are nested to any depth, of units and of native functions that return the error of what they
have called as it is. An error that is raised innermost is handed from each call to the one that it
was made from, and arrives as it was raised; on its way no call into a unit goes on. A foreign error
is wrapped where it leaves the native code that failed, and not again: whoever is handed the failure
finds the foreign error itself behind it.
-/

namespace ProtoVM

/-- Whatever it is answered, the native code ends with the error, and it calls nothing before. -/
inductive Native.PassesOn (e : RuntimeError) : Native → Prop
  | done : PassesOn e (.done (.error (.runtime e)))
  | perform (action : Action) (next : action.Answer → Native)
      (later : ∀ answer, PassesOn e (next answer)) : PassesOn e (.perform action next)
  | newFunction (name : String) (spec : HandleSpec NativeEntry) (next : ObjectId → Native)
      (later : ∀ o, PassesOn e (next o)) : PassesOn e (.newFunction name spec next)
  | defineNative (l : LoaderId) (id name : String) (spec : HandleSpec NativeEntry)
      (next : Except LoadError ObjectId → Native) (later : ∀ answer, PassesOn e (next answer)) :
      PassesOn e (.defineNative l id name spec next)

/-- What waits is a call into a unit, or native code that returns the error of what it has called as
it is. -/
def Waiting.PassesOn (e : RuntimeError) : Waiting → Prop
  | .code _ => True
  | .native next => (next (.error e)).PassesOn e

/-- A call into a unit, or native code that returns the error at once. -/
def Waiting.returnsAtOnce (e : RuntimeError) : Waiting → Bool
  | .code _ => true
  | .native next =>
    match next (.error e) with
    | .done (.error (.runtime returned)) => decide (returned = e)
    | _ => false

theorem Waiting.passesOn_of_returnsAtOnce {e : RuntimeError} {x : Waiting}
    (returns : x.returnsAtOnce e = true) : x.PassesOn e := by
  cases x with
  | code a => trivial
  | native next =>
    rw [returnsAtOnce] at returns
    rw [PassesOn]
    split at returns
    · rename_i returned answer
      rw [answer, of_decide_eq_true returns]
      exact .done
    · cases returns

namespace Machine

/-- The next step raises an error, and hands it to what waits below. -/
inductive Raises (reads : PropertyReads) : Machine → RuntimeError → List Waiting → Prop
  /-- A call is not let in: the callee can not be called, takes another number of arguments, or is
  nested too deeply. -/
  | invoke (callee : ObjectId) (receiver : Value) (args : List Value) (below : List Waiting)
      (w : World) (e : RuntimeError)
      (refused : (invoke w callee receiver args).1 = .deliver (.error (.error e))) :
      Raises reads ⟨.invoke callee receiver args, below, w⟩ e below
  /-- An instruction fails. -/
  | code (a : Activation) (below : List Waiting) (w : World) (e : RuntimeError)
      (failed : (a.step reads w).1 = .finish (.error (.error e))) :
      Raises reads ⟨.code a, below, w⟩ e below
  /-- There is no room for the result of a call. -/
  | result (a : Activation) (v : Value) (below : List Waiting) (w : World) (e : RuntimeError)
      (full : a.push v = .error (.error e)) :
      Raises reads ⟨.deliver (.ok v), .code a :: below, w⟩ e below
  /-- Native code ends with an error of its own. -/
  | native (below : List Waiting) (w : World) (e : RuntimeError) :
      Raises reads ⟨.native (.done (.error (.runtime e))), below, w⟩ e below
  /-- Native code ends with a foreign error, which becomes the cause of a failure with its text. -/
  | foreign (below : List Waiting) (w : World) (error : ForeignError) :
      Raises reads ⟨.native (.done (.error (.foreign error))), below, w⟩
        (.failure error.text (some (.foreign error))) below

/-- After a number of steps a result is handed to what waits below, and no call into a unit has gone
on in between. -/
structure HandsOver (reads : PropertyReads) (m : Machine) (result : Except Interrupt Value)
    (below : List Waiting) (n : Nat) : Prop where
  arrives : ∃ w, m.steps reads n = ⟨.deliver result, below, w⟩
  still : ∀ k ≤ n, ∀ a, (m.steps reads k).control ≠ .code a

/-- An error is handed to what waits below, unless native code is refused something on the way. -/
def PassesOut (reads : PropertyReads) (m : Machine) (e : RuntimeError) (below : List Waiting) :
    Prop :=
  ∃ n, m.HandsOver reads (.error (.error e)) below n ∨
    (m.HandsOver reads (.error .crash) below n ∧ ∃ k < n, (m.steps reads k).Refused)

variable {reads : PropertyReads} {m : Machine} {e : RuntimeError} {chain rest : List Waiting}
  {w : World} {result : Except Interrupt Value} {n : Nat}

theorem HandsOver.of_step (later : (m.step reads).HandsOver reads result rest n)
    (now : ∀ a, m.control ≠ .code a) : m.HandsOver reads result rest (n + 1) where
  arrives := later.arrives
  still := by
    intro k hk
    cases k with
    | zero => exact now
    | succ k => exact later.still k (Nat.le_of_succ_le_succ hk)

theorem PassesOut.of_step (later : (m.step reads).PassesOut reads e rest)
    (now : ∀ a, m.control ≠ .code a) : m.PassesOut reads e rest := by
  obtain ⟨n, arrives | ⟨crashes, k, hk, refused⟩⟩ := later
  · exact ⟨n + 1, .inl (arrives.of_step now)⟩
  · exact ⟨n + 1, .inr ⟨crashes.of_step now, k + 1, Nat.succ_lt_succ hk, refused⟩⟩

/-- Nothing handles a crash. -/
theorem exists_handsOver_crash (reads : PropertyReads) (chain rest : List Waiting) (w : World) :
    ∃ n, HandsOver reads ⟨.deliver (.error .crash), chain ++ rest, w⟩ (.error .crash) rest n := by
  induction chain generalizing w with
  | nil =>
    refine ⟨0, ⟨w, rfl⟩, ?_⟩
    intro k hk a
    obtain rfl := Nat.le_zero.mp hk
    nofun
  | cons first chain ih =>
    cases first with
    | code a =>
      obtain ⟨n, later⟩ := ih (w.leave a.unit.loader)
      exact ⟨n + 1, later.of_step fun _ => nofun⟩
    | native next =>
      obtain ⟨n, later⟩ := ih w
      exact ⟨n + 1, later.of_step fun _ => nofun⟩

/-- Native code that is answered goes on; if it is refused, the run crashes. -/
theorem passesOut_resume {α : Type} {p : Native} {next : α → Native} {answer : Option α × World}
    (step_eq : step reads ⟨.native p, chain ++ rest, w⟩ =
      ⟨(resume next answer).1, chain ++ rest, (resume next answer).2⟩)
    (refused : answer.1 = none → p.Refused w)
    (later : ∀ a w, PassesOut reads ⟨.native (next a), chain ++ rest, w⟩ e rest) :
    PassesOut reads ⟨.native p, chain ++ rest, w⟩ e rest := by
  obtain ⟨_ | a, w'⟩ := answer
  · obtain ⟨n, crashes⟩ := exists_handsOver_crash reads chain rest w'
    have first :
        HandsOver reads (step reads ⟨.native p, chain ++ rest, w⟩) (.error .crash) rest n :=
      step_eq ▸ crashes
    exact ⟨n + 1, .inr ⟨first.of_step fun _ => nofun, 0, Nat.succ_pos n, p, rfl, refused rfl⟩⟩
  · have first : PassesOut reads (step reads ⟨.native p, chain ++ rest, w⟩) e rest :=
      step_eq ▸ later a w'
    exact first.of_step fun _ => nofun

theorem passesOut_native
    (out : ∀ w, PassesOut reads ⟨.deliver (.error (.error e)), chain ++ rest, w⟩ e rest)
    {p : Native} (passes : p.PassesOn e) (w : World) :
    PassesOut reads ⟨.native p, chain ++ rest, w⟩ e rest := by
  induction passes generalizing w with
  | done => exact (out w).of_step fun _ => nofun
  | perform action next _ later =>
    exact passesOut_resume rfl (fun none => .perform action next none) later
  | newFunction name spec next _ later =>
    exact passesOut_resume rfl (fun none => .newFunction name spec next none) later
  | defineNative l id name spec next _ later =>
    exact passesOut_resume rfl (fun none => .defineNative l id name spec next none) later

/-- An error that is on its way leaves a chain of calls as it was. -/
theorem passesOut_deliver (reads : PropertyReads) (passes : ∀ x ∈ chain, x.PassesOn e) (w : World) :
    PassesOut reads ⟨.deliver (.error (.error e)), chain ++ rest, w⟩ e rest := by
  induction chain generalizing w with
  | nil =>
    refine ⟨0, .inl ⟨⟨w, rfl⟩, ?_⟩⟩
    intro k hk a
    obtain rfl := Nat.le_zero.mp hk
    nofun
  | cons first chain ih =>
    have out := ih fun x hx => passes x (List.mem_cons_of_mem _ hx)
    cases first with
    | code a => exact (out (w.leave a.unit.loader)).of_step fun _ => nofun
    | native next =>
      have returns : (next (.error e)).PassesOn e := passes _ List.mem_cons_self
      exact (passesOut_native out returns w).of_step fun _ => nofun

theorem step_of_raises {below : List Waiting} (raises : m.Raises reads e below) :
    ∃ w, m.step reads = ⟨.deliver (.error (.error e)), below, w⟩ := by
  cases raises with
  | invoke callee receiver args _ w _ refused =>
    refine ⟨(invoke w callee receiver args).2, ?_⟩
    rw [step]
    dsimp only
    rw [refused]
  | code a _ w _ failed =>
    rw [step]
    generalize a.step reads w = stepped at failed
    obtain ⟨effect, w'⟩ := stepped
    obtain rfl : effect = .finish (.error (.error e)) := failed
    exact ⟨_, rfl⟩
  | result a v _ w _ full =>
    refine ⟨w.leave a.unit.loader, ?_⟩
    have bound : (Except.ok v : Except Interrupt Value).bind a.push = .error (.error e) := full
    rw [step, bound]
  | native => exact ⟨_, rfl⟩
  | foreign => exact ⟨_, rfl⟩

end Machine

/-- An error that is raised innermost in a chain of calls, of units and of native functions that
return the error of what they have called as it is, leaves the whole chain as it was raised: the
same error, and for a foreign error the one failure that has its text and the error itself as its
cause. No call into a unit goes on meanwhile. The only other way out is a crash, when native code on
the way asks for what does not exist. -/
theorem error_leaves_chain {reads : PropertyReads} {m : Machine} {e : RuntimeError}
    {chain rest : List Waiting} (raises : m.Raises reads e (chain ++ rest))
    (passes : ∀ x ∈ chain, x.PassesOn e) :
    ∃ n result w, m.steps reads (n + 1) = ⟨.deliver result, rest, w⟩ ∧
      (∀ k ≤ n, ∀ a, (m.steps reads (k + 1)).control ≠ .code a) ∧
      (result = .error (.error e) ∨
        (result = .error .crash ∧ ∃ k < n, (m.steps reads (k + 1)).Refused)) := by
  obtain ⟨w, first⟩ := Machine.step_of_raises raises
  obtain ⟨n, outcome⟩ := Machine.passesOut_deliver reads passes w
  rw [← first] at outcome
  rcases outcome with ⟨⟨w', arrives⟩, still⟩ | ⟨⟨⟨w', arrives⟩, still⟩, refused⟩
  · exact ⟨n, _, w', arrives, still, .inl rfl⟩
  · exact ⟨n, _, w', arrives, still, .inr ⟨rfl, refused⟩⟩

/-- The payload of a unit that calls a function by its identifier, with a blank digest. -/
def callingPayload (name callee : UInt8) : List UInt8 :=
  Payload.magic ++ [1, 0] ++ [1, 0, 0, 0, name] ++ [0, 0, 0, 0] ++
    [1, 0, 0, 0, 2, 1, 0, 0, 0, callee] ++ [7, 0, 0, 0, 9, 0, 0, 1, 10, 0, 21] ++
    List.replicate 32 0

/-- Returns what a call has returned, errors as they are. -/
def returning : Except RuntimeError Value → Native
  | .ok v => .done (.ok v)
  | .error e => .done (.error (.runtime e))

/-- An error of the host's own, with another one behind it. -/
def diskFull : ForeignError where
  text := "disk full"
  source := some (.foreign "no space left on device")
  identity := 7

/-- The failure that is made of it. -/
def diskFailure : RuntimeError := .failure "disk full" (some (.foreign diskFull))

/-- The unit `f` calls the native function `m`, which calls the unit `g`, which calls the native
function `n`, which fails with a foreign error. -/
def failing : Native :=
  .perform .newDictionary fun d =>
  .perform (.newObject none) fun o =>
  .perform (.newLoader { verifyChecksum := false } d o) fun l =>
  .defineNative l "n" "n" (.variadic fun _ => .done (.error (.foreign diskFull))) fun _ =>
  .perform (.load l "g" (callingPayload 103 110)) fun _ =>
  .defineNative l "m" "m" (.variadic fun _ => .call 2 .undefined [] returning) fun _ =>
  .perform (.load l "f" (callingPayload 102 109)) fun _ =>
    .call 4 .undefined [] fun _ => .done (.ok .undefined)

/-- The moment at which the innermost call fails. -/
def failure : Machine := (Machine.running .empty failing).steps .cached 19

/-- Two units and a native function wait for the innermost call, and host code for them. -/
theorem error_leaves_chain_failing :
    ∃ n result w, failure.steps .cached (n + 1) = ⟨.deliver result, failure.waiting.drop 3, w⟩ ∧
      (∀ k ≤ n, ∀ a, (failure.steps .cached (k + 1)).control ≠ .code a) ∧
      (result = .error (.error (.failure "disk full" (some (.foreign diskFull)))) ∨
        (result = .error .crash ∧ ∃ k < n, (failure.steps .cached (k + 1)).Refused)) := by
  have raised : (match failure.control with
      | .native (.done (.error (.foreign error))) => some error
      | _ => none) = some diskFull := by decide +kernel
  have returns : (failure.waiting.take 3).all (·.returnsAtOnce diskFailure) = true := by
    decide +kernel
  have passes : ∀ x ∈ failure.waiting.take 3, x.PassesOn diskFailure :=
    fun x hx => Waiting.passesOn_of_returnsAtOnce (List.all_eq_true.mp returns x hx)
  have raises : failure.Raises .cached diskFailure
      (failure.waiting.take 3 ++ failure.waiting.drop 3) := by
    rw [List.take_append_drop]
    generalize failure = m at raised
    obtain ⟨control, waiting, w⟩ := m
    split at raised
    · rename_i found
      cases raised
      obtain rfl : control = _ := found
      exact .foreign waiting w diskFull
    · cases raised
  exact error_leaves_chain raises passes

end ProtoVM
