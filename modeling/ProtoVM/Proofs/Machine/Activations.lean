import ProtoVM.Machine.Run

/-!
# The activations of a machine

The calls into units that a machine has under way: the one it is at and those that wait. A step
starts a call at offset zero, lets the one it is at go on, hands a result to one that waits, or ends
one; it touches no other.
-/

namespace ProtoVM

/-- The activation that a machine is at. -/
def Control.activation? : Control → Option Activation
  | .code a => some a
  | _ => none

theorem Control.activation?_eq_some_iff {control : Control} {a : Activation} :
    control.activation? = some a ↔ control = .code a := by
  cases control <;> simp [activation?]

/-- The activation that waits. -/
def Waiting.activation? : Waiting → Option Activation
  | .code a => some a
  | .native _ => none

namespace Machine

/-- The calls into units that are under way. -/
def activations (m : Machine) : List Activation :=
  m.control.activation?.toList ++ m.waiting.filterMap (·.activation?)

@[simp] theorem mem_activations {m : Machine} {a : Activation} :
    a ∈ m.activations ↔ m.control = .code a ∨ .code a ∈ m.waiting := by
  obtain ⟨control, waiting, w⟩ := m
  have later : (∃ x ∈ waiting, x.activation? = some a) ↔ .code a ∈ waiting := by
    constructor
    · rintro ⟨x, hx, found⟩
      cases x with
      | code b => cases found; exact hx
      | native next => cases found
    · intro h
      exact ⟨_, h, rfl⟩
  simp [activations, Control.activation?_eq_some_iff, later]

/-! ## Starting a call -/

/-- A call that is started: it is refused, it enters native code, or it enters a unit, which is
counted while there is room for it. All objects it is made with exist. -/
inductive Started (w : World) (callee : ObjectId) (receiver : Value) (args : List Value) :
    Control × World → Prop
  | refused (i : Interrupt) : Started w callee receiver args (.deliver (.error i), w)
  | native (entry : NativeEntry)
      (handle : (∃ arity, w.heap.handle callee = .fixed arity entry) ∨
        w.heap.handle callee = .variadic entry) :
      Started w callee receiver args (.native (entry (receiver :: args)), w)
  | code (unit : BoundUnit) (loader : Loader) (handle : w.heap.handle callee = .interpreted unit)
      (found : w.loaders[unit.loader]? = some loader)
      (closed : ∀ v ∈ receiver :: args, w.heap.closed v)
      (arity : args.length = unit.unit.parameters.length)
      (room : loader.depth < loader.config.maxCallDepth.toNat) :
      Started w callee receiver args
        (.code (Activation.start unit loader receiver args (w.enter unit.loader loader).2).1,
          (Activation.start unit loader receiver args (w.enter unit.loader loader).2).2)

theorem started_enter {w : World} {callee : ObjectId} {receiver : Value} {args : List Value}
    {unit : BoundUnit} (handle : w.heap.handle callee = .interpreted unit)
    (closed : ∀ v ∈ receiver :: args, w.heap.closed v)
    (arity : args.length = unit.unit.parameters.length) :
    Started w callee receiver args (enter w unit receiver args) := by
  rw [enter]
  cases found : w.loaders[unit.loader]? with
  | none => exact .refused _
  | some loader =>
    by_cases deep : loader.config.maxCallDepth.toNat ≤ loader.depth
    · have full : w.enter unit.loader loader =
          (.error (.callDepth loader.config.maxCallDepth.toNat), w) := if_pos deep
      simp only [full]
      exact .refused _
    · have entered : w.enter unit.loader loader = (.ok (), w.mapLoader unit.loader
          fun loader => { loader with depth := loader.depth + 1 }) := if_neg deep
      have started := Started.code unit loader handle found closed arity (Nat.lt_of_not_le deep)
      rw [entered] at started
      simp only [entered]
      exact started

theorem started_invoke (w : World) (callee : ObjectId) (receiver : Value) (args : List Value) :
    Started w callee receiver args (invoke w callee receiver args) := by
  rw [invoke]
  by_cases present : !(w.heap.contains callee && (receiver :: args).all w.heap.closed)
  · rw [if_pos present]
    exact .refused _
  · rw [if_neg present]
    have closed : ∀ v ∈ receiver :: args, w.heap.closed v := by
      simp only [Bool.not_eq_true, Bool.not_eq_false', Bool.and_eq_true] at present
      exact List.all_eq_true.mp present.2
    dsimp only
    cases arity : checkArity (w.heap.handle callee) args with
    | error e => exact .refused _
    | ok _ =>
      dsimp only
      cases handle : w.heap.handle callee with
      | inert => exact .refused _
      | fixed count entry => exact .native entry (.inl ⟨count, handle⟩)
      | variadic entry => exact .native entry (.inr handle)
      | interpreted unit =>
        have same : unit.unit.parameters.length = args.length := by
          simpa [handle, checkArity, Handle.arity?] using arity
        exact started_enter handle closed same.symm

/-! ## Steps -/

/-- Where an activation comes from that is under way after a step. -/
inductive Origin (reads : PropertyReads) (m : Machine) (b : Activation) : Prop
  | waits (before : b ∈ m.activations)
  | goesOn (a : Activation) (at_ : m.control = .code a)
      (effect : (a.step reads m.world).1 = .next b)
  | calls (a : Activation) (callee : ObjectId) (receiver : Value) (args : List Value)
      (at_ : m.control = .code a)
      (effect : (a.step reads m.world).1 = .call b callee receiver args)
  | resumes (a : Activation) (before : a ∈ m.activations) (v : Value) (pushed : a.push v = .ok b)
  | starts (unit : BoundUnit) (loader : Loader) (receiver : Value) (args : List Value) (w : World)
      (start : b = (Activation.start unit loader receiver args w).1)

/-- Native code that was answered goes on, or is given up. -/
theorem resume_ne_code {α : Type} (next : α → Native) (answer : Option α × World)
    (b : Activation) : (resume next answer).1 ≠ .code b := by
  obtain ⟨_ | a, w⟩ := answer
  · nofun
  · nofun

theorem origin_of_mem_step {reads : PropertyReads} {m : Machine} {b : Activation}
    (hb : b ∈ (m.step reads).activations) : Origin reads m b := by
  obtain ⟨control, waiting, w⟩ := m
  -- whatever waits after the step and did not before is the activation that makes a call
  have later (c : Control) (w' : World) (hc : c ≠ .code b)
      (h : b ∈ (⟨c, waiting, w'⟩ : Machine).activations) :
      Origin reads ⟨control, waiting, w⟩ b := by
    rcases mem_activations.mp h with h | h
    · exact absurd h hc
    · exact .waits (mem_activations.mpr (.inr h))
  cases control with
  | invoke callee receiver args =>
    have started := started_invoke w callee receiver args
    rw [step] at hb
    generalize invoke w callee receiver args = result at started hb
    cases started with
    | refused i => exact later _ _ (by simp) hb
    | native entry handle => exact later _ _ (by simp) hb
    | code unit loader handle found closed =>
      rcases mem_activations.mp hb with h | h
      · exact .starts unit loader receiver args _ (Control.code.inj h).symm
      · exact .waits (mem_activations.mpr (.inr h))
  | code a =>
    have here : (⟨.code a, waiting, w⟩ : Machine).control = .code a := rfl
    rw [step] at hb
    generalize stepped : a.step reads w = result at hb
    obtain ⟨effect, w'⟩ := result
    have effect_eq : (a.step reads w).1 = effect := by rw [stepped]
    cases effect with
    | next c =>
      rcases mem_activations.mp hb with h | h
      · cases h
        exact .goesOn a here effect_eq
      · exact .waits (mem_activations.mpr (.inr h))
    | call c callee receiver args =>
      rcases mem_activations.mp hb with h | h
      · cases h
      · rcases List.mem_cons.mp h with h | h
        · cases h
          exact .calls a callee receiver args here effect_eq
        · exact .waits (mem_activations.mpr (.inr h))
    | finish result => exact later _ _ (by simp) hb
  | native p =>
    cases p with
    | done result => exact later _ _ (by simp) hb
    | perform action next => exact later _ _ (resume_ne_code next _ b) hb
    | call callee receiver args next =>
      rcases mem_activations.mp hb with h | h
      · cases h
      · rcases List.mem_cons.mp h with h | h
        · cases h
        · exact .waits (mem_activations.mpr (.inr h))
    | newFunction name handle next => exact later _ _ (resume_ne_code next _ b) hb
    | defineNative l id name handle next => exact later _ _ (resume_ne_code next _ b) hb
  | deliver result =>
    cases waiting with
    | nil => exact later _ _ (by simp) hb
    | cons first waiting =>
      have below (c : Control) (w' : World) (hc : c ≠ .code b)
          (h : b ∈ (⟨c, waiting, w'⟩ : Machine).activations) :
          Origin reads ⟨.deliver result, first :: waiting, w⟩ b := by
        rcases mem_activations.mp h with h | h
        · exact absurd h hc
        · exact .waits (mem_activations.mpr (.inr (List.mem_cons_of_mem _ h)))
      cases first with
      | code a =>
        rw [step] at hb
        cases pushed : result.bind a.push with
        | error i =>
          simp only [pushed] at hb
          exact below _ _ (by simp) hb
        | ok c =>
          simp only [pushed] at hb
          rcases mem_activations.mp hb with h | h
          · cases h
            cases result with
            | error i => cases pushed
            | ok v => exact .resumes a (mem_activations.mpr (.inr List.mem_cons_self)) v pushed
          · exact .waits (mem_activations.mpr (.inr (List.mem_cons_of_mem _ h)))
      | native next =>
        cases result with
        | ok v => exact below _ _ (by simp) hb
        | error i =>
          cases i with
          | error e => exact below _ _ (by simp) hb
          | crash => exact below _ _ (by simp) hb

/-! ## Runs -/

/-- A run goes on from where its first part has led. -/
theorem steps_add (reads : PropertyReads) (k n : Nat) (m : Machine) :
    m.steps reads (k + n) = (m.steps reads k).steps reads n := by
  induction k generalizing m with
  | zero => rw [Nat.zero_add, steps]
  | succ k ih =>
    rw [Nat.succ_add]
    exact ih (m.step reads)

theorem steps_succ_eq (reads : PropertyReads) (n : Nat) (m : Machine) :
    m.steps reads (n + 1) = (m.steps reads n).step reads := steps_add reads n 1 m

end Machine

end ProtoVM
