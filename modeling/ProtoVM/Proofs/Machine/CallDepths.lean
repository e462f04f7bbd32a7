import Mathlib
import ProtoVM.Proofs.Machine.Passages

/-!
# The depth of calls

A loader counts the calls into its units that are under way. A step of a machine stays within the
calls that are under way, enters one, or leaves one (`Passage`), and the count of the loader goes
with it. So the count is right at every moment, however calls are nested and however they end.
-/

namespace ProtoVM

namespace Machine

variable {m m' : Machine} {reads : PropertyReads}

/-- The loaders of the calls that are under way, innermost first. -/
def callers (m : Machine) : List LoaderId := m.activations.map (·.unit.loader)

/-- The number of calls into units of a loader that are under way. -/
def depthOf (m : Machine) (l : LoaderId) : Nat := m.callers.count l

theorem callers_eq (m : Machine) : m.callers = m.calls.map (·.unit.loader) := by
  rw [callers, calls, List.map_map]
  rfl

/-! ## The count -/

/-- Every loader has counted the calls into its units that are under way, and is within its
limit. -/
structure Counted (m : Machine) : Prop where
  depth : ∀ (l : LoaderId) (loader : Loader), m.world.loaders[l]? = some loader →
    loader.depth = m.depthOf l
  limit : ∀ (l : LoaderId) (loader : Loader), m.world.loaders[l]? = some loader →
    loader.depth ≤ loader.config.maxCallDepth.toNat
  known : ∀ l ∈ m.callers, ∃ loader, m.world.loaders[l]? = some loader

theorem counted_running (p : Native) : (running .empty p).Counted where
  depth := fun _ _ found => nomatch found
  limit := fun _ _ found => nomatch found
  known := fun _ mem => nomatch mem

theorem Counted.within (h : m.Counted) (callers : m'.callers = m.callers)
    (loaders : m.world.KeepsLoaders m'.world) : m'.Counted := by
  -- a loader that was there before has kept its count; a new one has no calls to count
  have before (l : LoaderId) (loader : Loader) (found : m'.world.loaders[l]? = some loader) :
      loader.depth = m'.depthOf l ∧ loader.depth ≤ loader.config.maxCallDepth.toNat := by
    rw [depthOf, callers]
    cases was : m.world.loaders[l]? with
    | none =>
      have none_under_way : l ∉ m.callers := by
        intro mem
        obtain ⟨other, found⟩ := h.known l mem
        rw [was] at found
        cases found
      rw [loaders.new l loader found was, List.count_eq_zero.mpr none_under_way]
      exact ⟨rfl, Nat.zero_le _⟩
    | some old =>
      obtain ⟨loaded, kept⟩ := loaders.old l old was
      obtain rfl := Option.some.inj (found.symm.trans kept)
      exact ⟨h.depth l old was, h.limit l old was⟩
  refine ⟨fun l loader found => (before l loader found).1,
    fun l loader found => (before l loader found).2, ?_⟩
  intro l mem
  rw [callers] at mem
  obtain ⟨loader, found⟩ := h.known l mem
  obtain ⟨loaded, kept⟩ := loaders.old l loader found
  exact ⟨_, kept⟩

theorem Counted.enters (h : m.Counted) {l : LoaderId} {loader : Loader}
    (found : m.world.loaders[l]? = some loader)
    (room : loader.depth < loader.config.maxCallDepth.toNat)
    (callers : m'.callers = l :: m.callers)
    (loaders : m'.world.loaders =
      (m.world.mapLoader l fun loader => { loader with depth := loader.depth + 1 }).loaders) :
    m'.Counted := by
  have after (other : LoaderId) : m'.world.loaders[other]? =
      if l = other then some { loader with depth := loader.depth + 1 }
      else m.world.loaders[other]? := by
    rw [loaders, World.loaders_mapLoader]
    by_cases same : l = other
    · subst same
      rw [if_pos rfl, if_pos rfl, found]
      rfl
    · rw [if_neg same, if_neg same]
  have counts (other : LoaderId) (loader' : Loader)
      (found' : m'.world.loaders[other]? = some loader') :
      loader'.depth = m'.depthOf other ∧ loader'.depth ≤ loader'.config.maxCallDepth.toNat := by
    rw [after] at found'
    rw [depthOf, callers]
    by_cases same : l = other
    · subst same
      rw [if_pos rfl] at found'
      obtain rfl := Option.some.inj found'
      rw [List.count_cons_self]
      exact ⟨congrArg (· + 1) (h.depth l loader found), room⟩
    · rw [if_neg same] at found'
      rw [List.count_cons_of_ne same]
      exact ⟨h.depth other loader' found', h.limit other loader' found'⟩
  refine ⟨fun l loader found => (counts l loader found).1,
    fun l loader found => (counts l loader found).2, ?_⟩
  intro other mem
  rw [after]
  by_cases same : l = other
  · rw [if_pos same]
    exact ⟨_, rfl⟩
  · rw [callers] at mem
    rw [if_neg same]
    exact h.known other ((List.mem_cons.mp mem).resolve_left (Ne.symm same))

theorem Counted.leaves (h : m.Counted) {l : LoaderId} (callers : m.callers = l :: m'.callers)
    (loaders : m'.world.loaders = (m.world.leave l).loaders) : m'.Counted := by
  obtain ⟨loader, found⟩ := h.known l (callers ▸ List.mem_cons_self)
  have after (other : LoaderId) : m'.world.loaders[other]? =
      if l = other then some { loader with depth := loader.depth - 1 }
      else m.world.loaders[other]? := by
    rw [loaders, World.leave, World.loaders_mapLoader]
    by_cases same : l = other
    · subst same
      rw [if_pos rfl, if_pos rfl, found]
      rfl
    · rw [if_neg same, if_neg same]
  have counts (other : LoaderId) (loader' : Loader)
      (found' : m'.world.loaders[other]? = some loader') :
      loader'.depth = m'.depthOf other ∧ loader'.depth ≤ loader'.config.maxCallDepth.toNat := by
    rw [after] at found'
    rw [depthOf]
    by_cases same : l = other
    · subst same
      rw [if_pos rfl] at found'
      obtain rfl := Option.some.inj found'
      have depth := h.depth l loader found
      have limit := h.limit l loader found
      rw [depthOf, callers, List.count_cons_self] at depth
      dsimp only
      omega
    · rw [if_neg same] at found'
      have depth := h.depth other loader' found'
      rw [depthOf, callers, List.count_cons_of_ne same] at depth
      exact ⟨depth, h.limit other loader' found'⟩
  refine ⟨fun l loader found => (counts l loader found).1,
    fun l loader found => (counts l loader found).2, ?_⟩
  intro other mem
  rw [after]
  by_cases same : l = other
  · rw [if_pos same]
    exact ⟨_, rfl⟩
  · rw [if_neg same]
    exact h.known other (callers ▸ List.mem_cons_of_mem _ mem)

theorem counted_step (h : m.Counted) (reads : PropertyReads) : (m.step reads).Counted := by
  cases passage_step m reads with
  | within calls loaders => exact h.within (by rw [callers_eq, callers_eq, calls]) loaders
  | enters unit loader callee receiver args called found closed arity room control waiting world =>
    refine h.enters found room ?_ (loaders_of_enters room world)
    rw [callers, callers, activations, activations, control, waiting, called]
    rfl
  | leaves a calls loaders => exact h.leaves (by rw [callers_eq, callers_eq, calls]; rfl) loaders

theorem counted_steps (h : m.Counted) (reads : PropertyReads) (n : Nat) :
    (m.steps reads n).Counted := by
  induction n generalizing m with
  | zero => exact h
  | succ n ih => exact ih (counted_step h reads)

/-! ## Entering a unit -/

/-- The machine is about to enter a unit of a loader: all that the call is made with exists, and it
passes what the unit takes. -/
structure Enters (m : Machine) (unit : BoundUnit) (loader : Loader) : Prop where
  call : ∃ callee receiver args, m.control = .invoke callee receiver args ∧
    m.world.heap.contains callee ∧ (∀ v ∈ receiver :: args, m.world.heap.closed v) ∧
    m.world.heap.handle callee = .interpreted unit ∧ args.length = unit.unit.parameters.length
  loader : m.world.loaders[unit.loader]? = some loader

theorem invoke_of_interpreted {w : World} {callee : ObjectId} {receiver : Value}
    {args : List Value} {unit : BoundUnit} (present : w.heap.contains callee)
    (closed : ∀ v ∈ receiver :: args, w.heap.closed v)
    (handle : w.heap.handle callee = .interpreted unit)
    (arity : args.length = unit.unit.parameters.length) :
    invoke w callee receiver args = enter w unit receiver args := by
  have exist : (w.heap.contains callee && (receiver :: args).all w.heap.closed) = true := by
    rw [present, Bool.true_and]
    exact List.all_eq_true.mpr closed
  have fits : checkArity (.interpreted unit) args = .ok () := by
    simp [checkArity, Handle.arity?, arity]
  simp only [invoke, exist, handle, fits, Bool.not_true, Bool.false_eq_true, if_false]

/-- At its limit a loader lets no call in. -/
theorem control_step_of_full (reads : PropertyReads) {unit : BoundUnit} {loader : Loader}
    (enters : m.Enters unit loader) (full : loader.config.maxCallDepth.toNat ≤ loader.depth) :
    (m.step reads).control =
      .deliver (.error (.error (.fault (.callDepth loader.config.maxCallDepth.toNat)))) := by
  obtain ⟨⟨callee, receiver, args, at_, present, closed, handle, arity⟩, found⟩ := enters
  obtain ⟨control, waiting, w⟩ := m
  obtain rfl : control = .invoke callee receiver args := at_
  have found' : w.loaders[unit.loader]? = some loader := found
  have refused : w.enter unit.loader loader =
      (.error (.callDepth loader.config.maxCallDepth.toNat), w) := if_pos full
  simp only [step, invoke_of_interpreted present closed handle arity, enter, found', refused]

/-- Below its limit a loader lets a call in. -/
theorem control_step_of_room (reads : PropertyReads) {unit : BoundUnit} {loader : Loader}
    (enters : m.Enters unit loader) (room : loader.depth < loader.config.maxCallDepth.toNat) :
    ∃ a, (m.step reads).control = .code a ∧ a.unit = unit := by
  obtain ⟨⟨callee, receiver, args, at_, present, closed, handle, arity⟩, found⟩ := enters
  obtain ⟨control, waiting, w⟩ := m
  obtain rfl : control = .invoke callee receiver args := at_
  have found' : w.loaders[unit.loader]? = some loader := found
  have entered : w.enter unit.loader loader = (.ok (), w.mapLoader unit.loader
      fun loader => { loader with depth := loader.depth + 1 }) := if_neg (Nat.not_le_of_lt room)
  refine ⟨(Activation.start unit loader receiver args (w.mapLoader unit.loader
      fun loader => { loader with depth := loader.depth + 1 })).1, ?_, rfl⟩
  simp only [step, invoke_of_interpreted present closed handle arity, enter, found', entered]

/-! ## The count at every moment -/

/-- What the counts of the loaders are at a moment of a run. -/
structure Balanced (reads : PropertyReads) (m : Machine) : Prop where
  /-- A loader counts the calls into its units that are under way. -/
  depth : ∀ (l : LoaderId) (loader : Loader), m.world.loaders[l]? = some loader →
    loader.depth = m.depthOf l
  limit : ∀ (l : LoaderId) (loader : Loader), m.world.loaders[l]? = some loader →
    loader.depth ≤ loader.config.maxCallDepth.toNat
  /-- What can end has been counted, so that the count never goes below zero. -/
  positive : ∀ a ∈ m.activations, ∃ loader, m.world.loaders[a.unit.loader]? = some loader ∧
    0 < loader.depth
  /-- A call into a unit fails for its depth exactly when the loader is at its limit; otherwise it
  is entered. -/
  full : ∀ unit loader, m.Enters unit loader →
    ((m.step reads).control =
        .deliver (.error (.error (.fault (.callDepth loader.config.maxCallDepth.toNat)))) ↔
      m.depthOf unit.loader = loader.config.maxCallDepth.toNat) ∧
    (m.depthOf unit.loader ≠ loader.config.maxCallDepth.toNat →
      ∃ a, (m.step reads).control = .code a ∧ a.unit = unit)
  /-- When a call has returned, with whatever result, all counts are what they were before it. -/
  returned : ∀ callee receiver args, m.control = .invoke callee receiver args →
    ∀ k result, (m.steps reads k).control = .deliver result →
      (m.steps reads k).waiting = m.waiting →
    ∀ (l : LoaderId) (loader : Loader), m.world.loaders[l]? = some loader →
      ∃ loader', (m.steps reads k).world.loaders[l]? = some loader' ∧ loader'.depth = loader.depth

/-- A loader is never given up. -/
theorem exists_loader_steps (reads : PropertyReads) {l : LoaderId} {loader : Loader}
    (found : m.world.loaders[l]? = some loader) (k : Nat) :
    ∃ loader', (m.steps reads k).world.loaders[l]? = some loader' := by
  induction k generalizing m loader with
  | zero => exact ⟨loader, found⟩
  | succ k ih =>
    obtain ⟨next, there, -⟩ := exists_loader_step reads found
    exact ih there

theorem Counted.balanced (h : m.Counted) (reads : PropertyReads) : m.Balanced reads where
  depth := h.depth
  limit := h.limit
  positive := by
    intro a mem
    have calls : a.unit.loader ∈ m.callers := List.mem_map_of_mem mem
    obtain ⟨loader, found⟩ := h.known _ calls
    refine ⟨loader, found, ?_⟩
    rw [h.depth _ _ found]
    exact List.count_pos_iff.mpr calls
  full := by
    intro unit loader enters
    have depth := h.depth _ _ enters.loader
    have limit := h.limit _ _ enters.loader
    rw [← depth]
    refine ⟨⟨?_, fun same => control_step_of_full reads enters (Nat.le_of_eq same.symm)⟩, ?_⟩
    · intro failed
      rcases Nat.lt_or_eq_of_le limit with room | same
      · obtain ⟨a, entered, -⟩ := control_step_of_room reads enters room
        rw [entered] at failed
        cases failed
      · exact same
    · intro different
      exact control_step_of_room reads enters (Nat.lt_of_le_of_ne limit different)
  returned := by
    intro callee receiver args called k result delivered same l loader found
    obtain ⟨loader', found'⟩ := exists_loader_steps reads found k
    refine ⟨loader', found', ?_⟩
    -- the calls under way are those that wait, before the call and after it
    have callers : (m.steps reads k).callers = m.callers := by
      rw [Machine.callers, Machine.callers, activations, activations, delivered, called, same]
      rfl
    rw [(counted_steps h reads k).depth l loader' found', h.depth l loader found, depthOf, callers]
    rfl

end Machine

/-- Host code makes any loaders, over any dictionaries, and calls into their units, and the units
and the native code they reach call on. At every moment each loader has counted the calls into its
own units that are under way; it lets in no more than its limit; and a call that has returned has
left no trace in the counts. -/
theorem balanced_steps (p : Native) (reads : PropertyReads) (n : Nat) :
    ((Machine.running .empty p).steps reads n).Balanced reads :=
  (Machine.counted_steps (Machine.counted_running p) reads n).balanced reads

/-- A unit that calls itself without end. -/
def recursive : CodeUnit := ⟨"f", [], [.str "f"], [9, 0, 0, 1, 10, 0, 21]⟩

/-- The payload of the unit, with a blank digest. -/
def recursivePayload : List UInt8 :=
  Payload.magic ++ [1, 0] ++ [1, 0, 0, 0, 102] ++ [0, 0, 0, 0] ++
    [1, 0, 0, 0, 2, 1, 0, 0, 0, 102] ++ [7, 0, 0, 0, 9, 0, 0, 1, 10, 0, 21] ++
    List.replicate 32 0

/-- The unit is loaded by a loader that lets in one call at a time, and called. -/
def recursing : Native :=
  .perform .newDictionary fun d =>
  .perform (.newObject none) fun o =>
  .perform (.newLoader { verifyChecksum := false, maxCallDepth := 1 } d o) fun l =>
  .perform (.load l "f" recursivePayload) fun
    | .error _ => .done (.ok .undefined)
    | .ok f => .call f .undefined [] fun _ => .done (.ok .undefined)

/-- The first call has been entered, and the next one is to be made. -/
def recursed : Machine := (Machine.running .empty recursing).steps .cached 9

theorem balanced_steps_recursed :
    (recursed.step .cached).control = .deliver (.error (.error (.fault (.callDepth 1)))) := by
  have reached : (fun m : Machine => (m.control, m.world.heap.contains 1,
        [Value.undefined].all m.world.heap.closed, (m.world.heap.handle 1).unit?,
        m.world.loaders[0]?, m.depthOf 0)) recursed =
      (.invoke 1 .undefined [], true, true, some ⟨0, "f", recursive, 0⟩,
        some ⟨⟨false, 1, 4096⟩, 0, 0, 1, ["f"]⟩, 1) := by cbv
  simp only [Prod.mk.injEq] at reached
  obtain ⟨control, present, closed, handle, loader, entered⟩ := reached
  have handle' : recursed.world.heap.handle 1 = .interpreted ⟨0, "f", recursive, 0⟩ := by
    cases made : recursed.world.heap.handle 1 with
    | interpreted unit =>
      rw [made] at handle
      exact congrArg Handle.interpreted (Option.some.inj handle)
    | _ =>
      rw [made] at handle
      cases handle
  have enters : recursed.Enters ⟨0, "f", recursive, 0⟩ ⟨⟨false, 1, 4096⟩, 0, 0, 1, ["f"]⟩ :=
    ⟨⟨1, .undefined, [], control, present, List.all_eq_true.mp closed, handle', rfl⟩, loader⟩
  exact ((balanced_steps recursing .cached 9).full _ _ enters).1.mpr entered

end ProtoVM
