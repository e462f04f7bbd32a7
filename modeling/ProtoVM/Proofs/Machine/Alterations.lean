import ProtoVM.Proofs.Machine.ScopeBindings
import ProtoVM.Proofs.Object.TokenRuns

/-!
# Alterations of objects

A step of a machine alters an object that exists when it sets one of its keys or invalidates a token
of it that is valid (`Machine.Alters`). Any other step leaves the object as it is: new objects are
filled while nothing else can name them. An alteration is counted, so that the count of an object
tells of a run whether there was one.
-/

namespace ProtoVM

/-! ## Heaps -/

namespace Heap

variable {h : Heap} {o : ObjectId}

theorem get?_invalidate {t : Token} (spared : ¬ (t.owner = o ∧ h.isValid t)) :
    (h.invalidate t).get? o = h.get? o := by
  unfold invalidate
  by_cases valid : h.isValid t
  · have other : o ≠ t.owner := fun same => spared ⟨same.symm, valid⟩
    simp [valid, get?_advance, other]
  · simp [valid]

theorem get?_invalidateAll {ts : List Token} (spared : ¬ h.Strikes o ts) :
    (h.invalidateAll ts).get? o = h.get? o := by
  induction ts generalizing h with
  | nil => rfl
  | cons t ts ih =>
    rw [strikes_cons, not_or] at spared
    exact (ih spared.2).trans (get?_invalidate spared.1)

theorem get?_alloc_of_contains (present : h.contains o) (kind : ObjectKind)
    (proto : Option ObjectId) (hd : Handle) : (h.alloc kind proto hd).2.get? o = h.get? o := by
  obtain ⟨object, found⟩ := contains_iff.mp present
  rw [get?_alloc, if_neg (ne_size_of_get? found)]

theorem get?_map (present : h.contains o) (p : ObjectId) (f : Value → Value) :
    (h.map p f).2.get? o = h.get? o := by
  obtain ⟨object, found⟩ := contains_iff.mp present
  exact (get?_setAll_of_ne _ (ne_size_of_get? found)).trans (get?_alloc_of_contains present ..)

end Heap

/-! ## Sessions -/

/-- Carrying the action out alters an object that exists. -/
def Action.Alters (h : Heap) (o : ObjectId) : Action → Prop
  | .set p _ _ => p = o
  | .invalidate ts => h.Strikes o ts
  | _ => False

namespace World

variable {w : World} {o : ObjectId} (present : w.heap.contains o)
include present

theorem get?_load (l : LoaderId) (loader : Loader) (id : String) (payload : List UInt8) :
    (w.load l loader id payload).2.heap.get? o = w.heap.get? o := by
  rw [load]
  cases w.accept loader id payload with
  | error e => rfl
  | ok unit => exact Heap.get?_newFunction present ..

theorem get?_act {a : Action} (spared : ¬ a.Alters w.heap o) :
    (w.act a).2.heap.get? o = w.heap.get? o := by
  cases a with
  | newObject proto => exact Heap.get?_alloc_of_contains present ..
  | newScope parent => exact Heap.get?_alloc_of_contains present ..
  | set p key value => exact Heap.get?_set_of_ne (Ne.symm spared)
  | map p f =>
    rw [act]
    split
    · exact Heap.get?_map present p f
    · rfl
  | invalidate ts => exact Heap.get?_invalidateAll spared
  | cachedLookup c r =>
    rw [act]
    cases w.caches[c]? <;> rfl
  | declare d id name parameters function =>
    rw [act]
    cases w.dictionaries[d]? <;> rfl
  | newLoader config d global =>
    rw [act]
    split <;> rfl
  | load l id payload =>
    rw [act]
    cases w.loaders[l]? with
    | none => rfl
    | some loader => exact get?_load present l loader id payload
  | unitCachedLookup f offset r => rw [act, heap_useUnitCache]
  | resetUnitCache f offset => rw [act, heap_useUnitCache]
  | _ => rfl

theorem get?_newFunction (name : String) (spec : HandleSpec NativeEntry) :
    (w.newFunction name spec).2.heap.get? o = w.heap.get? o := by
  rw [newFunction]
  cases w.handleOf spec with
  | none => rfl
  | some handle => exact Heap.get?_newFunction present name handle

theorem get?_define (l : LoaderId) (id name : String) (spec : HandleSpec NativeEntry) :
    (w.define l id name spec).2.heap.get? o = w.heap.get? o := by
  rw [define]
  cases w.loaders[l]? with
  | none => rfl
  | some loader =>
    cases w.handleOf spec with
    | none => rfl
    | some handle =>
      dsimp only
      rw [defineNative]
      cases w.acceptNative loader id handle with
      | error e => rfl
      | ok _ => exact Heap.get?_newFunction present name handle

end World

/-! ## Calls into units -/

namespace Activation

variable {a : Activation} {w : World} {o : ObjectId}

/-- The object of which an instruction sets a key, if it does not fail. -/
def target? (a : Activation) (h : Heap) : Opcode → Option ObjectId
  | .setName => a.binding.toOption.map fun _ => a.scope
  | .setGlobal => a.binding.toOption.map fun _ => a.global
  | .setProperty => (a.writeTarget h).toOption.map (·.2.1)
  | _ => none

/-- The object of which the instruction at the current offset sets a key. -/
def sets? (a : Activation) (h : Heap) : Option ObjectId := a.opcode?.bind (a.target? h)

theorem heap_readProperty (a : Activation) (reads : PropertyReads) (w : World) (o : ObjectId)
    (key : String) : (a.readProperty reads w o key).2.heap = w.heap := by
  unfold readProperty
  split <;> rfl

/-- Where there is no instruction, a step changes nothing. -/
theorem snd_step_of_none (here : a.opcode? = none) (reads : PropertyReads) (w : World) :
    (a.step reads w).2 = w :=
  a.step_cases reads w rfl (fun _ => rfl) fun _ found => nomatch here.symm.trans found

/-- What a step makes of the heap. -/
inductive Leaves (a : Activation) (h : Heap) : Heap → Prop
  | alone (none : a.sets? h = none) : Leaves a h h
  | made (new : a.opcode? = some .newObject) (proto : Option ObjectId) :
      Leaves a h (h.newObject proto).2
  | altered (o : ObjectId) (key : String) (value : Value) (sets : a.sets? h = some o) :
      Leaves a h (h.set o key value)

theorem leaves_step (a : Activation) (reads : PropertyReads) (w : World) :
    a.Leaves w.heap (a.step reads w).2.heap := by
  cases here : a.opcode? with
  | none =>
    rw [snd_step_of_none here]
    exact .alone (by simp [sets?, here])
  | some op =>
    have sets : a.sets? w.heap = a.target? w.heap op := by simp [sets?, here]
    rw [step_eq_execute here]
    cases op with
    | setName =>
      rw [execute]
      cases bound : a.binding with
      | error i => exact .alone (by rw [sets, target?, bound]; rfl)
      | ok r => exact .altered a.scope r.1 r.2.1 (by rw [sets, target?, bound]; rfl)
    | setGlobal =>
      rw [execute]
      cases bound : a.binding with
      | error i => exact .alone (by rw [sets, target?, bound]; rfl)
      | ok r => exact .altered a.global r.1 r.2.1 (by rw [sets, target?, bound]; rfl)
    | setProperty =>
      rw [execute]
      cases found : a.writeTarget w.heap with
      | error i => exact .alone (by rw [sets, target?, found]; rfl)
      | ok r => exact .altered r.2.1 r.1 r.2.2.1 (by rw [sets, target?, found]; rfl)
    | getProperty =>
      rw [execute]
      cases a.readTarget w.heap with
      | error i => exact .alone sets
      | ok r =>
        dsimp only
        rw [heap_readProperty]
        exact .alone sets
    | newObject =>
      rw [execute]
      cases a.protoTarget w.heap with
      | error i => exact .alone sets
      | ok r => exact .made here r.1
    | _ => exact .alone sets

/-- An instruction leaves all objects that exist as they are, but for the one whose key it sets. -/
theorem get?_step_of_sets? (present : w.heap.contains o) (reads : PropertyReads)
    (spared : a.sets? w.heap ≠ some o) : (a.step reads w).2.heap.get? o = w.heap.get? o := by
  have leaves := a.leaves_step reads w
  generalize (a.step reads w).2.heap = h at leaves
  cases leaves with
  | alone none => rfl
  | made new proto => exact Heap.get?_alloc_of_contains present ..
  | altered p key value sets =>
    refine Heap.get?_set_of_ne ?_
    rintro rfl
    exact spared sets

/-- Setting a key is counted. -/
theorem changes_step_of_sets? (present : w.heap.contains o) (reads : PropertyReads)
    (sets : a.sets? w.heap = some o) :
    w.heap.changes o < (a.step reads w).2.heap.changes o := by
  have leaves := a.leaves_step reads w
  generalize (a.step reads w).2.heap = h at leaves
  cases leaves with
  | alone none => simp [sets] at none
  | made new proto => simp [sets?, new, target?] at sets
  | altered p key value same =>
    obtain rfl : o = p := Option.some.inj (sets.symm.trans same)
    simp [Heap.changes_set, present]

end Activation

/-! ## Machines -/

namespace Machine

variable {m : Machine} {o : ObjectId} {reads : PropertyReads}

/-- The next step sets a key of the object, or makes a valid token of it invalid. -/
def Alters (m : Machine) (o : ObjectId) : Prop :=
  match m.control with
  | .code a => a.sets? m.world.heap = some o
  | .native (.perform action _) =>
    action.mentions.all m.world.heap.contains ∧ action.Alters m.world.heap o
  | _ => False

/-- A step leaves every object that exists and that it does not alter as it is. -/
theorem get?_step_of_not_alters (present : m.world.heap.contains o) (reads : PropertyReads)
    (spared : ¬ m.Alters o) : (m.step reads).world.heap.get? o = m.world.heap.get? o := by
  obtain ⟨control, waiting, w⟩ := m
  cases control with
  | invoke callee receiver args =>
    have started := started_invoke w callee receiver args
    rw [step]
    generalize invoke w callee receiver args = result at started
    cases started with
    | refused i => rfl
    | native entry handle => rfl
    | code unit loader handle found closed =>
      have heap := World.heap_enter w unit.loader loader
      have there : (w.enter unit.loader loader).2.heap.contains o := by rwa [heap]
      exact (Activation.get?_start unit loader receiver args there).trans (by rw [heap])
  | code a =>
    rw [heap_step_code]
    exact a.get?_step_of_sets? present reads spared
  | native p =>
    cases p with
    | done result => rfl
    | call callee receiver args next => rfl
    | perform action next =>
      rw [step]
      dsimp only
      rw [snd_resume, World.perform]
      split
      · rename_i mentioned
        exact World.get?_act present fun alters => spared ⟨mentioned, alters⟩
      · rfl
    | newFunction name spec next =>
      rw [step]
      dsimp only
      rw [snd_resume]
      exact World.get?_newFunction present name spec
    | defineNative l id name spec next =>
      rw [step]
      dsimp only
      rw [snd_resume]
      exact World.get?_define present l id name spec
  | deliver result =>
    cases waiting with
    | nil => rfl
    | cons first waiting =>
      cases first with
      | code a =>
        rw [step]
        split <;> rfl
      | native next => cases result with
        | ok v => rfl
        | error i => cases i <;> rfl

theorem changes_step_of_alters (present : m.world.heap.contains o) (reads : PropertyReads)
    (alters : m.Alters o) : m.world.heap.changes o < (m.step reads).world.heap.changes o := by
  obtain ⟨control, waiting, w⟩ := m
  cases control with
  | code a =>
    rw [heap_step_code]
    exact a.changes_step_of_sets? present reads alters
  | native p =>
    cases p with
    | perform action next =>
      obtain ⟨mentioned, alters⟩ := alters
      rw [step]
      dsimp only
      rw [snd_resume, World.perform, if_pos mentioned]
      cases action with
      | set p key value =>
        obtain rfl : p = o := alters
        have count := w.heap.changes_set p p key value
        rw [if_pos ⟨rfl, present⟩] at count
        exact Nat.lt_of_lt_of_eq (Nat.lt_succ_self _) count.symm
      | invalidate ts =>
        have grown := w.heap.changes_le_invalidateAll o ts
        have still := w.heap.changes_invalidateAll_eq_iff o present ts
        exact Nat.lt_of_le_of_ne grown fun same => still.mp same.symm alters
      | _ => cases alters
    | _ => cases alters
  | _ => cases alters

/-- Exactly the steps that alter an object are counted. -/
theorem changes_step_eq_iff (present : m.world.heap.contains o) (reads : PropertyReads) :
    (m.step reads).world.heap.changes o = m.world.heap.changes o ↔ ¬ m.Alters o := by
  by_cases alters : m.Alters o
  · have := changes_step_of_alters present reads alters
    exact iff_of_false (by omega) (not_not_intro alters)
  · refine iff_of_true ?_ alters
    unfold Heap.changes
    rw [get?_step_of_not_alters present reads alters]

/-- The count of an object that exists is the same after a run exactly if no step of it alters the
object. -/
theorem changes_steps_eq_iff {allowed : Action → Prop} (sound : m.Sound allowed)
    (present : m.world.heap.contains o) (reads : PropertyReads) (n : Nat) :
    (m.steps reads n).world.heap.changes o = m.world.heap.changes o ↔
      ∀ i < n, ¬ (m.steps reads i).Alters o := by
  induction n with
  | zero => simp [steps]
  | succ n ih =>
    have leads := leads_steps sound reads n
    have grown := leads.world.heap.changes_le o
    have more := (leads_step leads.sound reads).world.heap.changes_le o
    have last := changes_step_eq_iff (leads.world.heap.contains present) reads
    rw [steps_succ_eq, Nat.forall_lt_succ_right, ← ih, ← last]
    omega

end Machine

end ProtoVM
