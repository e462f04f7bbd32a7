import ProtoVM.Proofs.Machine.Activations
import ProtoVM.Proofs.Machine.Instructions
import ProtoVM.Proofs.Session.Loaders

/-!
# Passages

How a step goes with the calls into units that are under way. It stays within them, enters one, or
leaves the innermost one (`Passage`). A call is told by what stays the same all along it: everything
but the offset of the next instruction and the operands.
-/

namespace ProtoVM

/-! ## Instructions -/

namespace Activation

variable {a : Activation} {reads : PropertyReads} {w : World}

theorem registry_readProperty (a : Activation) (reads : PropertyReads) (w : World) (o : ObjectId)
    (key : String) : (a.readProperty reads w o key).2.loaders = w.loaders ∧
      (a.readProperty reads w o key).2.dictionaries = w.dictionaries := by
  rw [readProperty.eq_def]
  split <;> exact ⟨rfl, rfl⟩

/-- No instruction changes a loader or a dictionary. -/
theorem registry_execute (a : Activation) (reads : PropertyReads) (w : World) (op : Opcode) :
    (a.execute reads w op).2.loaders = w.loaders ∧
      (a.execute reads w op).2.dictionaries = w.dictionaries := by
  cases op with
  | setName | setGlobal =>
    rw [execute]
    cases a.binding <;> exact ⟨rfl, rfl⟩
  | getProperty =>
    rw [execute]
    cases a.readTarget w.heap with
    | error i => exact ⟨rfl, rfl⟩
    | ok r => exact registry_readProperty a reads w r.2.1 r.1
  | setProperty =>
    rw [execute]
    cases a.writeTarget w.heap <;> exact ⟨rfl, rfl⟩
  | newObject =>
    rw [execute]
    cases a.protoTarget w.heap <;> exact ⟨rfl, rfl⟩
  | _ => exact ⟨rfl, rfl⟩

theorem registry_step (a : Activation) (reads : PropertyReads) (w : World) :
    (a.step reads w).2.loaders = w.loaders ∧
      (a.step reads w).2.dictionaries = w.dictionaries :=
  a.step_cases reads w ⟨rfl, rfl⟩ (fun _ => ⟨rfl, rfl⟩) fun op _ => registry_execute a reads w op

/-- The call at its start. -/
def entry (a : Activation) : Activation := { a with ip := 0, stack := .empty }

theorem entry_eq_of_continues {good : Value → Prop} {place : Nat → Prop} {b : Activation}
    (h : Continues good place a b) : b.entry = a.entry := by
  obtain ⟨stack, ip, same⟩ := h.same
  rw [same]
  rfl

/-- A call goes on as the same one. -/
theorem entry_eq_of_step (a : Activation) (reads : PropertyReads) (w : World) :
    (∀ b, (a.step reads w).1 = .next b → b.entry = a.entry) ∧
      ∀ b callee receiver args, (a.step reads w).1 = .call b callee receiver args →
        b.entry = a.entry := by
  have keeps := step_keeps trivial (supplied_trivial a reads w)
  constructor
  · intro b effect
    rw [effect] at keeps
    exact entry_eq_of_continues keeps
  · intro b callee receiver args effect
    rw [effect] at keeps
    exact entry_eq_of_continues keeps.1

end Activation

namespace Machine

variable {m m' : Machine} {reads : PropertyReads}

/-- The calls into units that are under way, each as it was at its start, innermost first. -/
def calls (m : Machine) : List Activation := m.activations.map (·.entry)

/-- How a step goes with the calls that are under way: it stays within them, enters one that there
is room for, or leaves the innermost one. -/
inductive Passage (m m' : Machine) : Prop
  | within (calls : m'.calls = m.calls) (loaders : m.world.KeepsLoaders m'.world)
  | enters (unit : BoundUnit) (loader : Loader) (callee : ObjectId) (receiver : Value)
      (args : List Value) (at_ : m.control = .invoke callee receiver args)
      (found : m.world.loaders[unit.loader]? = some loader)
      (closed : ∀ v ∈ receiver :: args, m.world.heap.closed v)
      (arity : args.length = unit.unit.parameters.length)
      (room : loader.depth < loader.config.maxCallDepth.toNat)
      (control : m'.control = .code (Activation.start unit loader receiver args
        (m.world.enter unit.loader loader).2).1)
      (waiting : m'.waiting = m.waiting)
      (world : m'.world = (Activation.start unit loader receiver args
        (m.world.enter unit.loader loader).2).2)
  | leaves (a : Activation) (calls : m.calls = a.entry :: m'.calls)
      (loaders : m'.world.loaders = (m.world.leave a.unit.loader).loaders)

section

variable {waiting : List Waiting} {w : World}

theorem passage_invoke (callee : ObjectId) (receiver : Value) (args : List Value) :
    Passage ⟨.invoke callee receiver args, waiting, w⟩
      (step reads ⟨.invoke callee receiver args, waiting, w⟩) := by
  have started := started_invoke w callee receiver args
  rw [step]
  generalize invoke w callee receiver args = result at started
  cases started with
  | refused i => exact .within rfl (.of_eq rfl)
  | native entry handle => exact .within rfl (.of_eq rfl)
  | code unit loader handle found closed arity room =>
    exact .enters unit loader callee receiver args rfl found closed arity room rfl rfl rfl

theorem passage_code (a : Activation) :
    Passage ⟨.code a, waiting, w⟩ (step reads ⟨.code a, waiting, w⟩) := by
  have loaders := (a.registry_step reads w).1
  obtain ⟨next, call⟩ := a.entry_eq_of_step reads w
  rw [step]
  generalize a.step reads w = result at loaders next call
  obtain ⟨effect, w'⟩ := result
  cases effect with
  | next b =>
    refine .within ?_ (.of_eq loaders)
    simp only [calls, activations, Control.activation?, Option.toList, List.singleton_append,
      List.map_cons, next b rfl]
  | call b callee receiver args =>
    refine .within ?_ (.of_eq loaders)
    simp only [calls, activations, Control.activation?, Option.toList, List.nil_append,
      List.singleton_append, List.filterMap_cons, Waiting.activation?, List.map_cons,
      call b callee receiver args rfl]
  | finish result =>
    refine .leaves a rfl ?_
    dsimp only at loaders ⊢
    unfold World.leave World.mapLoader
    rw [loaders]

/-- Native code goes on with an answer. -/
theorem passage_resume {α : Type} {p : Native} {next : α → Native} {answer : Option α × World}
    (loaders : w.KeepsLoaders answer.2) :
    Passage ⟨.native p, waiting, w⟩ ⟨(resume next answer).1, waiting, (resume next answer).2⟩ := by
  obtain ⟨_ | a, w'⟩ := answer
  · exact .within rfl loaders
  · exact .within rfl loaders

theorem passage_native (p : Native) :
    Passage ⟨.native p, waiting, w⟩ (step reads ⟨.native p, waiting, w⟩) := by
  cases p with
  | done result => exact .within rfl (.of_eq rfl)
  | perform action next => exact passage_resume (w.keepsLoaders_perform action)
  | call callee receiver args next => exact .within rfl (.of_eq rfl)
  | newFunction name spec next => exact passage_resume (w.keepsLoaders_newFunction name spec)
  | defineNative l id name spec next =>
    exact passage_resume (w.keepsLoaders_define l id name spec)

theorem passage_deliver (result : Except Interrupt Value) :
    Passage ⟨.deliver result, waiting, w⟩ (step reads ⟨.deliver result, waiting, w⟩) := by
  cases waiting with
  | nil => exact .within rfl (.of_eq rfl)
  | cons first waiting =>
    cases first with
    | code a =>
      rw [step]
      cases pushed : result.bind a.push with
      | error i => exact .leaves a rfl rfl
      | ok b =>
        cases result with
        | error i => cases pushed
        | ok v =>
          obtain ⟨stack, rfl⟩ := Activation.eq_of_push pushed
          exact .within rfl (.of_eq rfl)
    | native next =>
      cases result with
      | ok v => exact .within rfl (.of_eq rfl)
      | error i => cases i <;> exact .within rfl (.of_eq rfl)

end

theorem passage_step (m : Machine) (reads : PropertyReads) : Passage m (m.step reads) := by
  obtain ⟨control, waiting, w⟩ := m
  cases control with
  | invoke callee receiver args => exact passage_invoke callee receiver args
  | code a => exact passage_code a
  | native p => exact passage_native p
  | deliver result => exact passage_deliver result

/-! ## What passages leave as it is -/

/-- Entering a unit changes the count of its loader and nothing else of the loaders. -/
theorem loaders_of_enters {w w' : World} {unit : BoundUnit} {loader : Loader} {receiver : Value}
    {args : List Value} (room : loader.depth < loader.config.maxCallDepth.toNat)
    (world : w' = (Activation.start unit loader receiver args (w.enter unit.loader loader).2).2) :
    w'.loaders = (w.mapLoader unit.loader fun loader =>
      { loader with depth := loader.depth + 1 }).loaders := by
  rw [world, World.enter, if_neg (Nat.not_le_of_lt room)]
  rfl

/-- A loader is never given up, and it keeps its global object. -/
theorem exists_loader_step (reads : PropertyReads) {l : LoaderId} {loader : Loader}
    (found : m.world.loaders[l]? = some loader) :
    ∃ loader', (m.step reads).world.loaders[l]? = some loader' ∧
      loader'.global = loader.global := by
  cases passage_step m reads with
  | within calls loaders =>
    obtain ⟨loaded, kept⟩ := loaders.old l loader found
    exact ⟨_, kept, rfl⟩
  | enters unit other callee receiver args called known closed arity room control waiting world =>
    rw [loaders_of_enters room world, World.loaders_mapLoader, found]
    split <;> exact ⟨_, rfl, rfl⟩
  | leaves a calls loaders =>
    rw [loaders, World.leave, World.loaders_mapLoader, found]
    split <;> exact ⟨_, rfl, rfl⟩

end Machine

end ProtoVM
