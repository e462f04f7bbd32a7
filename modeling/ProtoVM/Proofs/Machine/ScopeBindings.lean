import Mathlib
import ProtoVM.Proofs.Machine.PrivateScopes
import ProtoVM.Proofs.Object.OrderedStores

/-!
# Names in scopes

What a name means in a call into a unit: the value that the call has bound to it last, in a scope
that nothing else can reach, or what the global object of the loader makes of it. The bindings that
are made in a scope are those of a run (`Machine.bindings`); the scope represents them
(`Heap.Binds`).
-/

namespace ProtoVM

/-! ## Scopes in the heap -/

namespace Heap

variable {h h' : Heap} {s g : ObjectId} {puts : List (String × Value)}

/-- The object inherits from another one and holds what was put into it. -/
def Binds (h : Heap) (s g : ObjectId) (puts : List (String × Value)) : Prop :=
  ∃ object, h.get? s = some object ∧ object.proto = some g ∧
    object.store.Represents h.layouts puts

theorem binds_newScope (sound : h.Sound) (g : ObjectId) :
    (h.newScope (some g)).2.Binds h.size g [] := by
  refine ⟨⟨.scope, some g, .empty, 0, .inert⟩, ?_, rfl, .empty sound.layouts⟩
  rw [newScope, get?_alloc, if_pos rfl]

/-- An object that is left as it is holds what it held. -/
theorem Binds.of_get?_eq (grows : h.layouts.Grows h'.layouts) (same : h'.get? s = h.get? s)
    (binds : h.Binds s g puts) : h'.Binds s g puts := by
  obtain ⟨object, found, proto, represents⟩ := binds
  exact ⟨object, same.trans found, proto, represents.mono grows⟩

theorem Binds.set (layouts : h.layouts.Sound) (binds : h.Binds s g puts) (key : String)
    (value : Value) : (h.set s key value).Binds s g (puts ++ [(key, value)]) := by
  obtain ⟨object, found, proto, represents⟩ := binds
  refine ⟨{ object with
    store := (object.store.insert h.layouts key value).1
    changes := object.changes + 1 }, ?_, proto, ?_⟩
  · rw [get?_set, found, Option.map_some, if_pos rfl]
  · rw [layouts_set_of_get? found]
    exact represents.insert layouts key value

theorem Binds.layouts_set (layouts : h.layouts.Sound) (binds : h.Binds s g puts) (key : String)
    (value : Value) : (h.set s key value).layouts.Sound := by
  obtain ⟨object, found, -, represents⟩ := binds
  rw [layouts_set_of_get? found]
  exact Store.tree_sound_insert layouts represents.sound

theorem Binds.setAll (layouts : h.layouts.Sound) (binds : h.Binds s g puts)
    (entries : List (String × Value)) : (h.setAll s entries).Binds s g (puts ++ entries) := by
  induction entries generalizing h puts with
  | nil =>
    rw [List.append_nil]
    exact binds
  | cons entry entries ih =>
    have first := binds.set layouts entry.1 entry.2
    have later := ih (binds.layouts_set layouts entry.1 entry.2) first
    rw [List.append_assoc, List.singleton_append] at later
    exact later

theorem Binds.getOwn? (binds : h.Binds s g puts) (key : String) :
    h.getOwn? s key = lastPut? puts key := by
  obtain ⟨object, found, -, represents⟩ := binds
  rw [Heap.getOwn?, found]
  exact represents.actsAs.get key

/-- A name that is not bound in a scope is looked up further out. -/
theorem Binds.lookup (sound : h.Sound) (binds : h.Binds s g puts) (key : String) :
    h.lookup s key = (lastPut? puts key).getD (h.lookup g key) := by
  have own := binds.getOwn? key
  obtain ⟨object, found, proto, -⟩ := binds
  have inherits : h.proto? s = some g := by
    rw [proto?, found]
    exact proto
  have chain : h.chain s = s :: h.chain g := by
    rw [Heap.chain, inherits]
    exact if_pos (sound.protos s object g found proto)
  rw [Heap.lookup, chain, List.findSome?_cons, own]
  cases lastPut? puts key with
  | none => rfl
  | some v => rfl

end Heap

/-! ## Bindings -/

variable {allowed : Action → Prop} {secret : ObjectId → Prop} {w : World} {reads : PropertyReads}

namespace Activation

variable {a : Activation} {g : ObjectId} {puts : List (String × Value)}

/-- The binding that the instruction at the current offset makes in the scope. -/
def assigns (a : Activation) : List (String × Value) :=
  match a.opcode?, a.binding with
  | some .setName, .ok (key, v, _) => [(key, v)]
  | _, _ => []

theorem assigns_of_ne {op : Opcode} (here : a.opcode? = some op) (ne : op ≠ .setName) :
    a.assigns = [] := by
  rw [assigns, here]
  cases op with
  | setName => exact absurd rfl ne
  | _ => rfl

/-- A step makes the binding of the instruction, and no other, in the scope of the call. -/
theorem binds_step (sound : w.Sound allowed) (hides : w.Hides secret) (h : a.Sealed secret w)
    (live : a.Live w) (present : ∀ o, secret o → w.heap.contains o)
    (binds : w.heap.Binds a.scope g puts) (reads : PropertyReads) :
    (a.step reads w).2.heap.Binds a.scope g (puts ++ a.assigns) := by
  cases here : a.opcode? with
  | none =>
    have same : (a.step reads w).2 = w :=
      a.step_cases reads w rfl (fun _ => rfl) fun op found => nomatch here.symm.trans found
    rw [same, assigns, here, List.append_nil]
    exact binds
  | some op =>
    rw [step_eq_execute here]
    by_cases sets : op = .setName
    · subst sets
      rw [assigns, here, execute]
      cases a.binding with
      | error i =>
        rw [List.append_nil]
        exact binds
      | ok r => exact binds.set sound.heap.layouts r.1 r.2.1
    · have seals := seals_execute sound hides h reads sets
      have grows := (leads_execute sound live reads op).heap.layouts
      rw [assigns_of_ne here sets, List.append_nil]
      exact binds.of_get?_eq grows (seals.heap.spares a.scope h.scope (present a.scope h.scope))

/-- A call that is entered has the receiver and the arguments bound in its scope. -/
theorem binds_start (sound : w.Sound allowed) (unit : BoundUnit) (loader : Loader)
    (receiver : Value) (args : List Value) :
    (start unit loader receiver args w).2.heap.Binds w.heap.size loader.global
      (arguments unit.unit.parameters receiver args) := by
  have made := Heap.binds_newScope sound.heap loader.global
  have layouts : (w.heap.newScope (some loader.global)).2.layouts.Sound := sound.heap.layouts
  exact made.setAll layouts (arguments unit.unit.parameters receiver args)

end Activation

namespace Machine

variable {m m' : Machine} {n : Nat}

/-- The bindings that a step makes in a scope: the receiver and the arguments when the call of the
scope is entered, and what an instruction of the call assigns. -/
def binds (reads : PropertyReads) (m : Machine) (s : ObjectId) : List (String × Value) :=
  match m.control, (m.step reads).control with
  | .invoke _ receiver args, .code a =>
    if a.scope = s then Activation.arguments a.unit.unit.parameters receiver args else []
  | .code a, _ => if a.scope = s then a.assigns else []
  | _, _ => []

/-- The bindings that are made in a scope in the course of a run, first to last. -/
def bindings (reads : PropertyReads) (m : Machine) (s : ObjectId) : Nat → List (String × Value)
  | 0 => []
  | n + 1 => m.bindings reads s n ++ (m.steps reads n).binds reads s

/-- The object is the scope of a call that was entered in the course of a run. -/
def IsScope (reads : PropertyReads) (m : Machine) (n : Nat) (s : ObjectId) : Prop :=
  ∃ i ≤ n, ∃ a ∈ (m.steps reads i).activations, a.scope = s

/-- A call that is entered takes as many arguments as its unit has parameters, and its scope is a
new object. -/
theorem of_entered {callee : ObjectId} {receiver : Value} {args : List Value} {a : Activation}
    (called : m.control = .invoke callee receiver args)
    (entered : (m.step reads).control = .code a) :
    args.length = a.unit.unit.parameters.length ∧ a.scope = m.world.heap.size := by
  obtain ⟨control, waiting, w⟩ := m
  obtain rfl : control = .invoke callee receiver args := called
  have started := started_invoke w callee receiver args
  rw [step] at entered
  generalize invoke w callee receiver args = result at started entered
  cases started with
  | refused i => cases entered
  | native entry handle => cases entered
  | code unit loader handle found closed arity room =>
    cases entered
    exact ⟨arity, congrArg Heap.size (World.heap_enter w unit.loader loader)⟩

/-! ### What a step binds -/

/-- A step binds in no scope but the one of the call that it carries on or enters. -/
theorem binds_eq_nil (h : m.Conceals secret) (reads : PropertyReads) {s : ObjectId}
    (hidden : secret s) (other : ∀ a, m.control = .code a → a.scope ≠ s) :
    m.binds reads s = [] := by
  obtain ⟨control, waiting, w⟩ := m
  cases control with
  | invoke callee receiver args =>
    rw [binds]
    cases entered : (step reads ⟨.invoke callee receiver args, waiting, w⟩).control with
    | code a =>
      -- the scope that is made was not there before
      have made := (of_entered rfl entered).2
      refine if_neg ?_
      rintro rfl
      have present := h.present _ hidden
      rw [made] at present
      exact Heap.not_contains_size _ present
    | _ => rfl
  | code a => exact if_neg (other a rfl)
  | native p => rfl
  | deliver result => rfl

/-- A step binds in no scope but those of calls that are under way before it or after it. -/
theorem binds_eq_nil_of_ne (reads : PropertyReads) {s : ObjectId}
    (before : ∀ a ∈ m.activations, a.scope ≠ s)
    (after : ∀ a ∈ (m.step reads).activations, a.scope ≠ s) : m.binds reads s = [] := by
  rw [binds]
  split
  · rename_i a _ entered
    exact if_neg (after a (mem_activations.mpr (.inl entered)))
  · rename_i a at_
    exact if_neg (before a (mem_activations.mpr (.inl at_)))
  · rfl

theorem heap_step_code (reads : PropertyReads) (a : Activation) (waiting : List Waiting)
    (w : World) :
    (step reads ⟨.code a, waiting, w⟩).world.heap = (a.step reads w).2.heap := by
  rw [step]
  obtain ⟨effect, w'⟩ := a.step reads w
  cases effect <;> rfl

/-- The scope of a call goes on to hold what is bound in it. -/
theorem binds_step (sound : m.Sound allowed) (h : m.Conceals secret) (reads : PropertyReads)
    {s g : ObjectId} {puts : List (String × Value)} (hidden : secret s)
    (binds : m.world.heap.Binds s g puts) :
    (m.step reads).world.heap.Binds s g (puts ++ m.binds reads s) := by
  by_cases other : ∀ a, m.control = .code a → a.scope ≠ s
  · rw [binds_eq_nil h reads hidden other, List.append_nil]
    have grows := (leads_step sound reads).world.heap.layouts
    exact binds.of_get?_eq grows ((secures_step sound h reads).spares s hidden other)
  · obtain ⟨control, waiting, w⟩ := m
    push Not at other
    obtain ⟨a, rfl, rfl⟩ := other
    have bound := Activation.binds_step sound.world h.hides h.control sound.control h.present binds
      reads
    have assigned : Machine.binds reads ⟨.code a, waiting, w⟩ a.scope = a.assigns := if_pos rfl
    rw [heap_step_code, assigned]
    exact bound

/-! ### Scopes in the course of a run -/

/-- What a call finds when it looks for a name: its scope with the bindings that were made in it,
and the global object of its loader. -/
structure Resolves (w : World) (a : Activation) (puts : List (String × Value)) : Prop where
  global : ∃ loader, w.loaders[a.unit.loader]? = some loader ∧ loader.global = a.global
  binds : w.heap.Binds a.scope a.global puts

theorem isScope_of_mem_calls {a : Activation} (mem : a ∈ (m.steps reads n).calls) :
    m.IsScope reads n a.scope := by
  obtain ⟨b, there, rfl⟩ := List.mem_map.mp mem
  exact ⟨n, Nat.le_refl n, b, there, rfl⟩

theorem withScopes_isScope (reads : PropertyReads) (m : Machine) (n : Nat) :
    (m.steps reads (n + 1)).withScopes (m.IsScope reads n) = m.IsScope reads (n + 1) := by
  funext s
  refine propext ⟨?_, ?_⟩
  · rintro (⟨i, before, a, mem, rfl⟩ | ⟨a, mem, rfl⟩)
    · exact ⟨i, Nat.le_succ_of_le before, a, mem, rfl⟩
    · exact ⟨n + 1, Nat.le_refl _, a, mem, rfl⟩
  · rintro ⟨i, before, a, mem, rfl⟩
    rcases Nat.le_succ_iff.mp before with before | rfl
    · exact .inl ⟨i, before, a, mem, rfl⟩
    · exact .inr ⟨a, mem, rfl⟩

/-- What holds of the scopes at a moment of a run. -/
structure Scoped (reads : PropertyReads) (m : Machine) (n : Nat) : Prop where
  sound : (m.steps reads n).Sound fun _ => True
  conceals : (m.steps reads n).Conceals (m.IsScope reads n)
  distinct : ((m.steps reads n).calls.map (·.scope)).Nodup
  calls : ∀ a ∈ (m.steps reads n).calls,
    Resolves (m.steps reads n).world a (m.bindings reads a.scope n)
  unbound : ∀ s, ¬ m.IsScope reads n s → m.bindings reads s n = []

/-- A call that goes on finds what was bound in its scope. -/
theorem resolves_step (sound : m.Sound allowed) (h : m.Conceals secret) (reads : PropertyReads)
    {a : Activation} {puts : List (String × Value)} (hidden : secret a.scope)
    (resolves : Resolves m.world a puts) :
    Resolves (m.step reads).world a (puts ++ m.binds reads a.scope) where
  global := by
    obtain ⟨loader, found, same⟩ := resolves.global
    obtain ⟨loader', found', kept⟩ := exists_loader_step reads found
    exact ⟨loader', found', kept.trans same⟩
  binds := binds_step sound h reads hidden resolves.binds

/-- A call that is entered finds the receiver and the arguments. -/
theorem resolves_start (sound : w.Sound allowed) {unit : BoundUnit} {loader : Loader}
    (found : w.loaders[unit.loader]? = some loader) (receiver : Value) (args : List Value) :
    Resolves (Activation.start unit loader receiver args (w.enter unit.loader loader).2).2
      (Activation.start unit loader receiver args (w.enter unit.loader loader).2).1
      (Activation.arguments unit.unit.parameters receiver args) where
  global := by
    show ∃ loader', (w.enter unit.loader loader).2.loaders[unit.loader]? = some loader' ∧
      loader'.global = loader.global
    rw [World.enter]
    split
    · exact ⟨loader, found, rfl⟩
    · rw [World.loaders_mapLoader, if_pos rfl, found]
      exact ⟨_, rfl, rfl⟩
  binds := by
    have entered := World.leads_enter sound unit.loader loader
    exact Activation.binds_start entered.sound unit loader receiver args

/-- A call that is entered starts with a scope of its own, in which the receiver and the arguments
are bound. -/
theorem Scoped.of_enters (h : m.Scoped reads n) {callee : ObjectId} {receiver : Value}
    {args : List Value} {a : Activation}
    (called : (m.steps reads n).control = .invoke callee receiver args)
    (entered : (m.steps reads (n + 1)).control = .code a) :
    ¬ m.IsScope reads n a.scope ∧
      m.bindings reads a.scope (n + 1) =
        Activation.arguments a.unit.unit.parameters receiver args := by
  rw [steps_succ_eq] at entered
  have new : ¬ m.IsScope reads n a.scope := by
    rw [(of_entered called entered).2]
    exact fun there => Heap.not_contains_size _ (h.conceals.present _ there)
  refine ⟨new, ?_⟩
  rw [bindings, h.unbound _ new, List.nil_append, binds, called, entered]
  exact if_pos rfl

/-- The calls after a step find what was bound in their scopes, each in its own. -/
theorem scoped_step (h : m.Scoped reads n) : m.Scoped reads (n + 1) := by
  have secures := secures_step h.sound h.conceals reads
  have conceals := secures.conceals
  rw [← steps_succ_eq, withScopes_isScope] at conceals
  have old : ∀ a ∈ (m.steps reads n).calls,
      Resolves (m.steps reads (n + 1)).world a (m.bindings reads a.scope (n + 1)) := by
    intro a mem
    rw [steps_succ_eq]
    exact resolves_step h.sound h.conceals reads (isScope_of_mem_calls mem) (h.calls a mem)
  have next : ((m.steps reads (n + 1)).calls.map (·.scope)).Nodup ∧
      ∀ a ∈ (m.steps reads (n + 1)).calls,
        Resolves (m.steps reads (n + 1)).world a (m.bindings reads a.scope (n + 1)) := by
    have passage := passage_step (m.steps reads n) reads
    rw [← steps_succ_eq] at passage
    cases passage with
    | within calls loaders =>
      rw [calls]
      exact ⟨h.distinct, old⟩
    | leaves a calls loaders =>
      have distinct := h.distinct
      rw [calls] at distinct old
      exact ⟨(List.nodup_cons.mp distinct).2, fun b mem => old b (List.mem_cons_of_mem _ mem)⟩
    | enters unit loader callee receiver args called found closed arity room control waiting
        world =>
      obtain ⟨new, bound⟩ := h.of_enters called control
      have calls : (m.steps reads (n + 1)).calls = (Activation.start unit loader receiver args
          ((m.steps reads n).world.enter unit.loader loader).2).1 :: (m.steps reads n).calls := by
        rw [Machine.calls, Machine.calls, activations, activations, control, waiting, called]
        rfl
      rw [calls, List.map_cons, List.nodup_cons]
      refine ⟨⟨?_, h.distinct⟩, List.forall_mem_cons.mpr ⟨?_, old⟩⟩
      · intro mem
        obtain ⟨b, there, same⟩ := List.mem_map.mp mem
        exact new (same ▸ isScope_of_mem_calls there)
      · rw [bound, world]
        exact resolves_start h.sound.world found receiver args
  refine ⟨?_, conceals, next.1, next.2, ?_⟩
  · rw [steps_succ_eq]
    exact (leads_step h.sound reads).sound
  · intro s new
    have before : ¬ m.IsScope reads n s := by
      rintro ⟨i, early, there⟩
      exact new ⟨i, Nat.le_succ_of_le early, there⟩
    rw [bindings, h.unbound s before, binds_eq_nil_of_ne reads]
    · rfl
    · rintro a mem rfl
      exact before ⟨n, Nat.le_refl n, a, mem, rfl⟩
    · rintro a mem rfl
      rw [← steps_succ_eq] at mem
      exact new ⟨n + 1, Nat.le_refl _, a, mem, rfl⟩

theorem isScope_running (p : Native) (reads : PropertyReads) :
    (running .empty p).IsScope reads 0 = fun _ => False := by
  funext s
  refine propext ⟨?_, False.elim⟩
  rintro ⟨i, before, a, mem, -⟩
  obtain rfl := Nat.le_zero.mp before
  cases mem

theorem scoped_running {p : Native} (confined : p.Confined fun _ => False)
    (reads : PropertyReads) : (running .empty p).Scoped reads 0 where
  sound := sound_running World.sound_empty (Native.asksOnly_of_forall (fun _ => trivial) p)
  conceals := by
    rw [isScope_running]
    exact conceals_running confined
  distinct := List.nodup_nil
  calls := fun _ mem => nomatch mem
  unbound := fun _ _ => rfl

theorem scoped_steps {p : Native} (confined : p.Confined fun _ => False) (reads : PropertyReads)
    (n : Nat) : (running .empty p).Scoped reads n := by
  induction n with
  | zero => exact scoped_running confined reads
  | succ n ih => exact scoped_step ih

/-! ### Calls that wait -/

/-- The call that goes on has another scope than those that wait. -/
theorem Scoped.scope_ne (h : m.Scoped reads n) {a b : Activation}
    (waits : .code a ∈ (m.steps reads n).waiting) (at_ : (m.steps reads n).control = .code b) :
    b.scope ≠ a.scope := by
  have distinct := h.distinct
  rw [Machine.calls, activations, at_] at distinct
  have waiting : a.entry ∈ ((m.steps reads n).waiting.filterMap (·.activation?)).map (·.entry) :=
    List.mem_map_of_mem (List.mem_filterMap.mpr ⟨_, waits, rfl⟩)
  intro same
  exact (List.nodup_cons.mp distinct).1 (List.mem_map.mpr ⟨a.entry, waiting, same.symm⟩)

theorem Scoped.resolves (h : m.Scoped reads n) {a : Activation}
    (mem : a ∈ (m.steps reads n).activations) :
    Resolves (m.steps reads n).world a (m.bindings reads a.scope n) := by
  obtain ⟨global, binds⟩ := h.calls a.entry (List.mem_map_of_mem mem)
  exact ⟨global, binds⟩

/-- An object is the same at both moments, and answers the same. -/
structure Keeps (w w' : World) (o : ObjectId) : Prop where
  same : w'.heap.get? o = w.heap.get? o
  getOwn : ∀ key, w'.heap.getOwn? o key = w.heap.getOwn? o key

theorem Keeps.trans {a b c : World} {o : ObjectId} (hab : Keeps a b o) (hbc : Keeps b c o) :
    Keeps a c o where
  same := hbc.same.trans hab.same
  getOwn := fun key => (hbc.getOwn key).trans (hab.getOwn key)

/-- No step changes the scope of a call that waits. -/
theorem Scoped.keeps_step (h : m.Scoped reads n) {a : Activation}
    (waits : .code a ∈ (m.steps reads n).waiting) :
    Keeps (m.steps reads n).world (m.steps reads (n + 1)).world a.scope := by
  rw [steps_succ_eq]
  have mem : a ∈ (m.steps reads n).activations := mem_activations.mpr (.inr waits)
  have same := (secures_step h.sound h.conceals reads).spares a.scope
    ⟨n, Nat.le_refl n, a, mem, rfl⟩ fun b at_ => h.scope_ne waits at_
  have before := (h.resolves mem).binds
  have after := before.of_get?_eq (leads_step h.sound reads).world.heap.layouts same
  exact ⟨same, fun key => (after.getOwn? key).trans (before.getOwn? key).symm⟩

theorem keeps_steps (reached : ∀ i, m.Scoped reads i) {a : Activation} (n k : Nat)
    (waits : ∀ i < k, .code a ∈ (m.steps reads (n + i)).waiting) :
    Keeps (m.steps reads n).world (m.steps reads (n + k)).world a.scope := by
  induction k with
  | zero => exact ⟨rfl, fun _ => rfl⟩
  | succ k ih =>
    have before := ih fun i early => waits i (Nat.lt_succ_of_lt early)
    exact before.trans ((reached (n + k)).keeps_step (waits k (Nat.lt_succ_self k)))

/-! ## Names -/

/-- What a name means, and to whom, at a moment of a run. -/
structure PrivateScopes (reads : PropertyReads) (m : Machine) (n : Nat) : Prop where
  /-- The scope of a call, also of one that has ended, never gets to anything else. -/
  withheld : ∀ s, m.IsScope reads n s → (m.steps reads n).Withholds s
  /-- The calls that are under way have scopes of their own, also those into the same unit. -/
  distinct : ((m.steps reads n).activations.map (·.scope)).Nodup
  /-- While a call waits, for as many steps as it takes, nothing happens to its scope. -/
  kept : ∀ a k, (∀ i < k, .code a ∈ (m.steps reads (n + i)).waiting) →
    Keeps (m.steps reads n).world (m.steps reads (n + k)).world a.scope
  /-- A name means what was bound to it last in the scope of the call, and else what the global
  object of the loader makes of it at that time. -/
  names : ∀ a key, (m.steps reads n).control = .code a → a.opcode? = some .getName →
    a.name = .ok key →
    ∃ loader, (m.steps reads n).world.loaders[a.unit.loader]? = some loader ∧
      a.step reads (m.steps reads n).world =
        (Activation.settle (a.pushNext .getName ((lastPut? (m.bindings reads a.scope n) key).getD
          ((m.steps reads n).world.heap.lookup loader.global key))), (m.steps reads n).world)
  /-- A call that is entered passes a value for every parameter and no more. Its scope is a new one,
  with the receiver bound as `this` and then the parameters in order. -/
  entered : ∀ callee receiver args a, (m.steps reads n).control = .invoke callee receiver args →
    (m.steps reads (n + 1)).control = .code a →
    args.length = a.unit.unit.parameters.length ∧
      (a.unit.unit.parameters.zip args).map Prod.fst = a.unit.unit.parameters ∧
      (a.unit.unit.parameters.zip args).map Prod.snd = args ∧
      ¬ m.IsScope reads n a.scope ∧
      m.bindings reads a.scope (n + 1) =
        ("this", receiver) :: a.unit.unit.parameters.zip args

theorem privateScopes_of_scoped (reached : ∀ i, m.Scoped reads i) (n : Nat) :
    m.PrivateScopes reads n where
  withheld := fun s isScope => (reached n).conceals.withholds isScope
  distinct := by
    have distinct := (reached n).distinct
    rw [Machine.calls, List.map_map] at distinct
    exact distinct
  kept := fun a k waits => keeps_steps reached n k waits
  names := by
    intro a key at_ here named
    obtain ⟨⟨loader, found, global⟩, binds⟩ := (reached n).resolves (mem_activations.mpr (.inl at_))
    refine ⟨loader, found, ?_⟩
    rw [Activation.step_eq_execute here, Activation.execute, Activation.readName, named, global,
      ← binds.lookup (reached n).sound.world.heap]
    rfl
  entered := by
    intro callee receiver args a called entered
    obtain ⟨new, bound⟩ := (reached n).of_enters called entered
    rw [steps_succ_eq] at entered
    have arity := (of_entered called entered).1
    exact ⟨arity, List.map_fst_zip (Nat.le_of_eq arity.symm), List.map_snd_zip (Nat.le_of_eq arity),
      new, bound⟩

end Machine

/-- Host code makes loaders, loads units and calls them, and the units and the native code that they
reach call on; it knows only the objects that it was given. Whatever the calls do, no scope gets out
of its call, none changes while its call waits, and a name means what the call has bound to it last,
or what the global object makes of it. -/
theorem privateScopes_steps (p : Native) (confined : p.Confined fun _ => False)
    (reads : PropertyReads) (n : Nat) : (Machine.running .empty p).PrivateScopes reads n :=
  Machine.privateScopes_of_scoped (Machine.scoped_steps confined reads) n

/-- The payload of a unit with two parameters `x` that answers `x`. The digest is left blank. -/
def repeatedPayload : List UInt8 :=
  Payload.magic ++ [1, 0] ++ [1, 0, 0, 0, 102] ++ [2, 0, 0, 0, 1, 0, 0, 0, 120, 1, 0, 0, 0, 120] ++
    [1, 0, 0, 0, 2, 1, 0, 0, 0, 120] ++ [4, 0, 0, 0, 3, 0, 0, 21] ++ List.replicate 32 0

/-- The unit is called with two values, while the global object has `x` too. -/
def callingRepeated : Native :=
  .perform .newDictionary fun d =>
  .perform (.newObject none) fun o =>
  .perform (.newLoader { verifyChecksum := false } d o) fun l =>
  .perform (.set o "x" (.int 7)) fun _ =>
  .perform (.load l "f" repeatedPayload) fun
    | .error _ => .done (.ok .undefined)
    | .ok f => .call f .undefined [.int 1, .int 2] fun _ => .done (.ok .undefined)

/-- The call has been entered. -/
def calledRepeated : Machine := (Machine.running .empty callingRepeated).steps .cached 7

theorem privateScopes_steps_repeated :
    ∃ a, calledRepeated.control = .code a ∧ a.step .cached calledRepeated.world =
      (Activation.settle (a.pushNext .getName (.int 2)), calledRepeated.world) := by
  have confined : callingRepeated.Confined fun _ => False := by
    refine .perform _ _ (fun _ mem => nomatch mem) trivial fun d => ?_
    refine .perform _ _ (fun _ mem => nomatch mem) trivial fun o => ?_
    refine .perform _ _ (fun p mem => .inr mem) trivial fun l => ?_
    refine .perform _ _ (fun p mem => .inl (.inr mem)) trivial fun _ => ?_
    refine .perform _ _ (fun _ mem => nomatch mem) trivial fun loaded => ?_
    cases loaded with
    | error e => exact .done _ (by rintro v o ⟨⟩ ⟨⟩)
    | ok f =>
      refine .call _ _ _ _ (.inr List.mem_cons_self) (fun _ mem => nomatch mem) fun result => ?_
      exact .done _ (by rintro v o ⟨⟩ ⟨⟩)
  have reached : (fun m : Machine => (m.control.activation?.map fun a =>
        (a.opcode?, a.name, a.scope),
        lastPut? ((Machine.running .empty callingRepeated).bindings .cached 2 7) "x"))
      calledRepeated = (some (some .getName, .ok "x", 2), some (.int 2)) := by cbv
  obtain ⟨current, bound⟩ := Prod.mk.inj reached
  obtain ⟨a, found, same⟩ := Option.map_eq_some_iff.mp current
  simp only [Prod.mk.injEq] at same
  obtain ⟨here, named, scope⟩ := same
  have at_ := Control.activation?_eq_some_iff.mp found
  obtain ⟨loader, -, stepped⟩ :=
    (privateScopes_steps callingRepeated confined .cached 7).names a "x" at_ here named
  rw [scope, bound] at stepped
  exact ⟨a, at_, stepped⟩

end ProtoVM
