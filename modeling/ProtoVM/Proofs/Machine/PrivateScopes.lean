import ProtoVM.Proofs.Machine.Passages
import ProtoVM.Proofs.Machine.Soundness
import ProtoVM.Proofs.Session.Concealment

/-!
# Private scopes

The scope of a call into a unit is the only object that a unit works with and never hands out: it is
no operand, no value that is set or passed, and no prototype. So from the time a call is entered
its scope can be kept secret from everything else (`Machine.Conceals`), for as long as native code
is confined to what it is given.
-/

namespace ProtoVM

variable {allowed : Action → Prop} {secret : ObjectId → Prop} {w w' : World}

/-! ## Activations -/

namespace Activation

/-- Apart from its scope, which is secret, a call works with open objects only. -/
structure Sealed (secret : ObjectId → Prop) (w : World) (a : Activation) : Prop where
  receiver : w.Shows secret a.receiver
  operands : ∀ v ∈ a.stack.values, w.Shows secret v
  global : w.Open secret a.global
  scope : secret a.scope

variable {a b : Activation} {op : Opcode} {reads : PropertyReads}

theorem Sealed.mono (evolves : w.heap.Evolves w'.heap) (h : a.Sealed secret w) :
    a.Sealed secret w' where
  receiver := h.receiver.mono evolves
  operands := fun v mem => (h.operands v mem).mono evolves
  global := h.global.mono evolves
  scope := h.scope

theorem Sealed.insert {s : ObjectId} (absent : ¬ w.heap.contains s) (h : a.Sealed secret w) :
    a.Sealed (fun o => secret o ∨ o = s) w where
  receiver := h.receiver.insert absent
  operands := fun v mem => (h.operands v mem).insert absent
  global := h.global.insert absent
  scope := .inl h.scope

/-- The same call, with operands that show no secret. -/
theorem Sealed.of_continues {place : Nat → Prop} (h : a.Sealed secret w)
    (next : Continues (w.Shows secret ·) place a b) : b.Sealed secret w := by
  obtain ⟨stack, ip, rfl⟩ := next.same
  exact ⟨h.receiver, next.operands, h.global, h.scope⟩

theorem Sealed.of_push (h : a.Sealed secret w) {v : Value} (shows : w.Shows secret v)
    (pushed : a.push v = .ok b) : b.Sealed secret w :=
  h.of_continues (continues_of_push h.operands shows pushed)

/-! ### One instruction -/

section

variable (sound : w.Sound allowed) (hides : w.Hides secret) (h : a.Sealed secret w)
include sound hides h

/-- The session supplies an instruction with open objects only. -/
theorem supplied_of_hides (evolves : w.heap.Evolves w'.heap)
    (fresh : op = .newObject → ∀ r, a.protoTarget w.heap = .ok r →
      w'.Shows secret (.object w.heap.size)) : Supplied (w'.Shows secret ·) a reads w op :=
  supplied_of_holds (World.holds_shows sound hides) (fun _ => World.shows_of_plain)
    (fun _ shows => shows.mono evolves) h.receiver h.operands
    (fun _ _ found => World.shows_object (World.open_of_resolve? sound hides found)) fresh

/-- What an instruction other than `newObject` is supplied with in the session as it is. -/
theorem supplied_of_ne_newObject (reads : PropertyReads) (old : op ≠ .newObject) :
    Supplied (w.Shows secret ·) a reads w op :=
  supplied_of_hides sound hides h .refl fun new => absurd new old

/-- The name and the value that `setName` binds. -/
theorem shows_binding {key : String} {v : Value} (bound : a.binding = .ok (key, v, b)) :
    w.Shows secret v := by
  have taken := yields_binding (decodes_trivial a .setName)
    (supplied_of_ne_newObject sound hides h .direct (by decide)) rfl
  rw [bound] at taken
  exact taken.1

omit sound h in
theorem seals_readProperty (a : Activation) (reads : PropertyReads) (o : ObjectId) (key : String) :
    w.Seals secret (a.readProperty reads w o key).2 := by
  rw [readProperty.eq_def]
  split
  · exact World.seals_withBanks hides _
  · exact .refl hides

/-- Only `setName` changes the scope of a call. -/
theorem seals_execute (reads : PropertyReads) (ne : op ≠ .setName) :
    w.Seals secret (a.execute reads w op).2 := by
  cases op with
  | setName => exact absurd rfl ne
  | setGlobal =>
    have taken := yields_binding (decodes_trivial a .setGlobal)
      (supplied_of_ne_newObject sound hides h reads (by decide)) rfl
    rw [execute]
    cases bound : a.binding with
    | error i => exact .refl hides
    | ok r =>
      rw [bound] at taken
      exact World.seals_set sound hides h.global.2 taken.1
  | getProperty =>
    rw [execute]
    cases a.readTarget w.heap with
    | error i => exact .refl hides
    | ok r => exact seals_readProperty hides a reads r.2.1 r.1
  | setProperty =>
    have taken := yields_writeTarget (decodes_trivial a .setProperty)
      (supplied_of_ne_newObject sound hides h reads (by decide)) rfl
    rw [execute]
    cases found : a.writeTarget w.heap with
    | error i => exact .refl hides
    | ok r =>
      rw [found] at taken
      exact World.seals_set sound hides (taken.1 r.2.1 rfl).2 taken.2.1
  | newObject =>
    have taken := yields_protoTarget (decodes_trivial a .undefined)
      (supplied_of_ne_newObject sound hides h reads (by decide))
    rw [execute]
    cases found : a.protoTarget w.heap with
    | error i => exact .refl hides
    | ok r =>
      rw [found] at taken
      exact World.seals_newObject sound hides fun p same => taken.1 p same p rfl
  | _ => exact .refl hides

theorem hides_execute (reads : PropertyReads) (op : Opcode) :
    (a.execute reads w op).2.Hides secret := by
  by_cases sets : op = .setName
  · subst sets
    rw [execute]
    cases bound : a.binding with
    | error i => exact hides
    | ok r => exact World.hides_set sound hides (shows_binding sound hides h bound)
  · exact (seals_execute sound hides h reads sets).hides

/-- After an instruction, the call goes on with open objects only. -/
theorem keeps_shows_execute (live : a.Live w) (present : ∀ o, secret o → w.heap.contains o)
    (reads : PropertyReads) (op : Opcode) :
    (a.execute reads w op).1.Keeps ((a.execute reads w op).2.Shows secret ·) (fun _ => True)
      (fun _ => True) a := by
  apply execute_keeps (decodes_trivial a op)
  apply supplied_of_hides sound hides h (leads_execute sound live reads op).heap
  rintro rfl r found
  rw [execute, found]
  exact World.shows_object ⟨Heap.contains_alloc_self, World.not_secret_size present⟩

/-- An instruction changes no secret object but the scope of the call. -/
theorem get?_execute (present : ∀ o, secret o → w.heap.contains o) (reads : PropertyReads)
    (op : Opcode) {o : ObjectId} (hidden : secret o) (other : a.scope ≠ o) :
    (a.execute reads w op).2.heap.get? o = w.heap.get? o := by
  by_cases sets : op = .setName
  · subst sets
    rw [execute]
    cases a.binding with
    | error i => rfl
    | ok r => exact Heap.get?_set_of_ne other.symm
  · exact (seals_execute sound hides h reads sets).heap.spares o hidden (present o hidden)

theorem hides_step (reads : PropertyReads) : (a.step reads w).2.Hides secret :=
  a.step_cases reads w hides (fun _ => hides) fun op _ => hides_execute sound hides h reads op

theorem get?_step (present : ∀ o, secret o → w.heap.contains o) (reads : PropertyReads)
    {o : ObjectId} (hidden : secret o) (other : a.scope ≠ o) :
    (a.step reads w).2.heap.get? o = w.heap.get? o :=
  a.step_cases reads w rfl (fun _ => rfl) fun op _ =>
    get?_execute sound hides h present reads op hidden other

theorem keeps_shows_step (live : a.Live w) (present : ∀ o, secret o → w.heap.contains o)
    (reads : PropertyReads) :
    (a.step reads w).1.Keeps ((a.step reads w).2.Shows secret ·) (fun _ => True) (fun _ => True)
      a :=
  a.step_cases reads w (World.shows_of_plain rfl) (fun _ => trivial) fun op _ =>
    keeps_shows_execute sound hides h live present reads op

end

/-! ### The start of a call -/

section

variable (sound : w.Sound allowed) (hides : w.Hides secret) {loader : Loader}
  (global : w.Open secret loader.global) {receiver : Value} {args : List Value}
  (shows : ∀ v ∈ receiver :: args, w.Shows secret v) (unit : BoundUnit)
include sound global shows

include hides in
/-- The scope of a call that is entered can be kept secret. -/
theorem hides_start :
    (start unit loader receiver args w).2.Hides fun o => secret o ∨ o = w.heap.size := by
  have absent := Heap.not_contains_size w.heap
  have older : ∀ p, some loader.global = some p → w.heap.contains p := by
    rintro p ⟨⟩
    exact global.1
  have made := World.leads_newScope sound older
  have parent : ∀ p, some loader.global = some p →
      w.Open (fun o => secret o ∨ o = w.heap.size) p := by
    rintro p ⟨⟩
    exact global.insert absent
  have hidden := (World.seals_newScope sound (hides.insert sound absent) parent).hides
  refine World.hides_setAll made.sound hidden fun binding mem => ?_
  exact ((shows _ (mem_of_mem_arguments mem)).insert absent).mono made.heap

theorem sealed_start :
    (start unit loader receiver args w).1.Sealed (fun o => secret o ∨ o = w.heap.size)
      (start unit loader receiver args w).2 := by
  have absent := Heap.not_contains_size w.heap
  have evolves : w.heap.Evolves (start unit loader receiver args w).2.heap :=
    (leads_start sound unit global.1 fun v mem => (shows v mem).closed).heap
  exact {
    receiver := ((shows receiver List.mem_cons_self).insert absent).mono evolves
    operands := fun _ mem => nomatch mem
    global := (global.insert absent).mono evolves
    scope := .inr rfl }

theorem contains_start :
    (start unit loader receiver args w).2.heap.contains w.heap.size := by
  have made := World.leads_newScope sound fun p same => Option.some.inj same ▸ global.1
  have closed : ∀ binding ∈ arguments unit.unit.parameters receiver args,
      (w.allocWith (·.newScope (some loader.global))).2.heap.closed binding.2 := fun binding mem =>
    made.heap.closed (shows binding.2 (mem_of_mem_arguments mem)).closed
  exact (World.leads_setAll made.sound closed).heap.contains Heap.contains_alloc_self

omit sound global shows in
/-- Entering a call leaves the objects that were there as they are. -/
theorem get?_start (loader : Loader) (receiver : Value) (args : List Value) {o : ObjectId}
    (present : w.heap.contains o) :
    (start unit loader receiver args w).2.heap.get? o = w.heap.get? o := by
  obtain ⟨object, found⟩ := Heap.contains_iff.mp present
  have old := Heap.ne_size_of_get? found
  have made : (w.heap.newScope (some loader.global)).2.get? o = w.heap.get? o := by
    rw [Heap.newScope, Heap.get?_alloc, if_neg old]
  exact (Heap.get?_setAll_of_ne _ old).trans made

end

end Activation

/-! ## Machines -/

/-- What is done next is done with open objects. -/
def Control.Sealed (secret : ObjectId → Prop) (w : World) : Control → Prop
  | .invoke callee receiver args =>
    w.Open secret callee ∧ ∀ v ∈ receiver :: args, w.Shows secret v
  | .code a => a.Sealed secret w
  | .native p => p.Confined (w.Open secret)
  | .deliver (.ok v) => w.Shows secret v
  | .deliver (.error _) => True

/-- What waits goes on with open objects. -/
def Waiting.Sealed (secret : ObjectId → Prop) (w : World) : Waiting → Prop
  | .code a => a.Sealed secret w
  | .native next =>
    ∀ result, (next result).Confined (Learned (w.Open secret) (returnedObjects result))

theorem Waiting.Sealed.mono {x : Waiting} (evolves : w.heap.Evolves w'.heap)
    (h : x.Sealed secret w) : x.Sealed secret w' := by
  cases x with
  | code a => exact Activation.Sealed.mono evolves h
  | native next =>
    exact fun result => (h result).mono fun _ => Learned.mono fun _ isOpen => isOpen.mono evolves

theorem Waiting.Sealed.insert {x : Waiting} {s : ObjectId} (absent : ¬ w.heap.contains s)
    (h : x.Sealed secret w) : x.Sealed (fun o => secret o ∨ o = s) w := by
  cases x with
  | code a => exact Activation.Sealed.insert absent h
  | native next =>
    exact fun result => (h result).mono fun _ => Learned.mono fun _ isOpen => isOpen.insert absent

namespace Machine

variable {m m' : Machine} {reads : PropertyReads}

/-- Nothing that a machine works with leads to a secret object, apart from the calls into units to
their own scopes. -/
structure Conceals (secret : ObjectId → Prop) (m : Machine) : Prop where
  hides : m.world.Hides secret
  present : ∀ o, secret o → m.world.heap.contains o
  control : m.control.Sealed secret m.world
  waiting : ∀ x ∈ m.waiting, x.Sealed secret m.world

theorem Conceals.sealed (h : m.Conceals secret) {a : Activation} (mem : a ∈ m.activations) :
    a.Sealed secret m.world := by
  rcases mem_activations.mp mem with at_ | waits
  · have control := h.control
    rw [at_] at control
    exact control
  · exact h.waiting _ waits

/-- What is secret once the calls under way are entered: their scopes too. -/
def withScopes (secret : ObjectId → Prop) (m : Machine) (o : ObjectId) : Prop :=
  secret o ∨ ∃ a ∈ m.activations, a.scope = o

theorem Conceals.withScopes_eq {secret' : ObjectId → Prop} (h : m.Conceals secret')
    (old : ∀ o, secret o → secret' o) (new : ∀ o, secret' o → m.withScopes secret o) :
    m.withScopes secret = secret' := by
  funext o
  refine propext ⟨?_, new o⟩
  rintro (hidden | ⟨a, mem, rfl⟩)
  · exact old o hidden
  · exact (h.sealed mem).scope

/-- A step keeps the secret objects secret, and the scopes that it adds to them; only the call that
goes on may change its own scope. -/
structure Secures (secret : ObjectId → Prop) (m m' : Machine) : Prop where
  conceals : m'.Conceals (m'.withScopes secret)
  spares : ∀ o, secret o → (∀ a, m.control = .code a → a.scope ≠ o) →
    m'.world.heap.get? o = m.world.heap.get? o

/-- No scope is added. -/
theorem Secures.of_conceals (conceals : m'.Conceals secret)
    (spares : ∀ o, secret o → (∀ a, m.control = .code a → a.scope ≠ o) →
      m'.world.heap.get? o = m.world.heap.get? o) : m.Secures secret m' where
  conceals := by rwa [conceals.withScopes_eq (fun _ => id) fun _ => .inl]
  spares := spares

section

variable {waiting : List Waiting} {control control' : Control}
  (present : ∀ o, secret o → w.heap.contains o) (below : ∀ x ∈ waiting, x.Sealed secret w)
include present below

/-- The session is led on and spares what is secret. -/
theorem secures_of_seals (evolves : w.heap.Evolves w'.heap) (seals : w.Seals secret w')
    (next : control'.Sealed secret w') :
    Secures secret ⟨control, waiting, w⟩ ⟨control', waiting, w'⟩ := by
  have there : ∀ o, secret o → w'.heap.contains o := fun o hidden =>
    evolves.contains (present o hidden)
  have still : ∀ x ∈ waiting, x.Sealed secret w' := fun x mem => (below x mem).mono evolves
  exact .of_conceals ⟨seals.hides, there, next, still⟩ fun o hidden _ =>
    seals.heap.spares o hidden (present o hidden)

section

variable (sound : w.Sound allowed) (hides : w.Hides secret)
include sound hides

/-- A unit is entered, and its scope becomes secret. -/
theorem secures_enter {unit : BoundUnit} {loader : Loader} {receiver : Value} {args : List Value}
    (found : w.loaders[unit.loader]? = some loader)
    (shows : ∀ v ∈ receiver :: args, w.Shows secret v) :
    Secures secret ⟨control, waiting, w⟩
      ⟨.code (Activation.start unit loader receiver args (w.enter unit.loader loader).2).1, waiting,
        (Activation.start unit loader receiver args (w.enter unit.loader loader).2).2⟩ := by
  -- the count of the loader is no part of the heap
  have counted := World.leads_enter sound unit.loader loader
  have hidden := (World.seals_enter hides unit.loader loader).hides
  have heap := World.heap_enter w unit.loader loader
  generalize (w.enter unit.loader loader).2 = w₁ at counted hidden heap
  have global := (World.open_of_global sound hides found).mono counted.heap
  have shows₁ : ∀ v ∈ receiver :: args, w₁.Shows secret v := fun v mem =>
    (shows v mem).mono counted.heap
  have started := Activation.leads_start counted.sound unit global.1 fun v mem =>
    (shows₁ v mem).closed
  have conceals : Conceals (fun o => secret o ∨ o = w₁.heap.size)
      ⟨.code (Activation.start unit loader receiver args w₁).1, waiting,
        (Activation.start unit loader receiver args w₁).2⟩ := by
    refine ⟨Activation.hides_start counted.sound hidden global shows₁ unit, ?_,
      Activation.sealed_start counted.sound global shows₁ unit, ?_⟩
    -- the new scope was not there, so what waits knows nothing of it
    · rintro o (old | rfl)
      · exact started.heap.contains (counted.heap.contains (present o old))
      · exact Activation.contains_start counted.sound global shows₁ unit
    · intro x mem
      exact (((below x mem).mono counted.heap).insert (Heap.not_contains_size w₁.heap)).mono
        started.heap
  constructor
  · rw [conceals.withScopes_eq (fun _ => .inl)]
    · exact conceals
    · rintro o (old | rfl)
      · exact .inl old
      · exact .inr ⟨_, mem_activations.mpr (.inl rfl), rfl⟩
  · intro o old _
    have there := present o old
    rw [← heap] at there ⊢
    exact Activation.get?_start unit loader receiver args there

theorem secures_invoke {callee : ObjectId} {receiver : Value} {args : List Value}
    (shows : ∀ v ∈ receiver :: args, w.Shows secret v) :
    Secures secret ⟨.invoke callee receiver args, waiting, w⟩
      (step reads ⟨.invoke callee receiver args, waiting, w⟩) := by
  have started := started_invoke w callee receiver args
  rw [step]
  generalize invoke w callee receiver args = result at started
  cases started with
  | refused i => exact secures_of_seals present below .refl (.refl hides) trivial
  | native entry handle =>
    have knows : ∀ o, Learned (w.Open secret) (objectsOf (receiver :: args)) o →
        w.Open secret o := by
      refine fun o => Learned.of_forall fun p mem => ?_
      obtain ⟨v, among, same⟩ := mem_objectsOf.mp mem
      exact shows v among p same
    have confined := hides.handles callee
    refine secures_of_seals present below .refl (.refl hides) ?_
    rcases handle with ⟨arity, fixed⟩ | variadic
    · rw [fixed] at confined
      exact (confined (receiver :: args)).mono knows
    · rw [variadic] at confined
      exact (confined (receiver :: args)).mono knows
  | code unit loader handle found closed arity room =>
    exact secures_enter present below sound hides found shows

/-- A unit goes on, calls, or returns. -/
theorem secures_code {a : Activation} (h : a.Sealed secret w) (live : a.Live w) :
    Secures secret ⟨.code a, waiting, w⟩ (step reads ⟨.code a, waiting, w⟩) := by
  have leads := a.leads_step sound live reads
  have hidden := Activation.hides_step sound hides h reads
  have spares : ∀ o, secret o → a.scope ≠ o → (a.step reads w).2.heap.get? o = w.heap.get? o :=
    fun o => Activation.get?_step sound hides h present reads
  have keeps := Activation.keeps_shows_step sound hides h live present reads
  rw [step]
  generalize a.step reads w = result at leads hidden spares keeps
  obtain ⟨effect, w'⟩ := result
  have still : ∀ x ∈ waiting, x.Sealed secret w' := fun x mem => (below x mem).mono leads.heap
  have there : ∀ o, secret o → w'.heap.contains o := fun o old =>
    leads.heap.contains (present o old)
  have others : ∀ o, secret o → (∀ b, Control.code a = .code b → b.scope ≠ o) →
      w'.heap.get? o = w.heap.get? o := fun o old other => spares o old (other a rfl)
  cases effect with
  | next b =>
    have goesOn : b.Sealed secret w' := (h.mono leads.heap).of_continues keeps
    exact .of_conceals ⟨hidden, there, goesOn, still⟩ others
  | call b callee receiver args =>
    have goesOn : b.Sealed secret w' := (h.mono leads.heap).of_continues keeps.1
    refine .of_conceals ⟨hidden, there, ⟨keeps.2.1 callee rfl, ?_⟩, ?_⟩ others
    · exact List.forall_mem_cons.mpr ⟨keeps.2.2.1, keeps.2.2.2⟩
    · exact List.forall_mem_cons.mpr ⟨goesOn, still⟩
  | finish result =>
    have left := (World.leads_leave leads.sound a.unit.loader).heap
    have hidden' := (World.seals_leave hidden a.unit.loader).hides
    refine .of_conceals ⟨hidden', there, ?_, fun x mem => (still x mem).mono left⟩ others
    cases result with
    | ok v => exact keeps
    | error i => exact trivial

omit sound hides in
/-- Native code goes on with an answer that gives away open objects only. -/
theorem secures_resume {α : Type} {p : Native} {next : α → Native} {answer : Option α × World}
    (leads : w.Leads allowed answer.2) (seals : w.Seals secret answer.2)
    (later : ∀ a, answer.1 = some a → (next a).Confined (answer.2.Open secret)) :
    Secures secret ⟨.native p, waiting, w⟩
      ⟨(resume next answer).1, waiting, (resume next answer).2⟩ := by
  obtain ⟨_ | a, w'⟩ := answer
  · exact secures_of_seals present below leads.heap seals trivial
  · exact secures_of_seals present below leads.heap seals (later a rfl)

/-- Native code returns, asks the session, or calls. -/
theorem secures_native {p : Native} (confined : p.Confined (w.Open secret))
    (asks : p.AsksOnly allowed) :
    Secures secret ⟨.native p, waiting, w⟩ (step reads ⟨.native p, waiting, w⟩) := by
  -- what is learned from an answer is open in the session that answered
  have learned {w' : World} {objects : List ObjectId} (evolves : w.heap.Evolves w'.heap)
      (opens : ∀ o ∈ objects, w'.Open secret o) (o : ObjectId)
      (known : Learned (w.Open secret) objects o) : w'.Open secret o :=
    (known.mono fun _ isOpen => isOpen.mono evolves).of_forall opens
  cases confined with
  | done result knows =>
    refine secures_of_seals present below .refl (.refl hides) ?_
    cases result with
    | error e => exact trivial
    | ok v =>
      rw [resultOf]
      by_cases closed : w.heap.closed v
      · rw [if_pos closed]
        exact fun o same => knows v o rfl same
      · rw [if_neg closed]
        exact trivial
  | perform action next knows maps later =>
    have leads := World.leads_perform sound action
    refine secures_resume present below leads ?_ fun answer answered => ?_
    · exact World.seals_perform sound hides present (fun _ => id) knows maps
    · refine (later answer).mono (learned leads.heap ?_)
      exact World.open_of_perform sound hides present (fun _ => id) knows answered
  | call callee receiver args next knowsCallee knows later =>
    have shows : ∀ v ∈ receiver :: args, w.Shows secret v := fun v mem o same =>
      knows o (mem_objectsOf.mpr ⟨v, mem, same⟩)
    have conceals : Conceals secret ⟨.invoke callee receiver args, .native next :: waiting, w⟩ :=
      ⟨hides, present, ⟨knowsCallee, shows⟩, List.forall_mem_cons.mpr ⟨later, below⟩⟩
    exact .of_conceals conceals fun _ _ _ => rfl
  | newFunction name spec next entries later =>
    have asked : ∀ entry, spec.entry? = some entry → ∀ args, (entry args).AsksOnly allowed := by
      cases asks with
      | newFunction _ _ _ allows _ => exact allows
    have leads := World.leads_newFunction sound name asked
    refine secures_resume present below leads ?_ fun o made => ?_
    · exact World.seals_newFunction sound hides present (fun _ => id) name entries
    · refine (later o).mono (learned leads.heap ?_)
      exact List.forall_mem_singleton.mpr (World.open_of_newFunction present made)
  | defineNative l id name spec next entries later =>
    have asked : ∀ entry, spec.entry? = some entry → ∀ args, (entry args).AsksOnly allowed := by
      cases asks with
      | defineNative _ _ _ _ _ allows _ => exact allows
    have leads := World.leads_define sound l id name asked
    refine secures_resume present below leads ?_ fun answer made => ?_
    · exact World.seals_define sound hides present (fun _ isOpen => isOpen) l id name entries
    · exact (later answer).mono (learned leads.heap (World.open_of_define present made))

/-- What waits takes the result and goes on. -/
theorem secures_deliver {result : Except Interrupt Value}
    (shown : (Control.deliver result).Sealed secret w) :
    Secures secret ⟨.deliver result, waiting, w⟩ (step reads ⟨.deliver result, waiting, w⟩) := by
  cases waiting with
  | nil => exact .of_conceals ⟨hides, present, shown, below⟩ fun _ _ _ => rfl
  | cons first waiting =>
    obtain ⟨next, rest⟩ := List.forall_mem_cons.mp below
    cases first with
    | code a =>
      rw [step]
      cases pushed : result.bind a.push with
      | error i =>
        have left := World.seals_leave hides a.unit.loader
        have evolves := (World.leads_leave sound a.unit.loader).heap
        have still : ∀ x ∈ waiting, x.Sealed secret (w.leave a.unit.loader) := fun x mem =>
          (rest x mem).mono evolves
        exact .of_conceals ⟨left.hides, present, trivial, still⟩ fun _ _ _ => rfl
      | ok b =>
        cases result with
        | error i => cases pushed
        | ok v =>
          have goesOn : b.Sealed secret w := Activation.Sealed.of_push next shown pushed
          exact .of_conceals ⟨hides, present, goesOn, rest⟩ fun _ _ _ => rfl
    | native later =>
      have goesOn (answer : Except RuntimeError Value)
          (opens : ∀ o ∈ returnedObjects answer, w.Open secret o) :
          (later answer).Confined (w.Open secret) :=
        (next answer).mono fun o => Learned.of_forall opens
      cases result with
      | ok v =>
        have opens : ∀ o ∈ returnedObjects (.ok v), w.Open secret o := fun o mem =>
          shown o (Option.mem_toList.mp mem)
        exact .of_conceals ⟨hides, present, goesOn (.ok v) opens, rest⟩ fun _ _ _ => rfl
      | error i =>
        cases i with
        | error e =>
          have opens : ∀ o ∈ returnedObjects (.error e), w.Open secret o := by
            intro o mem
            cases mem
          exact .of_conceals ⟨hides, present, goesOn (.error e) opens, rest⟩ fun _ _ _ => rfl
        | crash => exact .of_conceals ⟨hides, present, trivial, rest⟩ fun _ _ _ => rfl

end

end

/-- A step keeps what is secret, and the scope of a call that it enters. -/
theorem secures_step (sound : m.Sound allowed) (h : m.Conceals secret) (reads : PropertyReads) :
    Secures secret m (m.step reads) := by
  obtain ⟨control, waiting, w⟩ := m
  obtain ⟨hides, present, sealed, below⟩ := h
  cases control with
  | invoke callee receiver args =>
    exact secures_invoke present below sound.world hides sealed.2
  | code a => exact secures_code present below sound.world hides sealed sound.control
  | native p => exact secures_native present below sound.world hides sealed sound.control
  | deliver result => exact secures_deliver present below sound.world hides sealed

/-- At the start there is nothing to keep secret. -/
theorem conceals_running {p : Native} (confined : p.Confined fun _ => False) :
    (running .empty p).Conceals fun _ => False where
  hides := World.hides_empty
  present := fun _ => False.elim
  control := confined.mono fun _ => False.elim
  waiting := fun _ mem => nomatch mem

/-! ## What a secret object is to the others -/

/-- Nothing that a machine works with is the object, and nothing in its session leads there. -/
structure Withholds (m : Machine) (s : ObjectId) : Prop where
  operands : ∀ a ∈ m.activations, ∀ v ∈ a.stack.values, v ≠ .object s
  receivers : ∀ a ∈ m.activations, a.receiver ≠ .object s
  calls : ∀ callee receiver args, m.control = .invoke callee receiver args →
    callee ≠ s ∧ ∀ v ∈ receiver :: args, v ≠ .object s
  results : ∀ v, m.control = .deliver (.ok v) → v ≠ .object s
  native : ∀ p, m.control = .native p → p.Confined (· ≠ s)
  properties : ∀ o object, m.world.heap.get? o = some object → ∀ v ∈ object.store.values,
    v ≠ .object s
  protos : ∀ o, m.world.heap.proto? o ≠ some s
  globals : ∀ a ∈ m.activations, a.global ≠ s
  functions : ∀ d id, (m.world.dictionary d).resolve? id ≠ some s

theorem ne_of_shows {s : ObjectId} (hidden : secret s) {v : Value} (shows : w.Shows secret v) :
    v ≠ .object s := by
  rintro rfl
  exact (shows s rfl).2 hidden

theorem Conceals.withholds (h : m.Conceals secret) {s : ObjectId} (hidden : secret s) :
    m.Withholds s where
  operands := fun a mem v among => ne_of_shows hidden ((h.sealed mem).operands v among)
  receivers := fun a mem => ne_of_shows hidden (h.sealed mem).receiver
  calls := by
    intro callee receiver args called
    have control := h.control
    rw [called] at control
    refine ⟨?_, fun v mem => ne_of_shows hidden (control.2 v mem)⟩
    rintro rfl
    exact control.1.2 hidden
  results := by
    intro v delivered
    have control := h.control
    rw [delivered] at control
    exact ne_of_shows hidden control
  native := by
    intro p running
    have control := h.control
    rw [running] at control
    refine Native.Confined.mono control ?_
    rintro o isOpen rfl
    exact isOpen.2 hidden
  properties := by
    rintro o object found v mem rfl
    exact h.hides.heap.values o object found _ mem s rfl hidden
  protos := by
    intro o inherits
    obtain ⟨object, found, proto⟩ := Option.bind_eq_some_iff.mp inherits
    exact h.hides.heap.protos o object s found proto hidden
  globals := by
    rintro a mem rfl
    exact (h.sealed mem).global.2 hidden
  functions := fun d id found => h.hides.not_secret_of_resolve? found hidden

end Machine

end ProtoVM
