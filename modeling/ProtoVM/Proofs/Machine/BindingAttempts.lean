import ProtoVM.Machine.Run
import ProtoVM.Proofs.Payload.ReaderLaws
import ProtoVM.Proofs.Session.BoundIdentifiers

/-!
# Attempts to bind an identifier

A loader binds an identifier completely or not at all. It checks everything first, in a fixed order,
and a refusal leaves the session as it was. Otherwise a function object is made and entered; nothing
else changes, and no code of the unit is run.
-/

namespace ProtoVM

/-! ## Refusals -/

/-- Why a loader does not bind an identifier. The number of parameters that would be bound is read
from the payload, which may fail, and it is open for functions that take any number. -/
inductive Loader.Refuses (loader : Loader) (dictionary : Dictionary) (id : String)
    (offered : Except LoadError (Option Nat)) : LoadError → Prop
  | duplicate (loaded : World.isLoaded loader id = true) :
      Refuses loader dictionary id offered (.duplicateUnit id)
  | unreadable {e : LoadError} (unloaded : World.isLoaded loader id = false)
      (unread : offered = .error e) : Refuses loader dictionary id offered e
  | signature {descriptor : Descriptor} {found : Nat}
      (unloaded : World.isLoaded loader id = false) (read : offered = .ok (some found))
      (declared : dictionary.descriptor? id = some descriptor)
      (differs : descriptor.parameters.length ≠ found) :
      Refuses loader dictionary id offered
        (.signatureMismatch id descriptor.parameters.length found)

/-- The number of parameters of the unit in a payload. -/
def Loader.offeredBy (loader : Loader) (payload : List UInt8) : Except LoadError (Option Nat) :=
  (Payload.decode payload loader.config.verifyChecksum).map fun unit => some unit.parameters.length

/-- The number of parameters of a native function: the receiver is none. -/
def Handle.offered (handle : Handle) : Except LoadError (Option Nat) :=
  .ok (handle.arity?.map (· - 1))

theorem Dictionary.checkParameters_eq_error_iff {d : Dictionary} {id : String} {found : Nat}
    {e : LoadError} : d.checkParameters id found = .error e ↔
      ∃ descriptor, d.descriptor? id = some descriptor ∧ descriptor.parameters.length ≠ found ∧
        .signatureMismatch id descriptor.parameters.length found = e := by
  rw [checkParameters]
  cases d.descriptor? id with
  | none => simp
  | some descriptor =>
    by_cases fits : descriptor.parameters.length = found
    · simp [fits]
    · simp [fits]

/-- The checks that units and native functions have in common. -/
def Loader.check (loader : Loader) (dictionary : Dictionary) (id : String)
    (offered : Except LoadError (Option Nat)) : Except LoadError Unit := do
  World.checkUnloaded loader id
  match ← offered with
  | none => return
  | some found => dictionary.checkParameters id found

theorem Loader.check_eq_error_iff {loader : Loader} {dictionary : Dictionary} {id : String}
    {offered : Except LoadError (Option Nat)} {e : LoadError} :
    loader.check dictionary id offered = .error e ↔ loader.Refuses dictionary id offered e := by
  cases loaded : World.isLoaded loader id with
  | true =>
    have twice : loader.check dictionary id offered = .error (.duplicateUnit id) := by
      rw [check, World.checkUnloaded, if_pos loaded]
      rfl
    rw [twice]
    constructor
    · intro same
      cases same
      exact .duplicate loaded
    · intro refuses
      cases refuses with
      | duplicate => rfl
      | unreadable unloaded => simp [loaded] at unloaded
      | signature unloaded => simp [loaded] at unloaded
  | false =>
    have free : World.checkUnloaded loader id = .ok () := if_neg (ne_true_of_eq_false loaded)
    rw [check, free]
    constructor
    · intro refused
      rcases offered with e' | _ | found
      · cases refused
        exact .unreadable loaded rfl
      · cases refused
      · obtain ⟨descriptor, declared, differs, rfl⟩ :=
          Dictionary.checkParameters_eq_error_iff.mp refused
        exact .signature loaded rfl declared differs
    · intro refuses
      cases refuses with
      | duplicate again => simp [loaded] at again
      | unreadable _ unread =>
        rw [unread]
        rfl
      | signature _ read declared differs =>
        rw [read]
        exact Dictionary.checkParameters_eq_error_iff.mpr ⟨_, declared, differs, rfl⟩

namespace World

variable {w : World} {l : LoaderId} {loader : Loader} {dictionary : Dictionary} {id : String}

section

variable (known : w.dictionaries[loader.dictionary]? = some dictionary)
include known

theorem accept_eq_error_iff {payload : List UInt8} {e : LoadError} :
    w.accept loader id payload = .error e ↔
      loader.Refuses dictionary id (loader.offeredBy payload) e := by
  have checked : loader.check dictionary id (loader.offeredBy payload) =
      (w.accept loader id payload).map fun _ => () := by
    rw [accept, Loader.check, Loader.offeredBy, dictionary_of_getElem? known]
    cases checkUnloaded loader id with
    | error e' => rfl
    | ok _ =>
      cases Payload.decode payload loader.config.verifyChecksum with
      | error e' => rfl
      | ok unit =>
        show dictionary.checkParameters id unit.parameters.length =
          ((dictionary.checkParameters id unit.parameters.length).bind fun _ => .ok unit).map
            fun _ => ()
        cases dictionary.checkParameters id unit.parameters.length <;> rfl
  rw [← Loader.check_eq_error_iff, checked]
  cases w.accept loader id payload <;> simp [Except.map]

theorem acceptNative_eq_error_iff {handle : Handle} {e : LoadError} :
    w.acceptNative loader id handle = .error e ↔
      loader.Refuses dictionary id handle.offered e := by
  have checked : loader.check dictionary id handle.offered = w.acceptNative loader id handle := by
    rw [acceptNative, Loader.check, Handle.offered, dictionary_of_getElem? known]
    cases handle.arity? <;> rfl
  rw [← Loader.check_eq_error_iff, checked]

end

/-! ## What binding changes -/

/-- All that binding changes: there is one more object, the function, which the identifier now has
in the dictionary of the loader, and it is marked as bound in the loader. -/
structure Binds (w w' : World) (l : LoaderId) (loader : Loader) (dictionary : Dictionary)
    (id : String) (own : Signature) (handle : Handle) (f : ObjectId) : Prop where
  new : ¬ w.heap.contains f
  one : w'.heap.size = w.heap.size + 1
  made : w'.heap.contains f ∧ w'.heap.handle f = handle
  objects : ∀ o, w.heap.contains o → w'.heap.get? o = w.heap.get? o
  layouts : w.heap.layouts.Grows w'.heap.layouts
  function : (w'.dictionary loader.dictionary).resolve? id = some f
  /-- The name and the parameters that are known are kept. -/
  signature : (w'.dictionary loader.dictionary).signature? id =
    some ((dictionary.signature? id).getD own)
  entries : ∀ d key, d ≠ loader.dictionary ∨ key ≠ id →
    (w'.dictionary d).descriptor? key = (w.dictionary d).descriptor? key
  dictionaries : w'.dictionaries.size = w.dictionaries.size
  loaders : ∀ other, w'.loaders[other]? =
    if other = l then some { loader with loaded := id :: loader.loaded } else w.loaders[other]?
  caches : w'.caches = w.caches
  banks : ∀ (i : Nat) (bank : CacheBank), w.banks[i]? = some bank → w'.banks[i]? = some bank

theorem dictionary_mapLoader (w : World) (l : LoaderId) (f : Loader → Loader) (d : DictionaryId) :
    (w.mapLoader l f).dictionary d = w.dictionary d := rfl

/-- A function is made, with the caches of its unit if there is one, and bound. -/
theorem binds_bind (found : w.loaders[l]? = some loader)
    (known : w.dictionaries[loader.dictionary]? = some dictionary) (id name : String)
    (parameters : List String) (handle : Handle) {banks : Array CacheBank}
    (kept : ∀ (i : Nat) (bank : CacheBank), w.banks[i]? = some bank → banks[i]? = some bank) :
    w.Binds
      (World.bind { w with heap := (w.heap.newFunction name handle).2, banks } l loader id name
      parameters w.heap.size) l loader dictionary id (name, parameters) handle w.heap.size := by
  have inside : loader.dictionary < w.dictionaries.size :=
    (Array.getElem?_eq_some_iff.mp known).1
  have entered := World.dictionary_bind (w := { w with
    heap := (w.heap.newFunction name handle).2, banks }) inside l id name parameters w.heap.size
  have known' : World.dictionary { w with heap := (w.heap.newFunction name handle).2, banks }
      loader.dictionary = dictionary := dictionary_of_getElem? known
  rw [known'] at entered
  constructor
  case new => exact w.heap.not_contains_size
  case one => exact w.heap.size_newFunction name handle
  case made =>
    exact ⟨w.heap.contains_newFunction name handle, w.heap.handle_newFunction name handle⟩
  case objects => exact fun o present => Heap.get?_newFunction present name handle
  case layouts => exact w.heap.grows_newFunction name handle
  case function => rw [entered, Dictionary.resolve?_bind, if_pos rfl]
  case signature =>
    rw [entered, Dictionary.signature?_bind, if_pos rfl]
    cases dictionary.signature? id <;> rfl
  case entries =>
    intro d key apart
    by_cases same : d = loader.dictionary
    · subst same
      have other : key ≠ id := apart.resolve_left (fun differs => differs rfl)
      rw [entered, Dictionary.bind, Dictionary.descriptor?_insert, if_neg other,
        dictionary_of_getElem? known]
    · rw [bind, dictionary_mapLoader, dictionary_setDictionary_of_ne same]
      rfl
  case dictionaries => exact Array.size_setIfInBounds
  case loaders =>
    intro other
    rw [bind, loaders_mapLoader]
    by_cases same : other = l
    · subst same
      have here : w.loaders[other]? = some loader := found
      simp [setDictionary, here]
    · simp [setDictionary, same, Ne.symm same]
  case caches => rfl
  case banks => exact kept

/-! ## Attempts -/

/-- An attempt to bind: it is refused for the right reason and changes nothing, or it binds. -/
structure Attempt (w : World) (refuses : LoadError → Prop) (binds : World → ObjectId → Prop)
    (answer : Except LoadError ObjectId) (w' : World) : Prop where
  error_iff : ∀ e, answer = .error e ↔ refuses e
  unchanged : ∀ e, answer = .error e → w' = w
  bound : ∀ f, answer = .ok f → binds w' f

section

variable {α : Type} {refuses : LoadError → Prop} {binds : World → ObjectId → Prop}

/-- What the checks before a binding report is the answer. -/
theorem Attempt.refused {e : LoadError}
    (refusal : ∀ e', (.error e : Except LoadError α) = .error e' ↔ refuses e') :
    w.Attempt refuses binds (.error e) w where
  error_iff := by
    intro e'
    rw [← refusal e']
    simp
  unchanged := fun _ _ => rfl
  bound := by
    intro f bound
    cases bound

theorem Attempt.accepted {a : α} {w' : World} {f : ObjectId}
    (refusal : ∀ e', (.ok a : Except LoadError α) = .error e' ↔ refuses e') (bound : binds w' f) :
    w.Attempt refuses binds (.ok f) w' where
  error_iff := by
    intro e'
    rw [← refusal e']
    simp
  unchanged := by
    intro e failed
    cases failed
  bound := by
    intro f' same
    cases same
    exact bound

end

section

variable (found : w.loaders[l]? = some loader)
  (known : w.dictionaries[loader.dictionary]? = some dictionary)
include found known

theorem attempt_load (id : String) (payload : List UInt8) :
    w.Attempt (loader.Refuses dictionary id (loader.offeredBy payload))
      (fun w' f => ∃ unit, Payload.decode payload loader.config.verifyChecksum = .ok unit ∧
        w.Binds w' l loader dictionary id (unit.name, unit.parameters)
          (.interpreted ⟨w.banks.size, id, unit, l⟩) f)
      (w.load l loader id payload).1 (w.load l loader id payload).2 := by
  have refusal (e : LoadError) : w.accept loader id payload = .error e ↔
      loader.Refuses dictionary id (loader.offeredBy payload) e := accept_eq_error_iff known
  rw [load]
  cases accepted : w.accept loader id payload with
  | error e =>
    simp only [accepted] at refusal
    exact .refused refusal
  | ok unit =>
    simp only [accepted] at refusal
    apply Attempt.accepted refusal
    refine ⟨unit, decode_of_accept accepted, ?_⟩
    apply binds_bind found known
    intro i bank old
    have inside := (Array.getElem?_eq_some_iff.mp old).1
    rw [addBank, Array.getElem?_push, if_neg (Nat.ne_of_lt inside), old]

theorem attempt_defineNative (id name : String) (handle : Handle) :
    w.Attempt (loader.Refuses dictionary id handle.offered)
      (fun w' f => w.Binds w' l loader dictionary id (name, nativeParameters handle) handle f)
      (w.defineNative l loader id name handle).1 (w.defineNative l loader id name handle).2 := by
  have refusal (e : LoadError) : w.acceptNative loader id handle = .error e ↔
      loader.Refuses dictionary id handle.offered e := acceptNative_eq_error_iff known
  rw [defineNative]
  cases accepted : w.acceptNative loader id handle with
  | error e =>
    simp only [accepted] at refusal
    exact .refused refusal
  | ok _ =>
    simp only [accepted] at refusal
    apply Attempt.accepted refusal
    exact binds_bind found known id name _ handle fun _ _ old => old

end

/-- A loader binds an identifier or leaves the session as it was, and a machine that is asked for it
goes straight on with the answer. -/
structure BindsOrLeaves (w : World) (l : LoaderId) (loader : Loader) (dictionary : Dictionary)
    (id : String) : Prop where
  load : ∀ payload, w.Attempt (loader.Refuses dictionary id (loader.offeredBy payload))
    (fun w' f => ∃ unit, Payload.decode payload loader.config.verifyChecksum = .ok unit ∧
      w.Binds w' l loader dictionary id (unit.name, unit.parameters)
        (.interpreted ⟨w.banks.size, id, unit, l⟩) f)
    (w.load l loader id payload).1 (w.load l loader id payload).2
  defineNative : ∀ name handle, w.Attempt (loader.Refuses dictionary id handle.offered)
    (fun w' f => w.Binds w' l loader dictionary id (name, nativeParameters handle) handle f)
    (w.defineNative l loader id name handle).1 (w.defineNative l loader id name handle).2
  /-- Only the unit of a payload that can be read has a wrong number of parameters. -/
  readable : ∀ payload key expected given,
    (w.load l loader id payload).1 = .error (.signatureMismatch key expected given) →
      ∃ unit, Payload.decode payload loader.config.verifyChecksum = .ok unit
  /-- No call is begun. -/
  step_load : ∀ reads waiting payload next,
    (⟨.native (.perform (.load l id payload) next), waiting, w⟩ : Machine).step reads =
      ⟨.native (next (w.load l loader id payload).1), waiting, (w.load l loader id payload).2⟩
  step_defineNative : ∀ reads waiting name spec handle next, w.handleOf spec = some handle →
    (⟨.native (.defineNative l id name spec next), waiting, w⟩ : Machine).step reads =
      ⟨.native (next (w.defineNative l loader id name handle).1), waiting,
        (w.defineNative l loader id name handle).2⟩

theorem bindsOrLeaves (found : w.loaders[l]? = some loader)
    (known : w.dictionaries[loader.dictionary]? = some dictionary) (id : String) :
    w.BindsOrLeaves l loader dictionary id := by
  constructor
  case load => exact attempt_load found known id
  case defineNative => exact attempt_defineNative found known id
  case readable =>
    intro payload key expected given mismatch
    have refused := ((attempt_load found known id payload).error_iff _).mp mismatch
    cases decoded : Payload.decode payload loader.config.verifyChecksum with
    | ok unit => exact ⟨unit, rfl⟩
    | error e =>
      -- then the error is the one of the payload, which says nothing of declarations
      have ofPayload := Payload.ofPayload_of_decode decoded
      cases refused with
      | unreadable unloaded unread =>
        rw [Loader.offeredBy, decoded] at unread
        cases unread
        exact ofPayload.elim
      | signature unloaded read declared differs =>
        rw [Loader.offeredBy, decoded] at read
        cases read
  case step_load =>
    intro reads waiting payload next
    simp [Machine.step, perform, Action.mentions, act, found, Machine.resume]
  case step_defineNative =>
    intro reads waiting name spec handle next made
    simp [Machine.step, define, found, made, Machine.resume]

/-- An identifier is declared with one parameter. A native function with two is refused, and so is
a payload without bytes. -/
theorem bindsOrLeaves_declared :
    withDeclared.loaders[0]? = some ⟨{}, 0, 0, 0, []⟩ ∧
      withDeclared.dictionaries[0]? = some (withDeclared.dictionary 0) ∧
      withDeclared.BindsOrLeaves 0 ⟨{}, 0, 0, 0, []⟩ (withDeclared.dictionary 0) "f" ∧
      (withDeclared.defineNative 0 ⟨{}, 0, 0, 0, []⟩ "f" "own" (.fixed 3 fun _ => .done (.ok
        .undefined))).1 = .error (.signatureMismatch "f" 1 2) ∧
      (withDeclared.load 0 ⟨{}, 0, 0, 0, []⟩ "f" []).1 = .error .truncated := by
  have found : withDeclared.loaders[0]? = some ⟨{}, 0, 0, 0, []⟩ := rfl
  have known : withDeclared.dictionaries[0]? = some (withDeclared.dictionary 0) := rfl
  exact ⟨found, known, bindsOrLeaves found known "f", rfl, rfl⟩

end World

end ProtoVM
