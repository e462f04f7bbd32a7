import Mathlib.Data.List.Nodup
import Mathlib.Data.List.Sort
import ProtoVM.Proofs.Payload.RoundTrip
import ProtoVM.Proofs.Session.BoundIdentifiers

/-!
# Deliveries

A compiler delivers functions to a loader: it declares their identifiers, loads units and defines
native functions. Each step reads what is known about its own identifier and changes nothing else
(`World.Serves.deliver_eq`). So where no two steps are for one identifier each of them does what it
would do alone (`World.Separate`), and their order does not matter (`World.Interchanges`).
-/

namespace ProtoVM

/-! ## What is known about an identifier -/

/-- The handle, except where the caches of its unit are if that was loaded after the first few. -/
def Handle.since (units : Nat) : Handle → Handle
  | .interpreted unit => .interpreted { unit with index := min unit.index units }
  | handle => handle

/-- What an object was made as and how it is called. -/
def Heap.traits? (h : Heap) (units : Nat) (o : ObjectId) : Option (ObjectKind × Handle) :=
  (h.get? o).map fun object => (object.kind, object.handle.since units)

/-- How often an identifier is listed. -/
def Dictionary.listed (d : Dictionary) (id : String) : Nat := (d.entries.map Prod.fst).count id

/-- What a session knows about an identifier, except which object its function is. -/
structure Knowledge where
  listed : Nat
  signature : Option Signature
  function : Option (Option (ObjectKind × Handle))
  loaded : LoaderId → Bool

namespace Knowledge

def declared (known : Knowledge) (signature : Signature) : Knowledge :=
  { known with listed := 1, signature := some signature, function := none }

def bound (known : Knowledge) (l : LoaderId) (own : Signature) (traits : ObjectKind × Handle) :
    Knowledge where
  listed := 1
  signature := known.signature.or (some own)
  function := some (some traits)
  loaded other := decide (other = l) || known.loaded other

end Knowledge

namespace World

/-- What is known about an identifier. -/
def knows (w : World) (units : Nat) (d : DictionaryId) (id : String) : Knowledge where
  listed := (w.dictionary d).listed id
  signature := (w.dictionary d).signature? id
  function := ((w.dictionary d).resolve? id).map (w.heap.traits? units)
  loaded other := w.hasLoaded other id

end World

/-! ## Dictionaries -/

namespace Dictionary

variable {d d' : Dictionary} {id : String}

theorem listed_insert (d : Dictionary) (id key : String) (descriptor : Descriptor) :
    (d.insert id descriptor).listed key = if key = id then 1 else d.listed key := by
  have rest : (d.entries.filter (·.1 ≠ id)).map Prod.fst =
      (d.entries.map Prod.fst).filter (· ≠ id) := by
    rw [List.filter_map]
    rfl
  rw [listed, insert, List.map_cons, rest]
  by_cases same : key = id
  · subst same
    have none : key ∉ (d.entries.map Prod.fst).filter (· ≠ key) := by simp
    rw [if_pos rfl, List.count_cons_self, List.count_eq_zero_of_not_mem none]
  · rw [if_neg same, List.count_cons_of_ne (Ne.symm same), List.count_filter (by simpa using same),
      listed]

/-- The identifiers are told by how often each one is listed. -/
theorem identifiers_eq_of_listed (same : ∀ id, d'.listed id = d.listed id) :
    d'.identifiers = d.identifiers := by
  have perm : (d'.entries.map Prod.fst).Perm (d.entries.map Prod.fst) :=
    List.perm_iff_count.mpr same
  have sorted (ids : List String) :
      (ids.mergeSort fun a b => decide (a ≤ b)).Pairwise fun a b => decide (a ≤ b) := by
    refine List.pairwise_mergeSort ?_ ?_ ids
    · intro a b c hab hbc
      exact decide_eq_true (String.le_trans (of_decide_eq_true hab) (of_decide_eq_true hbc))
    · intro a b
      simpa using String.le_total a b
  refine List.Perm.eq_of_pairwise ?_ (sorted _) (sorted _) ?_
  · intro a b _ _ hab hba
    exact String.le_antisymm (of_decide_eq_true hab) (of_decide_eq_true hba)
  · exact (List.mergeSort_perm _ _).trans (perm.trans (List.mergeSort_perm _ _).symm)

end Dictionary

/-! ## Steps -/

/-- A step on a loader and its dictionary. -/
inductive Delivery where
  | declare (id : String) (descriptor : Descriptor)
  | load (id : String) (payload : List UInt8)
  | defineNative (id name : String) (handle : Handle)

namespace Delivery

def id : Delivery → String
  | declare id _ => id
  | load id _ => id
  | defineNative id _ _ => id

/-- The answer to a step, except which object a function is. -/
inductive Answer where
  | declared (accepted : Bool)
  | bound (result : Except LoadError Unit)

/-- What the function is made as that a step binds. -/
def made? (config : Config) (units : Nat) (l : LoaderId) : Delivery → Option (ObjectKind × Handle)
  | declare _ _ => none
  | load id payload => (Payload.decode payload config.verifyChecksum).toOption.map fun unit =>
      (.function unit.name, .interpreted ⟨units, id, unit, l⟩)
  | defineNative _ name handle => some (.function name, handle.since units)

end Delivery

namespace World

/-- Carries a step out; without the loader there is no answer. -/
def deliver (w : World) (l : LoaderId) (step : Delivery) : Option Delivery.Answer × World :=
  match w.loaders[l]? with
  | none => (none, w)
  | some loader =>
    match step with
    | .declare id descriptor =>
      let (accepted, dictionary) := (w.dictionary loader.dictionary).declare id descriptor
      (some (.declared accepted), w.setDictionary loader.dictionary dictionary)
    | .load id payload =>
      let (result, w) := w.load l loader id payload
      (some (.bound (result.map fun _ => ())), w)
    | .defineNative id name handle =>
      let (result, w) := w.defineNative l loader id name handle
      (some (.bound (result.map fun _ => ())), w)

/-- Carries steps out one after the other, and answers each of them. -/
def deliverAll (w : World) (l : LoaderId) :
    List Delivery → List (Delivery × Option Delivery.Answer) × World
  | [] => ([], w)
  | step :: steps =>
    let (answer, w) := w.deliver l step
    let (answers, w) := w.deliverAll l steps
    ((step, answer) :: answers, w)

/-- A loader with these settings binds into the dictionary, all functions of the dictionary exist,
and at least so many units were loaded. -/
structure Serves (w : World) (units : Nat) (l : LoaderId) (config : Config) (d : DictionaryId) :
    Prop where
  loader : ∃ loader, w.loaders[l]? = some loader ∧ loader.config = config ∧ loader.dictionary = d
  inside : d < w.dictionaries.size
  functions : ∀ id f, (w.dictionary d).resolve? id = some f → w.heap.contains f
  later : units ≤ w.banks.size

end World

/-! ## What a step does to its identifier -/

namespace Knowledge

def checkUnloaded (known : Knowledge) (l : LoaderId) (id : String) : Except LoadError Unit :=
  if known.loaded l then .error (.duplicateUnit id) else .ok ()

def checkParameters (known : Knowledge) (id : String) (found : Nat) : Except LoadError Unit :=
  match known.signature with
  | none => .ok ()
  | some signature =>
    if signature.2.length = found then .ok ()
    else .error (.signatureMismatch id signature.2.length found)

/-- The unit of a payload, if it may be bound. -/
def accept (known : Knowledge) (config : Config) (l : LoaderId) (id : String)
    (payload : List UInt8) : Except LoadError CodeUnit := do
  known.checkUnloaded l id
  let unit ← Payload.decode payload config.verifyChecksum
  known.checkParameters id unit.parameters.length
  return unit

/-- Whether a handle may be bound. -/
def acceptNative (known : Knowledge) (l : LoaderId) (id : String) (handle : Handle) :
    Except LoadError Unit := do
  known.checkUnloaded l id
  match handle.arity? with
  | none => return
  | some arity => known.checkParameters id (arity - 1)

end Knowledge

/-- The answer to a step and what is known afterwards, read off the settings of the loader and what
is known of the identifier. -/
def Delivery.act (config : Config) (units : Nat) (l : LoaderId) (known : Knowledge) :
    Delivery → Answer × Knowledge
  | declare _ descriptor =>
    if known.function.isSome then (.declared false, known)
    else (.declared true, known.declared descriptor.signature)
  | load id payload =>
    match known.accept config l id payload with
    | .error e => (.bound (.error e), known)
    | .ok unit => (.bound (.ok ()), known.bound l (unit.name, unit.parameters)
        (.function unit.name, .interpreted ⟨units, id, unit, l⟩))
  | defineNative id name handle =>
    match known.acceptNative l id handle with
    | .error e => (.bound (.error e), known)
    | .ok () => (.bound (.ok ()), known.bound l (name, World.nativeParameters handle)
        (.function name, handle.since units))

theorem Knowledge.decode_of_accept {known : Knowledge} {config : Config} {l : LoaderId}
    {id : String} {payload : List UInt8} {unit : CodeUnit}
    (accepted : known.accept config l id payload = .ok unit) :
    Payload.decode payload config.verifyChecksum = .ok unit := by
  obtain ⟨_, -, rest⟩ := exists_of_bind_eq_ok accepted
  obtain ⟨unit, decoded, rest⟩ := exists_of_bind_eq_ok rest
  obtain ⟨_, -, same⟩ := exists_of_bind_eq_ok rest
  cases same
  exact decoded

namespace Delivery

variable {config : Config} {units : Nat} {l : LoaderId} {known : Knowledge}

/-- A function that is known by then is one that exists. -/
theorem function_act_ne (there : known.function ≠ some none) (step : Delivery) :
    (step.act config units l known).2.function ≠ some none := by
  cases step with
  | declare id descriptor =>
    rw [act]
    split
    · exact there
    · simp [Knowledge.declared]
  | load id payload =>
    rw [act]
    split
    · exact there
    · simp [Knowledge.bound]
  | defineNative id name handle =>
    rw [act]
    split
    · exact there
    · simp [Knowledge.bound]

/-- A step that binds a function marks its identifier, and the function is the one it makes. -/
theorem bound_act {step : Delivery} (ok : (step.act config units l known).1 = .bound (.ok ())) :
    (step.act config units l known).2.loaded l = true ∧
      (step.act config units l known).2.function = some (step.made? config units l) := by
  cases step with
  | declare id descriptor =>
    rw [act] at ok
    split at ok <;> cases ok
  | load id payload =>
    rw [act] at ok ⊢
    cases accepted : known.accept config l id payload with
    | error e =>
      rw [accepted] at ok
      cases ok
    | ok unit => simp [Knowledge.bound, made?, Knowledge.decode_of_accept accepted, Except.toOption]
  | defineNative id name handle =>
    rw [act] at ok ⊢
    cases accepted : known.acceptNative l id handle with
    | error e =>
      rw [accepted] at ok
      cases ok
    | ok _ => simp [Knowledge.bound, made?]

end Delivery

namespace Heap

variable {h : Heap} {o : ObjectId} {units : Nat}

theorem traits?_newFunction_self (h : Heap) (units : Nat) (name : String) (handle : Handle) :
    (h.newFunction name handle).2.traits? units h.size =
      some (.function name, handle.since units) := by
  show (((h.alloc (.function name) none handle).2.set h.size "apply" (.object h.size)).get?
    h.size).map _ = _
  rw [get?_set, get?_alloc, if_pos rfl]
  simp

theorem traits?_newFunction (present : h.contains o) (name : String) (handle : Handle) :
    (h.newFunction name handle).2.traits? units o = h.traits? units o := by
  rw [traits?, get?_newFunction present, traits?]

theorem contains_iff_traits? (units : Nat) : h.contains o ↔ h.traits? units o ≠ none := by
  rw [contains_iff, traits?, Ne, Option.map_eq_none_iff, ← Ne, Option.ne_none_iff_exists']

end Heap

namespace World

variable {w w' : World} {units : Nat} {l : LoaderId} {loader : Loader} {config : Config}
  {d : DictionaryId} {step : Delivery} {steps steps' : List Delivery}

theorem checkUnloaded_knows (found : w.loaders[l]? = some loader) (d : DictionaryId) (id : String) :
    (w.knows units d id).checkUnloaded l id = checkUnloaded loader id := by
  rw [Knowledge.checkUnloaded, checkUnloaded, ← hasLoaded_eq found]
  rfl

theorem checkParameters_knows (w : World) (d : DictionaryId) (id : String) (found : Nat) :
    (w.knows units d id).checkParameters id found = (w.dictionary d).checkParameters id found := by
  rw [Knowledge.checkParameters, Dictionary.checkParameters, knows, Dictionary.signature?]
  cases (w.dictionary d).descriptor? id <;> rfl

theorem accept_knows (found : w.loaders[l]? = some loader) (id : String) (payload : List UInt8) :
    (w.knows units loader.dictionary id).accept loader.config l id payload =
      w.accept loader id payload := by
  simp only [Knowledge.accept, accept, checkUnloaded_knows found, checkParameters_knows]

theorem acceptNative_knows (found : w.loaders[l]? = some loader) (id : String) (handle : Handle) :
    (w.knows units loader.dictionary id).acceptNative l id handle =
      w.acceptNative loader id handle := by
  rw [Knowledge.acceptNative, acceptNative, checkUnloaded_knows found]
  cases handle.arity? with
  | none => rfl
  | some arity =>
    dsimp only
    rw [checkParameters_knows]

/-- A new entry without a function. -/
theorem knows_setDictionary_insert (inside : d < w.dictionaries.size) (id key : String)
    (descriptor : Descriptor) :
    (w.setDictionary d ((w.dictionary d).insert id { descriptor with function := none })).knows
        units d key =
      if key = id then (w.knows units d id).declared descriptor.signature
      else w.knows units d key := by
  rw [knows, dictionary_setDictionary inside, Dictionary.listed_insert,
    Dictionary.signature?_insert, Dictionary.resolve?_insert]
  by_cases same : key = id
  · subst same
    simp only [if_pos]
    rfl
  · simp only [if_neg same]
    rfl

/-- A new function that is bound, whatever caches are made with it. -/
theorem knows_bind_newFunction (units : Nat) (found : w.loaders[l]? = some loader)
    (inside : loader.dictionary < w.dictionaries.size)
    (functions : ∀ id f, (w.dictionary loader.dictionary).resolve? id = some f → w.heap.contains f)
    (banks : Array CacheBank) (handle : Handle) (id name key : String) (parameters : List String) :
    (bind { w with heap := (w.heap.newFunction name handle).2, banks } l loader id name parameters
        w.heap.size).knows units loader.dictionary key =
      if key = id then
        (w.knows units loader.dictionary id).bound l (name, parameters)
          (.function name, handle.since units)
      else w.knows units loader.dictionary key := by
  let made : World := { w with heap := (w.heap.newFunction name handle).2, banks }
  have dictionary : (made.bind l loader id name parameters w.heap.size).dictionary
      loader.dictionary = (w.dictionary loader.dictionary).bind id name parameters w.heap.size :=
    dictionary_bind (w := made) inside l id name parameters w.heap.size
  have loaded (other : LoaderId) :
      (made.bind l loader id name parameters w.heap.size).hasLoaded other key =
        (w.hasLoaded other key || decide (other = l ∧ key = id)) := by
    rw [Bool.eq_iff_iff, hasLoaded_bind (w := made) found, Bool.or_eq_true, decide_eq_true_iff]
    rfl
  have heap : (made.bind l loader id name parameters w.heap.size).heap =
      (w.heap.newFunction name handle).2 := rfl
  show (made.bind l loader id name parameters w.heap.size).knows units loader.dictionary key = _
  rw [knows, dictionary, heap, Dictionary.signature?_bind, Dictionary.resolve?_bind]
  simp only [loaded, Dictionary.bind, Dictionary.listed_insert]
  by_cases same : key = id
  · subst same
    simp only [if_pos, Option.map_some, Heap.traits?_newFunction_self, and_true]
    simp only [Knowledge.bound, knows, Bool.or_comm]
  · have old : ((w.dictionary loader.dictionary).resolve? key).map
        ((w.heap.newFunction name handle).2.traits? units) =
          ((w.dictionary loader.dictionary).resolve? key).map (w.heap.traits? units) := by
      refine Option.map_congr fun f resolved => ?_
      exact Heap.traits?_newFunction (functions key f resolved) name handle
    have kept (other : LoaderId) :
        (w.hasLoaded other key || decide (other = l ∧ key = id)) = w.hasLoaded other key := by
      simp [same]
    simp only [if_neg same, old, kept]
    rfl

/-- A step does what its identifier and the settings of the loader tell, and leaves all other
identifiers alone. -/
theorem Serves.deliver_eq (serves : w.Serves units l config d) (step : Delivery) :
    (w.deliver l step).1 = some (step.act config units l (w.knows units d step.id)).1 ∧
      ∀ key, (w.deliver l step).2.knows units d key =
        if key = step.id then (step.act config units l (w.knows units d step.id)).2
        else w.knows units d key := by
  obtain ⟨⟨loader, found, rfl, rfl⟩, inside, functions, old⟩ := serves
  have unchanged (key : String) : w.knows units loader.dictionary key =
      if key = step.id then w.knows units loader.dictionary step.id
      else w.knows units loader.dictionary key := by
    split
    · rename_i same
      rw [same]
    · rfl
  rw [deliver, found]
  cases step with
  | declare id descriptor =>
    have bound : (w.knows units loader.dictionary id).function.isSome =
        ((w.dictionary loader.dictionary).resolve? id).isSome := Option.isSome_map ..
    simp only [Delivery.act, Delivery.id, Dictionary.declare, bound]
    by_cases declined : ((w.dictionary loader.dictionary).resolve? id).isSome
    · simp only [if_pos declined, setDictionary_dictionary]
      exact ⟨trivial, unchanged⟩
    · simp only [if_neg declined]
      exact ⟨trivial, fun key => knows_setDictionary_insert inside id key descriptor⟩
  | load id payload =>
    simp only [Delivery.act, Delivery.id, accept_knows found, load]
    cases w.accept loader id payload with
    | error e => exact ⟨rfl, unchanged⟩
    | ok unit =>
      -- the new caches come after all that were there, so that their place is left out
      have place : (Handle.interpreted ⟨w.banks.size, id, unit, l⟩).since units =
          .interpreted ⟨units, id, unit, l⟩ := by
        rw [Handle.since, Nat.min_eq_right old]
      refine ⟨rfl, fun key => ?_⟩
      have known := knows_bind_newFunction units found inside functions (w.addBank unit).banks
        (.interpreted ⟨w.banks.size, id, unit, l⟩) id unit.name key unit.parameters
      rw [place] at known
      exact known
  | defineNative id name handle =>
    simp only [Delivery.act, Delivery.id, acceptNative_knows found, defineNative]
    cases w.acceptNative loader id handle with
    | error e => exact ⟨rfl, unchanged⟩
    | ok _ =>
      refine ⟨rfl, fun key => ?_⟩
      exact knows_bind_newFunction units found inside functions w.banks handle id name key _

/-- Loaders, dictionaries and the caches of units stay. -/
theorem keeps_deliver (w : World) (l : LoaderId) (step : Delivery) :
    w.KeepsLoaders (w.deliver l step).2 ∧
      (w.deliver l step).2.dictionaries.size = w.dictionaries.size ∧
      w.banks.size ≤ (w.deliver l step).2.banks.size := by
  rw [deliver]
  cases w.loaders[l]? with
  | none => exact ⟨.of_eq rfl, rfl, Nat.le_refl _⟩
  | some loader =>
    cases step with
    | declare id descriptor =>
      exact ⟨.of_eq rfl, Array.size_setIfInBounds, Nat.le_refl _⟩
    | load id payload =>
      refine ⟨keepsLoaders_load w l loader id payload, ?_⟩
      dsimp only
      rw [load]
      cases w.accept loader id payload with
      | error e => exact ⟨rfl, Nat.le_refl _⟩
      | ok unit =>
        refine ⟨Array.size_setIfInBounds, ?_⟩
        exact Nat.le_of_lt (Nat.lt_of_lt_of_eq (Nat.lt_succ_self _) (Array.size_push _).symm)
    | defineNative id name handle =>
      refine ⟨keepsLoaders_defineNative w l loader id name handle, ?_⟩
      dsimp only
      rw [defineNative]
      cases w.acceptNative loader id handle with
      | error e => exact ⟨rfl, Nat.le_refl _⟩
      | ok _ => exact ⟨Array.size_setIfInBounds, Nat.le_refl _⟩

theorem Serves.function_knows_ne (serves : w.Serves units l config d) (id : String) :
    (w.knows units d id).function ≠ some none := by
  intro missing
  obtain ⟨f, resolved, gone⟩ := Option.map_eq_some_iff.mp missing
  exact (Heap.contains_iff_traits? units).mp (serves.functions id f resolved) gone

theorem Serves.deliver (serves : w.Serves units l config d) (step : Delivery) :
    (w.deliver l step).2.Serves units l config d := by
  obtain ⟨loaders, dictionaries, banks⟩ := w.keeps_deliver l step
  obtain ⟨-, after⟩ := serves.deliver_eq step
  constructor
  case loader =>
    obtain ⟨loader, found, settings, on⟩ := serves.loader
    obtain ⟨loaded, there⟩ := loaders.old l loader found
    exact ⟨_, there, settings, on⟩
  case inside =>
    rw [dictionaries]
    exact serves.inside
  case functions =>
    intro key f resolved
    have known : ((w.deliver l step).2.knows units d key).function =
        some ((w.deliver l step).2.heap.traits? units f) := by
      rw [knows, resolved]
      rfl
    -- what is known of a function tells whether it exists
    refine (Heap.contains_iff_traits? units).mpr fun gone => ?_
    rw [after, gone] at known
    split at known
    · exact Delivery.function_act_ne (serves.function_knows_ne step.id) step known
    · exact serves.function_knows_ne key known
  case later => exact Nat.le_trans serves.later banks

theorem Serves.knows_deliver_of_ne (serves : w.Serves units l config d) {key : String}
    (other : key ≠ step.id) : (w.deliver l step).2.knows units d key = w.knows units d key := by
  rw [(serves.deliver_eq step).2, if_neg other]

theorem Serves.knows_deliver_self (serves : w.Serves units l config d) :
    (w.deliver l step).2.knows units d step.id =
      (step.act config units l (w.knows units d step.id)).2 := by
  rw [(serves.deliver_eq step).2, if_pos rfl]

/-- Where the same is known of its identifier, a step does the same. -/
theorem Serves.deliver_congr (serves : w.Serves units l config d)
    (serves' : w'.Serves units l config d)
    (same : w'.knows units d step.id = w.knows units d step.id) :
    (w'.deliver l step).1 = (w.deliver l step).1 ∧
      (w'.deliver l step).2.knows units d step.id = (w.deliver l step).2.knows units d step.id := by
  rw [(serves'.deliver_eq step).1, (serves.deliver_eq step).1, serves'.knows_deliver_self,
    serves.knows_deliver_self, same]
  exact ⟨rfl, rfl⟩

/-! ## Steps for different identifiers -/

/-- Each of the steps does what it would do alone. -/
structure Separate (w : World) (units : Nat) (l : LoaderId) (d : DictionaryId)
    (steps : List Delivery) : Prop where
  answers : (w.deliverAll l steps).1 = steps.map fun step => (step, (w.deliver l step).1)
  own : ∀ step ∈ steps, (w.deliverAll l steps).2.knows units d step.id =
    (w.deliver l step).2.knows units d step.id
  others : ∀ id, id ∉ steps.map Delivery.id →
    (w.deliverAll l steps).2.knows units d id = w.knows units d id

theorem Serves.separate (serves : w.Serves units l config d)
    (distinct : (steps.map Delivery.id).Nodup) : w.Separate units l d steps := by
  induction steps generalizing w with
  | nil => exact ⟨rfl, nofun, fun _ _ => rfl⟩
  | cons first steps ih =>
    rw [List.map_cons, List.nodup_cons] at distinct
    obtain ⟨new, distinct⟩ := distinct
    have next := serves.deliver first
    have rest := ih next distinct
    -- the first step leaves the identifiers of the later ones as they find them alone
    have before (step : Delivery) (mem : step ∈ steps) :
        (w.deliver l first).2.knows units d step.id = w.knows units d step.id := by
      refine serves.knows_deliver_of_ne fun same => new ?_
      exact same ▸ List.mem_map_of_mem mem
    constructor
    case answers =>
      rw [deliverAll, List.map_cons]
      dsimp only
      rw [rest.answers]
      refine congrArg _ (List.map_congr_left fun step mem => ?_)
      rw [(serves.deliver_congr next (before step mem)).1]
    case own =>
      intro step mem
      rcases List.mem_cons.mp mem with rfl | later
      · exact rest.others step.id new
      · exact (rest.own step later).trans (serves.deliver_congr next (before step later)).2
    case others =>
      intro id missing
      rw [List.map_cons, List.mem_cons, not_or] at missing
      exact (rest.others id missing.2).trans (serves.knows_deliver_of_ne missing.1)

/-- So whatever their order, the same is known in the end. -/
theorem Serves.knows_deliverAll_perm (serves : w.Serves units l config d)
    (distinct : (steps.map Delivery.id).Nodup) (perm : steps.Perm steps') (id : String) :
    (w.deliverAll l steps').2.knows units d id = (w.deliverAll l steps).2.knows units d id := by
  have ids : (steps.map Delivery.id).Perm (steps'.map Delivery.id) := perm.map _
  have separate := serves.separate distinct
  have separate' := serves.separate (ids.nodup_iff.mp distinct)
  by_cases mem : id ∈ steps.map Delivery.id
  · obtain ⟨step, there, rfl⟩ := List.mem_map.mp mem
    rw [separate.own step there, separate'.own step (perm.mem_iff.mp there)]
  · rw [separate.others id mem, separate'.others id fun mem' => mem (ids.mem_iff.mpr mem')]

theorem Serves.deliverAll (serves : w.Serves units l config d) (steps : List Delivery) :
    (w.deliverAll l steps).2.Serves units l config d := by
  induction steps generalizing w with
  | nil => exact serves
  | cons first steps ih => exact ih (serves.deliver first)

/-- Two sessions know the same of a dictionary and of what is bound, except which objects the
functions are and where the caches of later units are. -/
structure KnowsSame (units : Nat) (d : DictionaryId) (w w' : World) : Prop where
  identifiers : (w'.dictionary d).identifiers = (w.dictionary d).identifiers
  signatures : ∀ id, (w'.dictionary d).signature? id = (w.dictionary d).signature? id
  functions : ∀ id, ((w'.dictionary d).resolve? id).map (w'.heap.traits? units) =
    ((w.dictionary d).resolve? id).map (w.heap.traits? units)
  loaded : ∀ l id, w'.hasLoaded l id = w.hasLoaded l id

theorem knowsSame_of_knows (same : ∀ id, w'.knows units d id = w.knows units d id) :
    KnowsSame units d w w' where
  identifiers := Dictionary.identifiers_eq_of_listed fun id => congrArg Knowledge.listed (same id)
  signatures id := congrArg Knowledge.signature (same id)
  functions id := congrArg Knowledge.function (same id)
  loaded l id := congrFun (congrArg Knowledge.loaded (same id)) l

/-- What steps come to, in one order and in another one. -/
structure Interchanges (w : World) (l : LoaderId) (loader : Loader) (steps steps' : List Delivery) :
    Prop where
  answered : ∀ step ∈ steps, (w.deliver l step).1.isSome
  /-- Each step is answered as it would be alone. -/
  alone : (w.deliverAll l steps).1 = steps.map fun step => (step, (w.deliver l step).1)
  answers : (w.deliverAll l steps').1.Perm (w.deliverAll l steps).1
  known : KnowsSame w.banks.size loader.dictionary (w.deliverAll l steps).2
    (w.deliverAll l steps').2
  /-- Where a function was bound, it is the one that the step makes. -/
  bound : ∀ step ∈ steps, (w.deliver l step).1 = some (.bound (.ok ())) →
    (w.deliverAll l steps).2.hasLoaded l step.id = true ∧
      ∃ f, ((w.deliverAll l steps).2.dictionary loader.dictionary).resolve? step.id = some f ∧
        (w.deliverAll l steps).2.heap.contains f ∧
        (w.deliverAll l steps).2.heap.traits? w.banks.size f =
          step.made? loader.config w.banks.size l

/-- The order in which functions are declared, loaded and defined does not matter, where no two
steps are for one identifier. The dictionary may know anything at first. That it exists, and that
the functions it names exist, is so in every session (`World.Orderly.known`,
`World.Sound.functions`). -/
theorem interchanges_of_perm (found : w.loaders[l]? = some loader)
    (inside : loader.dictionary < w.dictionaries.size)
    (functions : ∀ id f, (w.dictionary loader.dictionary).resolve? id = some f → w.heap.contains f)
    (distinct : (steps.map Delivery.id).Nodup) (perm : steps.Perm steps') :
    w.Interchanges l loader steps steps' := by
  have serves : w.Serves w.banks.size l loader.config loader.dictionary :=
    ⟨⟨loader, found, rfl, rfl⟩, inside, functions, Nat.le_refl _⟩
  have separate := serves.separate distinct
  have separate' := serves.separate ((perm.map Delivery.id).nodup_iff.mp distinct)
  constructor
  case answered =>
    intro step _
    rw [(serves.deliver_eq step).1]
    rfl
  case alone => exact separate.answers
  case answers =>
    rw [separate.answers, separate'.answers]
    exact (perm.map _).symm
  case known => exact knowsSame_of_knows (serves.knows_deliverAll_perm distinct perm)
  case bound =>
    intro step mem ok
    rw [(serves.deliver_eq step).1] at ok
    obtain ⟨marked, made⟩ := Delivery.bound_act (Option.some.inj ok)
    have known := (separate.own step mem).trans serves.knows_deliver_self
    refine ⟨(congrFun (congrArg Knowledge.loaded known) l).trans marked, ?_⟩
    have function := (congrArg Knowledge.function known).trans made
    obtain ⟨f, resolved, traits⟩ := Option.map_eq_some_iff.mp function
    exact ⟨f, resolved, (serves.deliverAll steps).functions step.id f resolved, traits⟩

end World

/-- A payload for an identifier that is bound, a native function, a unit and a declaration. -/
def fourDeliveries : List Delivery :=
  [.load "f" [], .defineNative "n" "own" idleWithOne,
    .load "u" (Payload.encode Payload.everyConstant), .declare "g" ⟨"g", ["y"], some 0⟩]

theorem decode_everyConstant : Payload.decode (Payload.encode Payload.everyConstant) true =
    .ok Payload.everyConstant := by
  have checked : Payload.everyConstant.check = .ok () := by cbv
  rw [Payload.decode, Payload.encode, Payload.decode_encode _ _ Payload.fits_everyConstant, checked]
  rfl

theorem deliver_everyConstant :
    (withDefined.deliver 0 (.load "u" (Payload.encode Payload.everyConstant))).1 =
      some (.bound (.ok ())) := by
  have accepted : withDefined.accept ⟨{}, 0, 0, 0, ["f"]⟩ "u"
      (Payload.encode Payload.everyConstant) = .ok Payload.everyConstant := by
    rw [World.accept, decode_everyConstant]
    decide +kernel
  have found : withDefined.loaders[0]? = some ⟨{}, 0, 0, 0, ["f"]⟩ := by rfl
  rw [World.deliver, found]
  dsimp only
  rw [World.load, accepted]
  rfl

theorem interchanges_of_perm_four :
    withDefined.loaders[0]? = some ⟨{}, 0, 0, 0, ["f"]⟩ ∧ 0 < withDefined.dictionaries.size ∧
      (∀ id f, (withDefined.dictionary 0).resolve? id = some f → withDefined.heap.contains f) ∧
      (fourDeliveries.map Delivery.id).Nodup ∧ fourDeliveries.Perm fourDeliveries.reverse ∧
      withDefined.Interchanges 0 ⟨{}, 0, 0, 0, ["f"]⟩ fourDeliveries fourDeliveries.reverse ∧
      fourDeliveries.map (fun step => (withDefined.deliver 0 step).1) =
        [some (.bound (.error (.duplicateUnit "f"))), some (.bound (.ok ())),
          some (.bound (.ok ())), some (.declared true)] := by
  have found : withDefined.loaders[0]? = some ⟨{}, 0, 0, 0, ["f"]⟩ := by rfl
  have inside : 0 < withDefined.dictionaries.size := by decide +kernel
  have functions : ∀ id f, (withDefined.dictionary 0).resolve? id = some f →
      withDefined.heap.contains f := by
    have known : withDefined.dictionary 0 = ⟨[("f", ⟨"declared", ["x"], some 1⟩)]⟩ := by rfl
    have there : withDefined.heap.contains 1 := by decide +kernel
    intro id f resolved
    rw [known, Dictionary.resolve?, Dictionary.descriptor?, List.lookup_cons] at resolved
    split at resolved
    · cases resolved
      exact there
    · cases resolved
  have distinct : (fourDeliveries.map Delivery.id).Nodup := by
    simp [fourDeliveries, Delivery.id]
  have perm : fourDeliveries.Perm fourDeliveries.reverse := (List.reverse_perm _).symm
  have rest : (withDefined.deliver 0 (.load "f" [])).1 =
        some (.bound (.error (.duplicateUnit "f"))) ∧
      (withDefined.deliver 0 (.defineNative "n" "own" idleWithOne)).1 = some (.bound (.ok ())) ∧
      (withDefined.deliver 0 (.declare "g" ⟨"g", ["y"], some 0⟩)).1 = some (.declared true) := by
    refine ⟨by rfl, by rfl, by rfl⟩
  refine ⟨found, inside, functions, distinct, perm, ?_, ?_⟩
  · exact World.interchanges_of_perm found inside functions distinct perm
  · simp only [fourDeliveries, List.map_cons, List.map_nil, rest, deliver_everyConstant]

end ProtoVM
