import ProtoVM.Proofs.Call.Confinement
import ProtoVM.Proofs.Object.HiddenObjects
import ProtoVM.Proofs.Session.Operations

/-!
# Concealment

A session hides objects when neither its heap nor a dictionary nor a loader leads to one of them and
all native code behind its functions knows others only (`World.Hides`). What host code asks for
while it names other objects keeps them hidden, leaves them as they are (`World.Seals`), and is
answered with other objects.
-/

namespace ProtoVM.World

/-- The object exists and is not secret. -/
def Open (w : World) (secret : ObjectId → Prop) (o : ObjectId) : Prop :=
  w.heap.contains o ∧ ¬ secret o

/-- The value is no object or an open one. -/
def Shows (w : World) (secret : ObjectId → Prop) (v : Value) : Prop :=
  ∀ o, v.asObject? = some o → w.Open secret o

/-- Nothing in the session leads to a secret object. -/
structure Hides (secret : ObjectId → Prop) (w : World) : Prop where
  heap : w.heap.Hides secret
  functions : ∀ d ∈ w.dictionaries, ∀ id o, d.resolve? id = some o → ¬ secret o
  globals : ∀ loader ∈ w.loaders, ¬ secret loader.global
  handles : ∀ o, (w.heap.handle o).Confined (w.Open secret)

/-- The second session hides the secret objects, and those that were there are as they were. -/
structure Seals (secret : ObjectId → Prop) (w w' : World) : Prop where
  hides : w'.Hides secret
  heap : w.heap.Seals secret w'.heap

variable {allowed : Action → Prop} {secret : ObjectId → Prop} {w w' : World} {v : Value}

theorem Shows.closed (shows : w.Shows secret v) : w.heap.closed v := by
  cases v with
  | object o => exact (shows o rfl).1
  | _ => rfl

theorem Shows.avoids (shows : w.Shows secret v) : v.Avoids secret := fun o same => (shows o same).2

theorem shows_of_closed (closed : w.heap.closed v) (avoids : v.Avoids secret) :
    w.Shows secret v := by
  intro o same
  rw [Heap.closed, same] at closed
  exact ⟨closed, avoids o same⟩

theorem shows_object {o : ObjectId} (isOpen : w.Open secret o) : w.Shows secret (.object o) := by
  rintro p ⟨⟩
  exact isOpen

theorem shows_of_plain (plain : v.asObject? = none) : w.Shows secret v := by
  intro o same
  rw [plain] at same
  cases same

theorem Open.mono (evolves : w.heap.Evolves w'.heap) {o : ObjectId} (isOpen : w.Open secret o) :
    w'.Open secret o := ⟨evolves.contains isOpen.1, isOpen.2⟩

theorem Open.insert {s o : ObjectId} (absent : ¬ w.heap.contains s) (isOpen : w.Open secret o) :
    w.Open (fun o => secret o ∨ o = s) o := by
  refine ⟨isOpen.1, ?_⟩
  rintro (old | rfl)
  · exact isOpen.2 old
  · exact absent isOpen.1

theorem Shows.insert {s : ObjectId} (absent : ¬ w.heap.contains s) (shows : w.Shows secret v) :
    w.Shows (fun o => secret o ∨ o = s) v := fun o same => (shows o same).insert absent

theorem Shows.mono (evolves : w.heap.Evolves w'.heap) (shows : w.Shows secret v) :
    w'.Shows secret v := fun o same => (shows o same).mono evolves

theorem hides_empty : empty.Hides secret where
  heap := Heap.hides_empty
  functions := fun _ mem => nomatch mem
  globals := fun _ mem => nomatch mem
  handles := fun _ => trivial

theorem Seals.refl (hides : w.Hides secret) : w.Seals secret w := ⟨hides, .refl hides.heap⟩

theorem Seals.trans {a b c : World} (hab : a.Seals secret b) (hbc : b.Seals secret c) :
    a.Seals secret c := ⟨hbc.hides, hab.heap.trans hbc.heap⟩

/-- An object that is not there yet can be kept secret. -/
theorem Hides.insert (hides : w.Hides secret) (sound : w.Sound allowed) {s : ObjectId}
    (absent : ¬ w.heap.contains s) : w.Hides fun o => secret o ∨ o = s where
  heap := hides.heap.insert sound.heap absent
  functions := by
    rintro d mem id o found (old | rfl)
    · exact hides.functions d mem id o found old
    · exact absent (sound.functions d mem id o found)
  globals := by
    rintro loader mem (old | same)
    · exact hides.globals loader mem old
    · exact absent (same ▸ sound.globals loader mem)
  handles := fun o => (hides.handles o).mono fun _ isOpen => isOpen.insert absent

/-! ## What is read -/

theorem Hides.not_secret_of_resolve? (hides : w.Hides secret) {d : DictionaryId} {id : String}
    {o : ObjectId} (found : (w.dictionary d).resolve? id = some o) : ¬ secret o := by
  rw [dictionary] at found
  cases hd : w.dictionaries[d]? with
  | none =>
    rw [hd] at found
    cases found
  | some dictionary =>
    rw [hd] at found
    exact hides.functions dictionary (Array.mem_of_getElem? hd) id o found

section

variable (sound : w.Sound allowed) (hides : w.Hides secret)
include sound hides

theorem holds_shows : w.heap.Holds (w.Shows secret) := fun o object found v mem =>
  shows_of_closed (sound.heap.values o object found v mem) (hides.heap.values o object found v mem)

theorem open_of_resolve? {d : DictionaryId} {id : String} {o : ObjectId}
    (found : (w.dictionary d).resolve? id = some o) : w.Open secret o :=
  ⟨contains_of_resolve? sound found, hides.not_secret_of_resolve? found⟩

theorem open_of_proto? {o p : ObjectId} (found : w.heap.proto? o = some p) : w.Open secret p := by
  obtain ⟨object, ho, proto⟩ := Option.bind_eq_some_iff.mp found
  refine ⟨?_, hides.heap.protos o object p ho proto⟩
  have older := sound.heap.protos o object p ho proto
  have present := Heap.contains_of_get? ho
  rw [Heap.contains, decide_eq_true_iff] at present ⊢
  exact Nat.lt_trans older present

theorem open_of_global {l : LoaderId} {loader : Loader} (found : w.loaders[l]? = some loader) :
    w.Open secret loader.global :=
  have mem := Array.mem_of_getElem? found
  ⟨sound.globals loader mem, hides.globals loader mem⟩

end

/-! ## Changing one part -/

section

variable (hides : w.Hides secret)
include hides

/-- The heap is led on, also by a change of secret objects. -/
theorem hides_withHeap {made : Handle} {h : Heap} (leads : w.heap.Leads made h)
    (heap : h.Hides secret) (confined : made.Confined (w.Open secret)) :
    Hides secret { w with heap := h } where
  heap := heap
  functions := hides.functions
  globals := hides.globals
  handles := by
    intro o
    have more : ∀ p, w.Open secret p → Open { w with heap := h } secret p := fun p isOpen =>
      isOpen.mono leads.evolves
    show (h.handle o).Confined _
    rcases leads.handles o with same | new
    · rw [same]
      exact (hides.handles o).mono more
    · rw [new]
      exact confined.mono more

theorem seals_withHeap {made : Handle} {h : Heap} (leads : w.heap.Leads made h)
    (seals : w.heap.Seals secret h) (confined : made.Confined (w.Open secret)) :
    w.Seals secret { w with heap := h } where
  hides := hides_withHeap hides leads seals.hides confined
  heap := seals

theorem seals_withDictionaries {dictionaries : Array Dictionary}
    (functions : ∀ d ∈ dictionaries, ∀ id o, d.resolve? id = some o → ¬ secret o) :
    w.Seals secret { w with dictionaries } where
  hides := { hides with functions }
  heap := .refl hides.heap

theorem seals_withLoaders {loaders : Array Loader}
    (globals : ∀ loader ∈ loaders, ¬ secret loader.global) :
    w.Seals secret { w with loaders } where
  hides := { hides with globals }
  heap := .refl hides.heap

theorem seals_withBanks (banks : Array CacheBank) : w.Seals secret { w with banks } where
  hides := { hides with }
  heap := .refl hides.heap

theorem seals_withCaches (caches : Array PropertyCache) : w.Seals secret { w with caches } where
  hides := { hides with }
  heap := .refl hides.heap

theorem seals_setDictionary (d : DictionaryId) {dictionary : Dictionary}
    (functions : ∀ id o, dictionary.resolve? id = some o → ¬ secret o) :
    w.Seals secret (w.setDictionary d dictionary) := by
  apply seals_withDictionaries hides
  intro other mem
  rcases Array.mem_or_eq_of_mem_setIfInBounds mem with mem | rfl
  · exact hides.functions other mem
  · exact functions

theorem seals_mapLoader (l : LoaderId) {f : Loader → Loader}
    (global : ∀ loader, (f loader).global = loader.global) :
    w.Seals secret (w.mapLoader l f) := by
  apply seals_withLoaders hides
  intro loader mem
  rcases mem_modify mem with mem | ⟨old, hold, rfl⟩
  · exact hides.globals loader mem
  · rw [global]
    exact hides.globals old hold

theorem seals_enter (l : LoaderId) (loader : Loader) : w.Seals secret (w.enter l loader).2 := by
  rw [enter]
  by_cases deep : loader.config.maxCallDepth.toNat ≤ loader.depth
  · rw [if_pos deep]
    exact .refl hides
  · rw [if_neg deep]
    exact seals_mapLoader hides l fun _ => rfl

theorem seals_leave (l : LoaderId) : w.Seals secret (w.leave l) :=
  seals_mapLoader hides l fun _ => rfl

end

section

variable (sound : w.Sound allowed) (hides : w.Hides secret)
include sound hides

theorem seals_set {o : ObjectId} (notSecret : ¬ secret o) {key : String}
    (shows : w.Shows secret v) : w.Seals secret (w.mapHeap (·.set o key v)) := by
  have leads : w.heap.Leads .inert (w.heap.set o key v) := Heap.leads_set sound.heap shows.closed
  exact seals_withHeap hides leads (Heap.seals_set hides.heap notSecret shows.avoids) trivial

/-- A value can be bound in a secret object too. -/
theorem hides_set {o : ObjectId} {key : String} (shows : w.Shows secret v) :
    (w.mapHeap (·.set o key v)).Hides secret := by
  have leads : w.heap.Leads .inert (w.heap.set o key v) := Heap.leads_set sound.heap shows.closed
  exact hides_withHeap hides leads (Heap.hides_set hides.heap shows.avoids) trivial

theorem hides_setAll {o : ObjectId} {entries : List (String × Value)}
    (shows : ∀ entry ∈ entries, w.Shows secret entry.2) :
    (w.mapHeap (·.setAll o entries)).Hides secret := by
  have leads : w.heap.Leads .inert (w.heap.setAll o entries) :=
    Heap.leads_setAll sound.heap entries fun entry mem => (shows entry mem).closed
  refine hides_withHeap hides leads (Heap.hides_setAll hides.heap entries ?_) trivial
  exact fun entry mem => (shows entry mem).avoids

theorem seals_newObject {proto : Option ObjectId} (opens : ∀ p, proto = some p → w.Open secret p) :
    w.Seals secret (w.allocWith (·.newObject proto)).2 := by
  have leads := Heap.leads_newObject sound.heap fun p same => (opens p same).1
  exact seals_withHeap hides leads (Heap.seals_alloc hides.heap fun p same => (opens p same).2)
    trivial

theorem seals_newScope {parent : Option ObjectId}
    (opens : ∀ p, parent = some p → w.Open secret p) :
    w.Seals secret (w.allocWith (·.newScope parent)).2 := by
  have leads := Heap.leads_newScope sound.heap fun p same => (opens p same).1
  exact seals_withHeap hides leads (Heap.seals_alloc hides.heap fun p same => (opens p same).2)
    trivial

omit sound in
theorem seals_bind (l : LoaderId) (loader : Loader) (id name : String) (parameters : List String)
    {function : ObjectId} (notSecret : ¬ secret function) :
    w.Seals secret (w.bind l loader id name parameters function) := by
  have entered : w.Seals secret (w.setDictionary loader.dictionary
      ((w.dictionary loader.dictionary).bind id name parameters function)) := by
    apply seals_setDictionary hides
    intro key o found
    rw [Dictionary.resolve?_bind] at found
    by_cases same : key = id
    · rw [if_pos same] at found
      cases found
      exact notSecret
    · rw [if_neg same] at found
      exact hides.not_secret_of_resolve? found
  exact entered.trans (seals_mapLoader entered.hides l fun _ => rfl)

end

/-! ## Functions -/

section

variable (sound : w.Sound allowed) (hides : w.Hides secret)
  (present : ∀ o, secret o → w.heap.contains o)
include present

/-- The object that is made next is not secret. -/
theorem not_secret_size : ¬ secret w.heap.size := fun hidden =>
  Heap.not_contains_size w.heap (present _ hidden)

include sound hides

theorem seals_allocFunction (name : String) {handle : Handle}
    (confined : handle.Confined (w.Open secret)) :
    w.Seals secret (w.allocWith (·.newFunction name handle)).2 :=
  seals_withHeap hides (Heap.leads_newFunction sound.heap name handle)
    (Heap.seals_newFunction hides.heap (not_secret_size present) name handle) confined

theorem seals_install (l : LoaderId) (loader : Loader) (id : String) (unit : CodeUnit) :
    w.Seals secret (w.install l loader id unit).2 := by
  have banked : w.Seals secret (w.addBank unit) := seals_withBanks hides _
  have confined : (Handle.interpreted ⟨w.banks.size, id, unit, l⟩).Confined
      ((w.addBank unit).Open secret) := trivial
  have made := seals_allocFunction (leads_addBank sound unit).sound banked.hides present unit.name
    confined
  have bound := seals_bind made.hides l loader id unit.name unit.parameters
    (not_secret_size present)
  exact (banked.trans made).trans bound

theorem seals_load (l : LoaderId) (loader : Loader) (id : String) (payload : List UInt8) :
    w.Seals secret (w.load l loader id payload).2 := by
  rw [load]
  cases w.accept loader id payload with
  | error e => exact .refl hides
  | ok unit => exact seals_install sound hides present l loader id unit

omit sound hides in
/-- The function that a payload was loaded as is a new one. -/
theorem open_of_load {l : LoaderId} {loader : Loader} {id : String} {payload : List UInt8}
    {f : ObjectId} (loaded : (w.load l loader id payload).1 = .ok f) :
    (w.load l loader id payload).2.Open secret f := by
  rw [load] at loaded ⊢
  cases accepted : w.accept loader id payload with
  | error e =>
    rw [accepted] at loaded
    cases loaded
  | ok unit =>
    rw [accepted] at loaded
    cases loaded
    exact ⟨Heap.contains_newFunction .., not_secret_size present⟩

theorem seals_defineNative (l : LoaderId) (loader : Loader) (id name : String) {handle : Handle}
    (confined : handle.Confined (w.Open secret)) :
    w.Seals secret (w.defineNative l loader id name handle).2 := by
  rw [defineNative]
  cases w.acceptNative loader id handle with
  | error e => exact .refl hides
  | ok _ =>
    have made := seals_allocFunction sound hides present name confined
    exact made.trans (seals_bind made.hides l loader id name (nativeParameters handle)
      (not_secret_size present))

omit sound hides in
theorem open_of_defineNative {l : LoaderId} {loader : Loader} {id name : String} {handle : Handle}
    {f : ObjectId} (defined : (w.defineNative l loader id name handle).1 = .ok f) :
    (w.defineNative l loader id name handle).2.Open secret f := by
  rw [defineNative] at defined ⊢
  cases accepted : w.acceptNative loader id handle with
  | error e =>
    rw [accepted] at defined
    cases defined
  | ok _ =>
    rw [accepted] at defined
    cases defined
    exact ⟨Heap.contains_newFunction .., not_secret_size present⟩

/-! ## What native code asks for -/

omit sound present in
/-- The native code of a new function knows no more than the one that makes it. -/
theorem confined_of_handleOf {known : ObjectId → Prop} {spec : HandleSpec NativeEntry}
    {handle : Handle} (knows : ∀ o, known o → w.Open secret o)
    (entries : ∀ entry, spec.entry? = some entry → ∀ args,
      (entry args).Confined (Learned known (objectsOf args)))
    (found : w.handleOf spec = some handle) : handle.Confined (w.Open secret) := by
  cases spec with
  | inert =>
    cases found
    exact trivial
  | fixed arity entry =>
    cases found
    exact fun args => (entries entry rfl args).mono fun _ => Learned.mono knows
  | variadic entry =>
    cases found
    exact fun args => (entries entry rfl args).mono fun _ => Learned.mono knows
  | sameAs o =>
    obtain ⟨object, ho, rfl⟩ := Option.map_eq_some_iff.mp found
    have confined := hides.handles o
    rw [Heap.handle, ho] at confined
    exact confined

variable {known : ObjectId → Prop} (knows : ∀ o, known o → w.Open secret o)

include knows

theorem seals_newFunction (name : String) {spec : HandleSpec NativeEntry}
    (entries : ∀ entry, spec.entry? = some entry → ∀ args,
      (entry args).Confined (Learned known (objectsOf args))) :
    w.Seals secret (w.newFunction name spec).2 := by
  rw [newFunction]
  cases found : w.handleOf spec with
  | none => exact .refl hides
  | some handle =>
    exact seals_allocFunction sound hides present name
      (confined_of_handleOf hides knows entries found)

theorem seals_define (l : LoaderId) (id name : String) {spec : HandleSpec NativeEntry}
    (entries : ∀ entry, spec.entry? = some entry → ∀ args,
      (entry args).Confined (Learned known (objectsOf args))) :
    w.Seals secret (w.define l id name spec).2 := by
  rw [define]
  cases w.loaders[l]? with
  | none => exact .refl hides
  | some loader =>
    cases found : w.handleOf spec with
    | none => exact .refl hides
    | some handle =>
      exact seals_defineNative sound hides present l loader id name
        (confined_of_handleOf hides knows entries found)

omit sound hides knows in
theorem open_of_newFunction {name : String} {spec : HandleSpec NativeEntry} {o : ObjectId}
    (made : (w.newFunction name spec).1 = some o) :
    (w.newFunction name spec).2.Open secret o := by
  rw [newFunction] at made ⊢
  cases found : w.handleOf spec with
  | none =>
    rw [found] at made
    cases made
  | some handle =>
    rw [found] at made
    cases made
    exact ⟨Heap.contains_newFunction .., not_secret_size present⟩

omit sound hides knows in
theorem open_of_define {l : LoaderId} {id name : String} {spec : HandleSpec NativeEntry}
    {answer : Except LoadError ObjectId} (defined : (w.define l id name spec).1 = some answer) :
    ∀ o ∈ answer.toOption.toList, (w.define l id name spec).2.Open secret o := by
  intro o mem
  rw [define] at defined ⊢
  cases hl : w.loaders[l]? with
  | none =>
    rw [hl] at defined
    cases defined
  | some loader =>
    cases found : w.handleOf spec with
    | none =>
      rw [hl, found] at defined
      cases defined
    | some handle =>
      rw [hl, found] at defined
      dsimp only at defined ⊢
      obtain rfl := Option.some.inj defined
      cases result : (w.defineNative l loader id name handle).1 with
      | error e =>
        rw [result] at mem
        cases mem
      | ok f =>
        rw [result] at mem
        obtain rfl := List.mem_singleton.mp mem
        exact open_of_defineNative present result

theorem seals_map (o : ObjectId) {f : Value → Value} (maps : (Action.map o f).MapsWithin known) :
    w.Seals secret (w.act (.map o f)).2 := by
  rw [act]
  split
  · rename_i closed
    have images : ∀ entry ∈ w.heap.entries o, w.heap.closed (f entry.2) := fun entry mem =>
      List.all_eq_true.mp closed entry mem
    refine seals_withHeap hides (Heap.leads_map sound.heap images)
      (Heap.seals_map hides.heap (not_secret_size present) ?_) trivial
    intro v avoids p image
    rcases maps v p image with old | same
    · exact (knows p old).2
    · exact avoids p same
  · exact .refl hides

/-- What is asked for with open objects keeps the secret ones hidden and as they are. -/
theorem seals_act (a : Action) (opens : ∀ o ∈ a.mentions, w.Open secret o)
    (maps : a.MapsWithin known) : w.Seals secret (w.act a).2 := by
  cases a with
  | newObject proto =>
    exact seals_newObject sound hides fun p same => opens p (Option.mem_toList.mpr same)
  | newScope parent =>
    exact seals_newScope sound hides fun p same => opens p (Option.mem_toList.mpr same)
  | set o key value =>
    refine seals_set sound hides (opens o List.mem_cons_self).2 fun p same => ?_
    exact opens p (List.mem_cons_of_mem _ (Option.mem_toList.mpr same))
  | map o f => exact seals_map sound hides present knows o maps
  | invalidate ts =>
    have leads : w.heap.Leads .inert (w.heap.invalidateAll ts) :=
      Heap.leads_invalidateAll sound.heap ts
    refine seals_withHeap hides leads (Heap.seals_invalidateAll hides.heap ts ?_) trivial
    exact fun t mem => (opens t.owner (List.mem_map_of_mem mem)).2
  | newCache key => exact seals_withCaches hides _
  | cachedLookup c o =>
    rw [act]
    cases w.caches[c]? with
    | none => exact .refl hides
    | some cache => exact seals_withCaches hides _
  | resetCache c => exact seals_withCaches hides _
  | newDictionary =>
    refine seals_withDictionaries hides fun d mem id o found => ?_
    rcases Array.mem_push.mp mem with mem | rfl
    · exact hides.functions d mem id o found
    · cases found
  | declare d id name parameters function =>
    rw [act]
    cases found : w.dictionaries[d]? with
    | none => exact .refl hides
    | some dictionary =>
      refine seals_setDictionary hides d fun key o resolved => ?_
      rw [Dictionary.resolve?_declare] at resolved
      exact hides.functions dictionary (Array.mem_of_getElem? found) key o resolved
  | newLoader config d global =>
    rw [act]
    split
    · refine seals_withLoaders hides fun loader mem => ?_
      rcases Array.mem_push.mp mem with mem | rfl
      · exact hides.globals loader mem
      · exact (opens global List.mem_cons_self).2
    · exact .refl hides
  | load l id payload =>
    rw [act]
    cases w.loaders[l]? with
    | none => exact .refl hides
    | some loader => exact seals_load sound hides present l loader id payload
  | unitCachedLookup f offset receiver =>
    obtain ⟨banks, same, -⟩ := w.exists_banks_useUnitCache f offset (·.lookup w.heap receiver)
    rw [act, same]
    exact seals_withBanks hides banks
  | resetUnitCache f offset =>
    obtain ⟨banks, same, -⟩ := w.exists_banks_useUnitCache f offset fun cache => ((), cache.reset)
    rw [act, same]
    exact seals_withBanks hides banks
  | _ => exact .refl hides

omit knows in
/-- What a session answers gives away open objects only. -/
theorem open_of_mem_revealed (a : Action) (opens : ∀ o ∈ a.mentions, w.Open secret o)
    {answer : a.Answer} (answered : (w.act a).1 = some answer) :
    ∀ o ∈ a.revealed answer, (w.act a).2.Open secret o := by
  have holds := holds_shows sound hides
  have undefined : w.Shows secret .undefined := shows_of_plain rfl
  intro o mem
  cases a with
  | newObject proto =>
    cases answered
    obtain rfl := List.mem_singleton.mp mem
    exact ⟨Heap.contains_alloc_self, not_secret_size present⟩
  | newScope parent =>
    cases answered
    obtain rfl := List.mem_singleton.mp mem
    exact ⟨Heap.contains_alloc_self, not_secret_size present⟩
  | lookup p key =>
    cases answered
    exact holds.lookup undefined p key o (Option.mem_toList.mp mem)
  | getOwn p key =>
    cases answered
    obtain ⟨v, found, same⟩ := Option.bind_eq_some_iff.mp (Option.mem_toList.mp mem)
    exact holds.getOwn? found o same
  | atSlot p slot => exact holds.atSlot? answered o (Option.mem_toList.mp mem)
  | info p =>
    cases answered
    exact open_of_proto? sound hides (Option.mem_toList.mp mem)
  | map p f =>
    rw [act] at answered ⊢
    split at answered
    · rename_i closed
      cases answered
      obtain rfl := List.mem_singleton.mp mem
      have images : ∀ entry ∈ w.heap.entries p, w.heap.closed (f entry.2) := fun entry mem =>
        List.all_eq_true.mp closed entry mem
      rw [if_pos closed]
      exact ⟨Heap.contains_map sound.heap images, not_secret_size present⟩
    · cases answered
  | token p =>
    cases answered
    obtain rfl := List.mem_singleton.mp mem
    exact opens _ List.mem_cons_self
  | cachedLookup c p =>
    rw [act] at answered ⊢
    cases found : w.caches[c]? with
    | none =>
      rw [found] at answered
      cases answered
    | some cache =>
      rw [found] at answered
      cases answered
      exact PropertyCache.good_lookup cache holds undefined p o (Option.mem_toList.mp mem)
  | descriptor d id =>
    obtain ⟨dictionary, hd, rfl⟩ := Option.map_eq_some_iff.mp answered
    have found : (w.dictionary d).resolve? id = some o := by
      rw [World.dictionary, hd]
      exact Option.mem_toList.mp mem
    exact open_of_resolve? sound hides found
  | loaderInfo l =>
    obtain ⟨loader, found, rfl⟩ := Option.map_eq_some_iff.mp answered
    obtain rfl := List.mem_singleton.mp mem
    exact open_of_global sound hides found
  | load l id payload =>
    rw [act] at answered ⊢
    cases found : w.loaders[l]? with
    | none =>
      rw [found] at answered
      cases answered
    | some loader =>
      rw [found] at answered
      dsimp only at answered ⊢
      obtain rfl := Option.some.inj answered
      cases loaded : (w.load l loader id payload).1 with
      | error e =>
        rw [loaded] at mem
        cases mem
      | ok f =>
        rw [loaded] at mem
        obtain rfl := List.mem_singleton.mp mem
        exact open_of_load present loaded
  | unitCachedLookup f offset p =>
    rw [act] at answered ⊢
    rcases w.useUnitCache_cases f offset (·.lookup w.heap p) with
      ⟨-, missing⟩ | ⟨unit, cache, -, -, used⟩
    · rw [missing] at answered
      obtain rfl := Option.some.inj answered
      cases mem
    · rw [used] at answered ⊢
      obtain rfl := Option.some.inj answered
      exact PropertyCache.good_lookup cache holds undefined p o (Option.mem_toList.mp mem)
  | _ => cases mem

variable {action : Action} (names : ∀ o ∈ action.mentions, known o)
include names

theorem seals_perform (maps : action.MapsWithin known) : w.Seals secret (w.perform action).2 := by
  rw [perform]
  split
  · exact seals_act sound hides present knows action (fun o mem => knows o (names o mem)) maps
  · exact .refl hides

theorem open_of_perform {answer : action.Answer}
    (answered : (w.perform action).1 = some answer) :
    ∀ o ∈ action.revealed answer, (w.perform action).2.Open secret o := by
  rw [perform] at answered ⊢
  split at answered
  · rename_i exist
    rw [if_pos exist]
    exact open_of_mem_revealed sound hides present action (fun o mem => knows o (names o mem))
      answered
  · cases answered

end

end ProtoVM.World
