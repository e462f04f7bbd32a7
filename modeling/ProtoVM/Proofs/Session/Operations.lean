import ProtoVM.Proofs.Session.Dictionaries
import ProtoVM.Proofs.Session.Loading
import ProtoVM.Proofs.Session.Soundness

/-!
# Operations on sessions

Every operation on a sound session leads to a sound session: the actions of host code, the making
and binding of functions, and the entering and leaving of units.
-/

namespace ProtoVM

/-- An element of an array that was changed at one place is an old one or a changed one. -/
theorem mem_modify {α : Type} {xs : Array α} {i : Nat} {f : α → α} {y : α}
    (h : y ∈ xs.modify i f) : y ∈ xs ∨ ∃ x ∈ xs, y = f x := by
  obtain ⟨j, hj⟩ := Array.mem_iff_getElem?.mp h
  rw [Array.getElem?_modify] at hj
  by_cases same : i = j
  · rw [if_pos same] at hj
    obtain ⟨x, hx, rfl⟩ := Option.map_eq_some_iff.mp hj
    exact .inr ⟨x, Array.mem_of_getElem? hx, rfl⟩
  · rw [if_neg same] at hj
    exact .inl (Array.mem_of_getElem? hj)

namespace World

variable {allowed : Action → Prop} {w : World} (sound : w.Sound allowed)

include sound

/-! ## The heap -/

theorem leads_set {o : ObjectId} {key : String} {value : Value} (closed : w.heap.closed value) :
    w.Leads allowed (w.mapHeap (·.set o key value)) := by
  have leads : w.heap.Leads .inert (w.heap.set o key value) := Heap.leads_set sound.heap closed
  exact leads_withHeap sound leads trivial

theorem leads_setAll {o : ObjectId} {entries : List (String × Value)}
    (closed : ∀ entry ∈ entries, w.heap.closed entry.2) :
    w.Leads allowed (w.mapHeap (·.setAll o entries)) := by
  have leads : w.heap.Leads .inert (w.heap.setAll o entries) :=
    Heap.leads_setAll sound.heap entries closed
  exact leads_withHeap sound leads trivial

theorem leads_newObject {proto : Option ObjectId}
    (older : ∀ p, proto = some p → w.heap.contains p) :
    w.Leads allowed (w.allocWith (·.newObject proto)).2 :=
  leads_withHeap sound (Heap.leads_newObject sound.heap older) trivial

theorem leads_newScope {parent : Option ObjectId}
    (older : ∀ p, parent = some p → w.heap.contains p) :
    w.Leads allowed (w.allocWith (·.newScope parent)).2 :=
  leads_withHeap sound (Heap.leads_newScope sound.heap older) trivial

theorem leads_allocFunction (name : String) {handle : Handle} (admits : w.Admits allowed handle) :
    w.Leads allowed (w.allocWith (·.newFunction name handle)).2 :=
  leads_withHeap sound (Heap.leads_newFunction sound.heap name handle) admits

/-! ## Dictionaries and loaders -/

theorem leads_setDictionary (d : DictionaryId) {dictionary : Dictionary}
    (h : ∀ id o, dictionary.resolve? id = some o → w.heap.contains o) :
    w.Leads allowed (w.setDictionary d dictionary) := by
  apply leads_withDictionaries sound
  intro other mem
  rcases Array.mem_or_eq_of_mem_setIfInBounds mem with mem | rfl
  · exact sound.functions other mem
  · exact h

theorem contains_of_resolve? {d : DictionaryId} {id : String} {o : ObjectId}
    (found : (w.dictionary d).resolve? id = some o) : w.heap.contains o := by
  rw [dictionary] at found
  cases hd : w.dictionaries[d]? with
  | none =>
    rw [hd] at found
    cases found
  | some dictionary =>
    rw [hd] at found
    exact sound.functions dictionary (Array.mem_of_getElem? hd) id o found

theorem leads_mapLoader (l : LoaderId) {f : Loader → Loader}
    (global : ∀ loader, (f loader).global = loader.global) :
    w.Leads allowed (w.mapLoader l f) := by
  apply leads_withLoaders sound
  intro loader mem
  rcases mem_modify mem with mem | ⟨old, hold, rfl⟩
  · exact sound.globals loader mem
  · rw [global]
    exact sound.globals old hold

theorem leads_bind (l : LoaderId) (loader : Loader) (id name : String) (parameters : List String)
    {function : ObjectId} (present : w.heap.contains function) :
    w.Leads allowed (w.bind l loader id name parameters function) := by
  have entered : w.Leads allowed (w.setDictionary loader.dictionary
      ((w.dictionary loader.dictionary).bind id name parameters function)) := by
    apply leads_setDictionary sound
    intro key o found
    rw [Dictionary.resolve?_bind] at found
    by_cases same : key = id
    · rw [if_pos same] at found
      cases found
      exact present
    · rw [if_neg same] at found
      exact contains_of_resolve? sound found
  exact entered.trans (leads_mapLoader entered.sound l fun _ => rfl)

theorem leads_enter (l : LoaderId) (loader : Loader) : w.Leads allowed (w.enter l loader).2 := by
  rw [enter]
  by_cases deep : loader.config.maxCallDepth.toNat ≤ loader.depth
  · rw [if_pos deep]
    exact .refl sound
  · rw [if_neg deep]
    exact leads_mapLoader sound l fun _ => rfl

omit sound in
theorem heap_enter (w : World) (l : LoaderId) (loader : Loader) :
    (w.enter l loader).2.heap = w.heap := by
  rw [enter]
  split <;> rfl

theorem leads_leave (l : LoaderId) : w.Leads allowed (w.leave l) :=
  leads_mapLoader sound l fun _ => rfl

/-! ## Units -/

theorem leads_addBank (unit : CodeUnit) : w.Leads allowed (w.addBank unit) := by
  apply leads_withBanks sound
  · intro bank mem site hsite
    rcases Array.mem_push.mp mem with mem | rfl
    · exact sound.banks bank mem site hsite
    · obtain ⟨place, -, rfl⟩ := List.mem_map.mp hsite
      exact PropertyCache.sound_new w.heap place.key
  · rintro other ⟨bank, found, keys⟩
    refine ⟨bank, ?_, keys⟩
    rw [Array.getElem?_push, if_neg, found]
    exact Nat.ne_of_lt (Array.getElem?_eq_some_iff.mp found).1

omit sound in
/-- The caches of the unit that was added last. -/
theorem bound_addBank (id : String) (unit : CodeUnit) (l : LoaderId) :
    (w.addBank unit).Bound ⟨w.banks.size, id, unit, l⟩ := by
  refine ⟨_, Array.getElem?_push_size, ?_⟩
  intro site hsite
  obtain ⟨place, mem, rfl⟩ := List.mem_map.mp hsite
  exact mem

theorem leads_install (l : LoaderId) (loader : Loader) (id : String) (unit : CodeUnit) :
    w.Leads allowed (w.install l loader id unit).2 := by
  have banked := leads_addBank sound unit
  have admits : (w.addBank unit).Admits allowed (.interpreted ⟨w.banks.size, id, unit, l⟩) :=
    bound_addBank id unit l
  have made := leads_allocFunction banked.sound unit.name admits
  have present := Heap.contains_newFunction (w.addBank unit).heap unit.name
    (.interpreted ⟨w.banks.size, id, unit, l⟩)
  have bound := leads_bind made.sound l loader id unit.name unit.parameters present
  exact (banked.trans made).trans bound

theorem leads_load (l : LoaderId) (loader : Loader) (id : String) (payload : List UInt8) :
    w.Leads allowed (w.load l loader id payload).2 := by
  rw [load]
  cases w.accept loader id payload with
  | error e => exact .refl sound
  | ok unit => exact leads_install sound l loader id unit

omit sound in
/-- A cache that is found is one of the bank of its unit. -/
theorem mem_of_unitCache? {unit : BoundUnit} {offset : Nat} {cache : PropertyCache}
    (found : w.unitCache? unit offset = some cache) :
    ∃ bank, w.banks[unit.index]? = some bank ∧ (offset, cache) ∈ bank := by
  obtain ⟨bank, hbank, hcache⟩ := Option.bind_eq_some_iff.mp found
  obtain ⟨before, after, split, -⟩ := List.lookup_eq_some_iff.mp hcache
  refine ⟨bank, hbank, ?_⟩
  rw [split]
  exact List.mem_append_right _ List.mem_cons_self

/-- What a cache of a unit remembers is true. -/
theorem sound_unitCache? {unit : BoundUnit} {offset : Nat} {cache : PropertyCache}
    (found : w.unitCache? unit offset = some cache) : cache.Sound w.heap := by
  obtain ⟨bank, hbank, mem⟩ := mem_of_unitCache? found
  exact sound.banks bank (Array.mem_of_getElem? hbank) _ mem

/-- A cache of a unit answers like a lookup. -/
theorem lookup_unitCache? (bounded : w.heap.Bounded) {receiver : ObjectId}
    (present : w.heap.contains receiver) {unit : BoundUnit} {offset : Nat} {cache : PropertyCache}
    (found : w.unitCache? unit offset = some cache) :
    (cache.lookup w.heap receiver).1 = w.heap.lookup receiver cache.key :=
  PropertyCache.lookup_eq (sound_unitCache? sound found) sound.heap bounded present

omit sound in
/-- A site of a bank in which one cache was replaced. -/
theorem mem_of_mem_replaced {bank : CacheBank} {offset : Nat} {new : PropertyCache}
    {site : Nat × PropertyCache}
    (mem : site ∈ bank.map fun (place, old) =>
      if place = offset then (place, new) else (place, old)) :
    site = (offset, new) ∨ site ∈ bank := by
  obtain ⟨⟨place, old⟩, hold, rfl⟩ := List.mem_map.mp mem
  by_cases here : place = offset
  · left
    subst here
    exact if_pos rfl
  · right
    dsimp only
    rw [if_neg here]
    exact hold

theorem leads_setUnitCache {unit : BoundUnit} {offset : Nat} {cache new : PropertyCache}
    (found : w.unitCache? unit offset = some cache) (key : new.key = cache.key)
    (holds : new.Sound w.heap) : w.Leads allowed (w.setUnitCache unit offset new) := by
  obtain ⟨own, hown, hcache⟩ := mem_of_unitCache? found
  apply leads_withBanks sound
  · intro bank mem site hsite
    rcases mem_modify mem with mem | ⟨before, hbefore, rfl⟩
    · exact sound.banks bank mem site hsite
    · rcases mem_of_mem_replaced hsite with rfl | old
      · exact holds
      · exact sound.banks before hbefore site old
  · rintro other ⟨bank, hbank, keys⟩
    by_cases same : unit.index = other.index
    · obtain rfl : own = bank := by
        rw [same] at hown
        exact Option.some.inj (hown.symm.trans hbank)
      refine ⟨_, by rw [Array.getElem?_modify, if_pos same, hbank]; rfl, ?_⟩
      intro site hsite
      rcases mem_of_mem_replaced hsite with rfl | old
      · rw [key]
        exact keys _ hcache
      · exact keys site old
    · refine ⟨bank, ?_, keys⟩
      rw [Array.getElem?_modify, if_neg same, hbank]

theorem leads_useUnitCache {α : Type} (o : ObjectId) (offset : Nat)
    {use : PropertyCache → α × PropertyCache} (key : ∀ cache, (use cache).2.key = cache.key)
    (holds : ∀ cache : PropertyCache, cache.Sound w.heap → (use cache).2.Sound w.heap) :
    w.Leads allowed (w.useUnitCache o offset use).2 := by
  rcases w.useUnitCache_cases o offset use with ⟨-, missing⟩ | ⟨unit, cache, -, found, used⟩
  · rw [missing]
    exact .refl sound
  · rw [used]
    exact leads_setUnitCache sound found (key cache) (holds cache (sound_unitCache? sound found))

/-! ## Native code -/

theorem leads_defineNative (l : LoaderId) (loader : Loader) (id name : String) {handle : Handle}
    (admits : w.Admits allowed handle) :
    w.Leads allowed (w.defineNative l loader id name handle).2 := by
  rw [defineNative]
  cases w.acceptNative loader id handle with
  | error e => exact .refl sound
  | ok _ =>
    have made := leads_allocFunction sound name admits
    have present := Heap.contains_newFunction w.heap name handle
    exact made.trans (leads_bind made.sound l loader id name (nativeParameters handle) present)

/-- The handle that host code asks for is admitted if its native code keeps to what is allowed. -/
theorem admits_of_handleOf {spec : HandleSpec NativeEntry} {handle : Handle}
    (entries : ∀ entry, spec.entry? = some entry → ∀ args, (entry args).AsksOnly allowed)
    (found : w.handleOf spec = some handle) : w.Admits allowed handle := by
  cases spec with
  | inert =>
    cases found
    exact trivial
  | fixed arity entry =>
    cases found
    exact entries entry rfl
  | variadic entry =>
    cases found
    exact entries entry rfl
  | sameAs o =>
    obtain ⟨object, ho, rfl⟩ := Option.map_eq_some_iff.mp found
    have admits := sound.handles o
    rw [Heap.handle, ho] at admits
    exact admits

theorem leads_newFunction (name : String) {spec : HandleSpec NativeEntry}
    (entries : ∀ entry, spec.entry? = some entry → ∀ args, (entry args).AsksOnly allowed) :
    w.Leads allowed (w.newFunction name spec).2 := by
  rw [newFunction]
  cases found : w.handleOf spec with
  | none => exact .refl sound
  | some handle => exact leads_allocFunction sound name (admits_of_handleOf sound entries found)

theorem leads_define (l : LoaderId) (id name : String) {spec : HandleSpec NativeEntry}
    (entries : ∀ entry, spec.entry? = some entry → ∀ args, (entry args).AsksOnly allowed) :
    w.Leads allowed (w.define l id name spec).2 := by
  rw [define]
  cases w.loaders[l]? with
  | none => exact .refl sound
  | some loader =>
    cases found : w.handleOf spec with
    | none => exact .refl sound
    | some handle =>
      exact leads_defineNative sound l loader id name (admits_of_handleOf sound entries found)

/-! ## Actions -/

theorem leads_map (o : ObjectId) (f : Value → Value) : w.Leads allowed (w.act (.map o f)).2 := by
  rw [act]
  split
  · rename_i closed
    have images : ∀ entry ∈ w.heap.entries o, w.heap.closed (f entry.2) := fun entry mem =>
      List.all_eq_true.mp closed entry mem
    exact leads_withHeap sound (Heap.leads_map sound.heap images) trivial
  · exact .refl sound

theorem leads_cachedLookup (c : CacheId) {o : ObjectId} (present : w.heap.contains o) :
    w.Leads allowed (w.act (.cachedLookup c o)).2 := by
  rw [act]
  cases found : w.caches[c]? with
  | none => exact .refl sound
  | some cache =>
    have old := sound.caches cache (Array.mem_of_getElem? found)
    apply leads_withCaches sound
    intro other mem
    rcases Array.mem_or_eq_of_mem_setIfInBounds mem with mem | rfl
    · exact sound.caches other mem
    · exact PropertyCache.sound_lookup old sound.heap present

theorem leads_declare (d : DictionaryId) (id name : String) (parameters : List String)
    (function : Option ObjectId) :
    w.Leads allowed (w.act (.declare d id name parameters function)).2 := by
  rw [act]
  cases found : w.dictionaries[d]? with
  | none => exact .refl sound
  | some dictionary =>
    apply leads_setDictionary sound
    intro key o resolved
    rw [Dictionary.resolve?_declare] at resolved
    exact sound.functions dictionary (Array.mem_of_getElem? found) key o resolved

theorem leads_newLoader (config : Config) (d : DictionaryId) {global : ObjectId}
    (present : w.heap.contains global) :
    w.Leads allowed (w.act (.newLoader config d global)).2 := by
  rw [act]
  by_cases known : d < w.dictionaries.size
  · rw [if_pos known]
    apply leads_withLoaders sound
    intro loader mem
    rcases Array.mem_push.mp mem with mem | rfl
    · exact sound.globals loader mem
    · exact present
  · rw [if_neg known]
    exact .refl sound

theorem leads_act (a : Action) (present : ∀ o ∈ a.mentions, w.heap.contains o) :
    w.Leads allowed (w.act a).2 := by
  cases a with
  | newObject proto =>
    exact leads_newObject sound fun p hp => present p (Option.mem_toList.mpr hp)
  | newScope parent =>
    exact leads_newScope sound fun p hp => present p (Option.mem_toList.mpr hp)
  | set o key value =>
    apply leads_set sound
    cases value with
    | object p => exact present p (List.mem_cons_of_mem _ List.mem_cons_self)
    | _ => rfl
  | map o f => exact leads_map sound o f
  | invalidate ts =>
    have leads : w.heap.Leads .inert (w.heap.invalidateAll ts) :=
      Heap.leads_invalidateAll sound.heap ts
    exact leads_withHeap sound leads trivial
  | newCache key =>
    apply leads_withCaches sound
    intro cache mem
    rcases Array.mem_push.mp mem with mem | rfl
    · exact sound.caches cache mem
    · exact PropertyCache.sound_new w.heap key
  | cachedLookup c o => exact leads_cachedLookup sound c (present o List.mem_cons_self)
  | resetCache c =>
    apply leads_withCaches sound
    intro cache mem
    rcases mem_modify mem with mem | ⟨old, -, rfl⟩
    · exact sound.caches cache mem
    · exact PropertyCache.sound_reset w.heap old
  | unitCachedLookup o offset receiver =>
    have there := present receiver (List.mem_cons_of_mem _ List.mem_cons_self)
    exact leads_useUnitCache sound o offset (fun cache => cache.key_lookup w.heap receiver)
      fun cache old => PropertyCache.sound_lookup old sound.heap there
  | resetUnitCache o offset =>
    rw [act]
    exact leads_useUnitCache sound o offset (fun _ => rfl) fun cache _ => cache.sound_reset w.heap
  | newDictionary =>
    apply leads_withDictionaries sound
    intro d mem
    rcases Array.mem_push.mp mem with mem | rfl
    · exact sound.functions d mem
    · intro id o found
      cases found
  | declare d id name parameters function =>
    exact leads_declare sound d id name parameters function
  | newLoader config d global =>
    exact leads_newLoader sound config d (present global List.mem_cons_self)
  | load l id payload =>
    rw [act]
    cases w.loaders[l]? with
    | none => exact .refl sound
    | some loader => exact leads_load sound l loader id payload
  | _ => exact .refl sound

theorem leads_perform (a : Action) : w.Leads allowed (w.perform a).2 := by
  rw [perform]
  by_cases present : a.mentions.all w.heap.contains
  · rw [if_pos present]
    exact leads_act sound a (List.all_eq_true.mp present)
  · rw [if_neg present]
    exact .refl sound

end World

end ProtoVM
