import ProtoVM.Proofs.Session.CachePlaces
import ProtoVM.Proofs.Session.Operations

/-!
# Sessions that agree

Two sessions agree when they differ at most in what the caches of their units remember and count.
Only who asks those caches for their counts tells such sessions apart. A lookup through one of them
is answered alike as long as what they remember is true; every other request is answered alike
anyway, and the sessions agree afterwards.
-/

namespace ProtoVM

/-- The action does not ask how often a cache of a unit was hit. -/
def Action.IgnoresUnitHits : Action → Prop
  | .unitCacheInfo _ _ => False
  | _ => True

namespace World

/-- The key that the cache of the instruction at an offset serves. -/
def unitKey? (w : World) (unit : BoundUnit) (offset : Nat) : Option String :=
  (w.unitCache? unit offset).map (·.key)

/-- The sessions are the same up to what the caches of units remember and count. -/
structure Agrees (w w' : World) : Prop where
  heap : w'.heap = w.heap
  caches : w'.caches = w.caches
  dictionaries : w'.dictionaries = w.dictionaries
  loaders : w'.loaders = w.loaders
  units : w'.banks.size = w.banks.size
  keys : ∀ unit offset, w'.unitKey? unit offset = w.unitKey? unit offset

/-- The same answer from sessions that agree. -/
structure Alike {α : Type} (r r' : α × World) : Prop where
  answer : r'.1 = r.1
  world : r.2.Agrees r'.2

theorem Agrees.refl (w : World) : w.Agrees w := ⟨rfl, rfl, rfl, rfl, rfl, fun _ _ => rfl⟩

variable {w w' : World}

theorem Agrees.symm (agrees : w.Agrees w') : w'.Agrees w where
  heap := agrees.heap.symm
  caches := agrees.caches.symm
  dictionaries := agrees.dictionaries.symm
  loaders := agrees.loaders.symm
  units := agrees.units.symm
  keys := fun unit offset => (agrees.keys unit offset).symm

theorem Agrees.trans {a b c : World} (hab : a.Agrees b) (hbc : b.Agrees c) : a.Agrees c where
  heap := hbc.heap.trans hab.heap
  caches := hbc.caches.trans hab.caches
  dictionaries := hbc.dictionaries.trans hab.dictionaries
  loaders := hbc.loaders.trans hab.loaders
  units := hbc.units.trans hab.units
  keys := fun unit offset => (hbc.keys unit offset).trans (hab.keys unit offset)

theorem Agrees.alike {α : Type} (agrees : w.Agrees w') (answer : α) :
    Alike (answer, w) (answer, w') := ⟨rfl, agrees⟩

section

variable (agrees : w.Agrees w')
include agrees

theorem Agrees.mapHeap (f : Heap → Heap) : (w.mapHeap f).Agrees (w'.mapHeap f) :=
  { agrees with heap := congrArg f agrees.heap }

theorem Agrees.allocWith (f : Heap → ObjectId × Heap) :
    Alike (w.allocWith f) (w'.allocWith f) := by
  have heap := agrees.heap
  refine ⟨?_, { agrees with heap := ?_ }⟩
  · unfold World.allocWith
    rw [heap]
  · unfold World.allocWith
    rw [heap]

theorem Agrees.dictionary (d : DictionaryId) : w'.dictionary d = w.dictionary d := by
  unfold World.dictionary
  rw [agrees.dictionaries]

theorem Agrees.setDictionary (d : DictionaryId) (dictionary : Dictionary) :
    (w.setDictionary d dictionary).Agrees (w'.setDictionary d dictionary) :=
  { agrees with
    dictionaries := congrArg (·.setIfInBounds d dictionary) agrees.dictionaries }

theorem Agrees.mapLoader (l : LoaderId) (f : Loader → Loader) :
    (w.mapLoader l f).Agrees (w'.mapLoader l f) :=
  { agrees with loaders := congrArg (·.modify l f) agrees.loaders }

theorem Agrees.bind (l : LoaderId) (loader : Loader) (id name : String) (parameters : List String)
    (function : ObjectId) :
    (w.bind l loader id name parameters function).Agrees
      (w'.bind l loader id name parameters function) := by
  rw [World.bind, World.bind, agrees.dictionary]
  exact (agrees.setDictionary _ _).mapLoader l _

theorem Agrees.addBank (unit : CodeUnit) : (w.addBank unit).Agrees (w'.addBank unit) := by
  refine { agrees with units := ?_, keys := ?_ }
  · unfold World.addBank
    rw [Array.size_push, Array.size_push, agrees.units]
  · intro other offset
    have old := agrees.keys other offset
    simp only [unitKey?, unitCache?, World.addBank, Array.getElem?_push, agrees.units] at old ⊢
    by_cases last : other.index = w.banks.size
    · rw [if_pos last, if_pos last]
    · rw [if_neg last, if_neg last]
      exact old

theorem Agrees.install (l : LoaderId) (loader : Loader) (id : String) (unit : CodeUnit) :
    Alike (w.install l loader id unit) (w'.install l loader id unit) := by
  have made := (agrees.addBank unit).allocWith
    (·.newFunction unit.name (.interpreted ⟨w.banks.size, id, unit, l⟩))
  unfold World.install
  rw [agrees.units]
  refine ⟨made.answer, ?_⟩
  dsimp only
  rw [made.answer]
  exact made.world.bind l loader id unit.name unit.parameters _

theorem Agrees.load (l : LoaderId) (loader : Loader) (id : String) (payload : List UInt8) :
    Alike (w.load l loader id payload) (w'.load l loader id payload) := by
  have accept : w'.accept loader id payload = w.accept loader id payload := by
    unfold World.accept
    rw [agrees.dictionary]
  rw [World.load, World.load, accept]
  cases w.accept loader id payload with
  | error e => exact agrees.alike _
  | ok unit =>
    have installed := agrees.install l loader id unit
    exact ⟨congrArg Except.ok installed.answer, installed.world⟩

theorem Agrees.defineNative (l : LoaderId) (loader : Loader) (id name : String) (handle : Handle) :
    Alike (w.defineNative l loader id name handle) (w'.defineNative l loader id name handle) := by
  have accept : w'.acceptNative loader id handle = w.acceptNative loader id handle := by
    unfold World.acceptNative
    rw [agrees.dictionary]
  rw [World.defineNative, World.defineNative, accept]
  cases w.acceptNative loader id handle with
  | error e => exact agrees.alike _
  | ok _ =>
    have made := agrees.allocWith (·.newFunction name handle)
    refine ⟨congrArg Except.ok made.answer, ?_⟩
    dsimp only
    rw [made.answer]
    exact made.world.bind l loader id name (nativeParameters handle) _

theorem Agrees.enter (l : LoaderId) (loader : Loader) :
    Alike (w.enter l loader) (w'.enter l loader) := by
  unfold World.enter
  by_cases deep : loader.config.maxCallDepth.toNat ≤ loader.depth
  · rw [if_pos deep, if_pos deep]
    exact agrees.alike _
  · rw [if_neg deep, if_neg deep]
    exact ⟨rfl, agrees.mapLoader l _⟩

theorem Agrees.leave (l : LoaderId) : (w.leave l).Agrees (w'.leave l) := agrees.mapLoader l _

/-! ## Requests -/

theorem Agrees.handleOf (spec : HandleSpec NativeEntry) : w'.handleOf spec = w.handleOf spec := by
  cases spec with
  | sameAs o => rw [World.handleOf, World.handleOf, agrees.heap]
  | _ => rfl

theorem Agrees.newFunction (name : String) (spec : HandleSpec NativeEntry) :
    Alike (w.newFunction name spec) (w'.newFunction name spec) := by
  unfold World.newFunction
  rw [agrees.handleOf]
  cases w.handleOf spec with
  | none => exact agrees.alike _
  | some handle =>
    have made := agrees.allocWith (·.newFunction name handle)
    exact ⟨congrArg some made.answer, made.world⟩

theorem Agrees.define (l : LoaderId) (id name : String) (spec : HandleSpec NativeEntry) :
    Alike (w.define l id name spec) (w'.define l id name spec) := by
  unfold World.define
  rw [agrees.handleOf, agrees.loaders]
  cases w.loaders[l]? with
  | none => exact agrees.alike _
  | some loader =>
    cases w.handleOf spec with
    | none => exact agrees.alike _
    | some handle =>
      have defined := agrees.defineNative l loader id name handle
      exact ⟨congrArg some defined.answer, defined.world⟩

end

/-! ## The caches of units -/

/-- Every cache serves the key that it served before. -/
theorem agrees_setUnitCache {unit : BoundUnit} {offset : Nat} {cache new : PropertyCache}
    (found : w.unitCache? unit offset = some cache) (key : new.key = cache.key) :
    w.Agrees (w.setUnitCache unit offset new) := by
  refine { Agrees.refl w with units := Array.size_modify, keys := ?_ }
  intro other place
  have banks : (w.setUnitCache unit offset new).banks[other.index]? =
      if unit.index = other.index then _ else _ := Array.getElem?_modify
  by_cases here : unit.index = other.index
  · obtain ⟨bank, hbank, hcache⟩ := Option.bind_eq_some_iff.mp found
    rw [if_pos here, ← here, hbank] at banks
    by_cases same : place = offset
    · subst same
      simp [unitKey?, unitCache?, ← here, banks, hbank, lookup_replaced, hcache, key]
    · simp [unitKey?, unitCache?, ← here, banks, hbank, lookup_replaced, same]
  · rw [if_neg here] at banks
    rw [unitKey?, unitKey?, unitCache?, unitCache?, banks]

/-- Using a cache leads to a session that agrees. -/
theorem agrees_useUnitCache {α : Type} (o : ObjectId) (offset : Nat)
    {use : PropertyCache → α × PropertyCache} (key : ∀ cache, (use cache).2.key = cache.key) :
    w.Agrees (w.useUnitCache o offset use).2 := by
  rcases w.useUnitCache_cases o offset use with ⟨-, missing⟩ | ⟨unit, cache, -, found, used⟩
  · rw [missing]
    exact .refl w
  · rw [used]
    exact agrees_setUnitCache found (key cache)

/-- What a use gives, if it depends on nothing but the key that the cache serves. -/
theorem answer_useUnitCache {α : Type} {o : ObjectId} {offset : Nat}
    {use : PropertyCache → α × PropertyCache} {answer : String → α}
    (gives : ∀ unit cache, w.unitCache? unit offset = some cache →
      (use cache).1 = answer cache.key) :
    (w.useUnitCache o offset use).1 =
      ((w.heap.handle o).unit?.bind (w.unitKey? · offset)).map answer := by
  rcases w.useUnitCache_cases o offset use with ⟨missing, same⟩ | ⟨unit, cache, bound, found, used⟩
  · rw [same]
    cases bound : (w.heap.handle o).unit? with
    | none => rfl
    | some unit => simp [unitKey?, missing unit bound]
  · rw [used, bound, gives unit cache found]
    simp [unitKey?, found]

/-- The same use of the caches that two sessions have for an instruction. -/
theorem Agrees.useUnitCache {α : Type} (agrees : w.Agrees w') (o : ObjectId) (offset : Nat)
    (use : PropertyCache → α × PropertyCache) (answer : String → α)
    (key : ∀ cache, (use cache).2.key = cache.key)
    (gives : ∀ unit cache, w.unitCache? unit offset = some cache →
      (use cache).1 = answer cache.key)
    (gives' : ∀ unit cache, w'.unitCache? unit offset = some cache →
      (use cache).1 = answer cache.key) :
    Alike (w.useUnitCache o offset use) (w'.useUnitCache o offset use) where
  answer := by
    rw [answer_useUnitCache gives, answer_useUnitCache gives', agrees.heap]
    simp only [agrees.keys]
  world := (agrees_useUnitCache o offset key).symm.trans
    (agrees.trans (agrees_useUnitCache o offset key))

section

variable {allowed : Action → Prop} (sound : w.Sound allowed) (sound' : w'.Sound allowed)
  (bounded : w.heap.Bounded) (agrees : w.Agrees w')
include sound sound' bounded agrees

theorem Agrees.unitCachedLookup (o : ObjectId) (offset : Nat) {receiver : ObjectId}
    (present : w.heap.contains receiver) :
    Alike (w.act (.unitCachedLookup o offset receiver))
      (w'.act (.unitCachedLookup o offset receiver)) := by
  have same := agrees.heap
  have used := agrees.useUnitCache o offset (·.lookup w.heap receiver)
    (w.heap.lookup receiver) (fun cache => cache.key_lookup w.heap receiver)
    (fun unit cache found => lookup_unitCache? sound bounded present found)
    fun unit cache found => by
      rw [← same] at bounded present ⊢
      exact lookup_unitCache? sound' bounded present found
  rw [act, act, same]
  exact ⟨congrArg some used.answer, used.world⟩

/-! ## Actions -/

theorem Agrees.act (a : Action) (ignores : a.IgnoresUnitHits)
    (present : ∀ o ∈ a.mentions, w.heap.contains o) : Alike (w.act a) (w'.act a) := by
  have load := agrees.load
  have keys := agrees.keys
  have looked := agrees.unitCachedLookup sound sound' bounded
  have reset (o : ObjectId) (offset : Nat) := agrees.useUnitCache o offset
    (fun cache => ((), cache.reset)) (fun _ => ()) (fun _ => rfl) (fun _ _ _ => rfl)
    fun _ _ _ => rfl
  obtain ⟨heap, caches, banks, dictionaries, loaders⟩ := w
  obtain ⟨heap', caches', banks', dictionaries', loaders'⟩ := w'
  obtain ⟨rfl, rfl, rfl, rfl, units, -⟩ := agrees
  have same : World.Agrees ⟨heap', caches', banks, dictionaries', loaders'⟩
      ⟨heap', caches', banks', dictionaries', loaders'⟩ := ⟨rfl, rfl, rfl, rfl, units, keys⟩
  cases a with
  | map o f =>
    rw [World.act, World.act]
    split
    · exact ⟨rfl, rfl, rfl, rfl, rfl, units, keys⟩
    · exact same.alike _
  | cachedLookup c o =>
    rw [World.act, World.act]
    cases caches'[c]? with
    | none => exact same.alike _
    | some cache => exact ⟨rfl, rfl, rfl, rfl, rfl, units, keys⟩
  | declare d id name parameters function =>
    rw [World.act, World.act]
    cases dictionaries'[d]? with
    | none => exact same.alike _
    | some dictionary => exact ⟨rfl, rfl, rfl, rfl, rfl, units, keys⟩
  | newLoader config d global =>
    rw [World.act, World.act]
    by_cases known : d < dictionaries'.size
    · rw [if_pos known, if_pos known]
      exact ⟨rfl, rfl, rfl, rfl, rfl, units, keys⟩
    · rw [if_neg known, if_neg known]
      exact same.alike _
  | load l id payload =>
    rw [World.act, World.act]
    cases loaders'[l]? with
    | none => exact same.alike _
    | some loader =>
      have loaded := load l loader id payload
      exact ⟨congrArg some loaded.answer, loaded.world⟩
  | unitCacheInfo => exact ignores.elim
  | unitCachedLookup o offset receiver =>
    exact looked o offset (present receiver (List.mem_cons_of_mem _ List.mem_cons_self))
  | resetUnitCache o offset =>
    exact ⟨congrArg some (reset o offset).answer, (reset o offset).world⟩
  | counters =>
    refine ⟨?_, same⟩
    rw [World.act, World.act, World.counters, World.counters, units]
  | _ => exact ⟨rfl, rfl, rfl, rfl, rfl, units, keys⟩

theorem Agrees.perform (a : Action) (ignores : a.IgnoresUnitHits) :
    Alike (w.perform a) (w'.perform a) := by
  unfold World.perform
  rw [agrees.heap]
  by_cases present : a.mentions.all w.heap.contains
  · rw [if_pos present, if_pos present]
    exact agrees.act sound sound' bounded a ignores (List.all_eq_true.mp present)
  · rw [if_neg present, if_neg present]
    exact agrees.alike _

end

end World

end ProtoVM
