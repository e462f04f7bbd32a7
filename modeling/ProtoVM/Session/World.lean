import ProtoVM.Bytecode.PropertySites
import ProtoVM.Object.PropertyCache
import ProtoVM.Payload.Reader
import ProtoVM.Session.Dictionary

/-!
# Sessions

Everything that host code and running code share: the heap, the property caches of host code and of
the loaded units, the dictionaries, and the loaders. A loader binds units and native functions
into its dictionary, each identifier once, and counts how deeply calls into its units are nested.
-/

namespace ProtoVM

/-- Binds functions into a dictionary and runs its units against a global object. -/
structure Loader where
  config : Config
  dictionary : DictionaryId
  global : ObjectId
  /-- The calls into units of this loader that are under way. -/
  depth : Nat
  /-- The identifiers that this loader has bound. -/
  loaded : List String

/-- The property caches of one unit by the offsets of the instructions that use them. -/
abbrev CacheBank := List (Nat × PropertyCache)

/-- The state of a session. -/
structure World where
  heap : Heap
  /-- The caches of host code. -/
  caches : Array PropertyCache
  /-- The caches of each loaded unit. -/
  banks : Array CacheBank
  dictionaries : Array Dictionary
  loaders : Array Loader

namespace World

/-- A session at its start. -/
def empty : World := ⟨.empty, #[], #[], #[], #[]⟩

/-- Changes the heap. -/
def mapHeap (w : World) (f : Heap → Heap) : World := { w with heap := f w.heap }

/-- Makes a new object with a function on heaps. -/
def allocWith (w : World) (f : Heap → ObjectId × Heap) : ObjectId × World :=
  let (o, heap) := f w.heap
  (o, { w with heap })

/-- What the session has made so far (`snapshot`). -/
def counters (w : World) : Counters where
  objects := w.heap.size
  functions := w.heap.objects.countP (·.kind.isFunction)
  units := w.banks.size

/-! ## Dictionaries -/

/-- The dictionary of an id; an id that names none stands for an empty one. -/
def dictionary (w : World) (d : DictionaryId) : Dictionary := (w.dictionaries[d]?).getD .empty

def newDictionary (w : World) : DictionaryId × World :=
  (w.dictionaries.size, { w with dictionaries := w.dictionaries.push .empty })

def setDictionary (w : World) (d : DictionaryId) (dictionary : Dictionary) : World :=
  { w with dictionaries := w.dictionaries.setIfInBounds d dictionary }

/-! ## Loaders -/

def newLoader (w : World) (config : Config) (d : DictionaryId) (global : ObjectId) :
    LoaderId × World :=
  (w.loaders.size, { w with loaders := w.loaders.push ⟨config, d, global, 0, []⟩ })

/-- Changes a loader. -/
def mapLoader (w : World) (l : LoaderId) (f : Loader → Loader) : World :=
  { w with loaders := w.loaders.modify l f }

/-- The loader has bound the identifier (`is_loaded`). -/
def isLoaded (loader : Loader) (id : String) : Bool := loader.loaded.contains id

/-- An identifier is bound once (`ensure_unloaded`). -/
def checkUnloaded (loader : Loader) (id : String) : Except LoadError Unit :=
  if isLoaded loader id then .error (.duplicateUnit id) else .ok ()

/-- Enters a function into the dictionary of a loader and marks its identifier as bound. -/
def bind (w : World) (l : LoaderId) (loader : Loader) (id name : String) (parameters : List String)
    (function : ObjectId) : World :=
  let d := loader.dictionary
  (w.setDictionary d ((w.dictionary d).bind id name parameters function)).mapLoader l fun loader =>
    { loader with loaded := id :: loader.loaded }

/-- The unit of a payload, if a loader may bind it to an identifier. -/
def accept (w : World) (loader : Loader) (id : String) (payload : List UInt8) :
    Except LoadError CodeUnit := do
  checkUnloaded loader id
  let unit ← Payload.decode payload loader.config.verifyChecksum
  (w.dictionary loader.dictionary).checkParameters id unit.parameters.length
  return unit

/-- Adds the caches of a unit, one for each instruction that reads a property (`new` of a loaded
unit). -/
def addBank (w : World) (unit : CodeUnit) : World :=
  let bank := unit.propertySites.map fun site => (site.offset, PropertyCache.new site.key)
  { w with banks := w.banks.push bank }

/-- Binds a unit that was accepted: its function object is made and entered. -/
def install (w : World) (l : LoaderId) (loader : Loader) (id : String) (unit : CodeUnit) :
    ObjectId × World :=
  let loaded : BoundUnit := ⟨w.banks.size, id, unit, l⟩
  let (function, w) := (w.addBank unit).allocWith (·.newFunction unit.name (.interpreted loaded))
  (function, w.bind l loader id unit.name unit.parameters function)

/-- Loads the unit of a payload. -/
def load (w : World) (l : LoaderId) (loader : Loader) (id : String) (payload : List UInt8) :
    Except LoadError ObjectId × World :=
  match w.accept loader id payload with
  | .error e => (.error e, w)
  | .ok unit =>
    let (function, w) := w.install l loader id unit
    (.ok function, w)

/-- The names given to the parameters of a native function, which has none of its own. -/
def nativeParameters (handle : Handle) : List String :=
  match handle.arity? with
  | none => []
  | some arity => (List.range (arity - 1)).map fun i => s!"arg{i + 1}"

/-- Whether a loader may bind a handle to an identifier. A handle that takes any number of
arguments fits every declaration. -/
def acceptNative (w : World) (loader : Loader) (id : String) (handle : Handle) :
    Except LoadError Unit := do
  checkUnloaded loader id
  match handle.arity? with
  | none => return
  | some arity => (w.dictionary loader.dictionary).checkParameters id (arity - 1)

/-- Makes a function of a handle and binds it (`define_native`). -/
def defineNative (w : World) (l : LoaderId) (loader : Loader) (id name : String) (handle : Handle) :
    Except LoadError ObjectId × World :=
  match w.acceptNative loader id handle with
  | .error e => (.error e, w)
  | .ok () =>
    let (function, w) := w.allocWith (·.newFunction name handle)
    (.ok function, w.bind l loader id name (nativeParameters handle) function)

/-! ## The depth of calls -/

/-- Counts a call into a unit, unless the loader is at its limit. -/
def enter (w : World) (l : LoaderId) (loader : Loader) : Except Fault Unit × World :=
  let limit := loader.config.maxCallDepth.toNat
  if limit ≤ loader.depth then (.error (.callDepth limit), w)
  else (.ok (), w.mapLoader l fun loader => { loader with depth := loader.depth + 1 })

/-- Counts the end of a call into a unit. -/
def leave (w : World) (l : LoaderId) : World :=
  w.mapLoader l fun loader => { loader with depth := loader.depth - 1 }

/-! ## Property caches -/

/-- The cache of the instruction at an offset. -/
def unitCache? (w : World) (unit : BoundUnit) (offset : Nat) : Option PropertyCache :=
  (w.banks[unit.index]?).bind (·.lookup offset)

/-- Replaces the cache of the instruction at an offset. -/
def setUnitCache (w : World) (unit : BoundUnit) (offset : Nat) (cache : PropertyCache) : World :=
  { w with banks := w.banks.modify unit.index (·.map fun (place, old) =>
      if place = offset then (place, cache) else (place, old)) }

/-- Uses the cache that the unit of a function has at an offset (`cache_at`), if there is one. -/
def useUnitCache {α : Type} (w : World) (o : ObjectId) (offset : Nat)
    (use : PropertyCache → α × PropertyCache) : Option α × World :=
  match (w.heap.handle o).unit? with
  | none => (none, w)
  | some unit =>
    match w.unitCache? unit offset with
    | none => (none, w)
    | some cache =>
      let (answer, cache) := use cache
      (some answer, w.setUnitCache unit offset cache)

section

variable {α : Type} (w : World) (o : ObjectId) (offset : Nat)
  (use : PropertyCache → α × PropertyCache)

/-- Either there is no cache, or the one that is found is used and replaced. -/
theorem useUnitCache_cases :
    ((∀ unit, (w.heap.handle o).unit? = some unit → w.unitCache? unit offset = none) ∧
        w.useUnitCache o offset use = (none, w)) ∨
      ∃ unit cache, (w.heap.handle o).unit? = some unit ∧
        w.unitCache? unit offset = some cache ∧
        w.useUnitCache o offset use =
          (some (use cache).1, w.setUnitCache unit offset (use cache).2) := by
  rw [useUnitCache]
  cases bound : (w.heap.handle o).unit? with
  | none => exact .inl ⟨nofun, rfl⟩
  | some unit =>
    cases found : w.unitCache? unit offset with
    | none => exact .inl ⟨fun _ same => Option.some.inj same ▸ found, by simp [found]⟩
    | some cache => exact .inr ⟨unit, cache, rfl, found, by simp [found]⟩

/-- Nothing but the caches of units is touched. -/
theorem exists_banks_useUnitCache :
    ∃ banks, (w.useUnitCache o offset use).2 = { w with banks } ∧ banks.size = w.banks.size := by
  rcases w.useUnitCache_cases o offset use with ⟨-, missing⟩ | ⟨unit, cache, -, -, used⟩
  · exact ⟨w.banks, by rw [missing], rfl⟩
  · exact ⟨_, by rw [used]; rfl, Array.size_modify⟩

@[simp] theorem heap_useUnitCache : (w.useUnitCache o offset use).2.heap = w.heap := by
  obtain ⟨banks, same, -⟩ := w.exists_banks_useUnitCache o offset use
  rw [same]

@[simp] theorem dictionaries_useUnitCache :
    (w.useUnitCache o offset use).2.dictionaries = w.dictionaries := by
  obtain ⟨banks, same, -⟩ := w.exists_banks_useUnitCache o offset use
  rw [same]

@[simp] theorem loaders_useUnitCache : (w.useUnitCache o offset use).2.loaders = w.loaders := by
  obtain ⟨banks, same, -⟩ := w.exists_banks_useUnitCache o offset use
  rw [same]

end

end World

end ProtoVM
