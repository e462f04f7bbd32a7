import ProtoVM.Object.Render
import ProtoVM.Session.World

/-!
# Carrying out actions

A session answers an action, or refuses it when it names something that does not exist or reads a
slot that is not there.
-/

namespace ProtoVM.World

/-- Answers an action whose objects all exist. -/
def act (w : World) : (a : Action) → Option a.Answer × World
  | .newObject proto =>
    let (o, w) := w.allocWith (·.newObject proto)
    (some o, w)
  | .newScope parent =>
    let (o, w) := w.allocWith (·.newScope parent)
    (some o, w)
  | .set o key value => (some (), w.mapHeap (·.set o key value))
  | .lookup o key => (some (w.heap.lookup o key), w)
  | .getOwn o key => (some (w.heap.getOwn? o key), w)
  | .slotOf o key => (some (w.heap.slotOf? o key), w)
  | .atSlot o slot => (w.heap.atSlot? o slot, w)
  | .info o => (some (w.heap.info o), w)
  | .summary o => (some (w.heap.summary o), w)
  | .text v => (some (w.heap.text v), w)
  | .typeOf v => (some (w.heap.typeOf v), w)
  | .compareLayouts o p => (some (w.heap.compareLayouts o p), w)
  | .map o f =>
    if (w.heap.entries o).all fun (_, value) => w.heap.closed (f value) then
      let (p, w) := w.allocWith (·.map o f)
      (some p, w)
    else (none, w)
  | .token o => (some (w.heap.token o), w)
  | .isValid t => (some (w.heap.isValid t), w)
  | .invalidate ts => (some (), w.mapHeap (·.invalidateAll ts))
  | .newCache key => (some w.caches.size, { w with caches := w.caches.push (.new key) })
  | .cachedLookup c o =>
    match w.caches[c]? with
    | none => (none, w)
    | some cache =>
      let (value, cache) := cache.lookup w.heap o
      (some value, { w with caches := w.caches.setIfInBounds c cache })
  | .resetCache c =>
    (if c < w.caches.size then some () else none, { w with caches := w.caches.modify c (·.reset) })
  | .cacheInfo c => ((w.caches[c]?).map (·.info), w)
  | .newDictionary =>
    let (d, w) := w.newDictionary
    (some d, w)
  | .declare d id name parameters function =>
    match w.dictionaries[d]? with
    | none => (none, w)
    | some dictionary =>
      let (accepted, dictionary) := dictionary.declare id ⟨name, parameters, function⟩
      (some accepted, w.setDictionary d dictionary)
  | .descriptor d id => ((w.dictionaries[d]?).map (·.descriptor? id), w)
  | .identifiers d => ((w.dictionaries[d]?).map (·.identifiers), w)
  | .newLoader config d global =>
    if d < w.dictionaries.size then
      let (l, w) := w.newLoader config d global
      (some l, w)
    else (none, w)
  | .loaderInfo l =>
    ((w.loaders[l]?).map fun loader => ⟨loader.config, loader.dictionary, loader.global⟩, w)
  | .load l id payload =>
    match w.loaders[l]? with
    | none => (none, w)
    | some loader =>
      let (answer, w) := w.load l loader id payload
      (some answer, w)
  | .isLoaded l id => ((w.loaders[l]?).map (isLoaded · id), w)
  | .unitOf o => (some (w.heap.handle o).unit?, w)
  | .unitCacheInfo o offset =>
    (some (((w.heap.handle o).unit?.bind (w.unitCache? · offset)).map (·.info)), w)
  | .unitCachedLookup o offset receiver =>
    let (value, w) := w.useUnitCache o offset (·.lookup w.heap receiver)
    (some value, w)
  | .resetUnitCache o offset =>
    let (found, w) := w.useUnitCache o offset fun cache => ((), cache.reset)
    (some found, w)
  | .counters => (some w.counters, w)

/-- Answers an action, or refuses it. -/
def perform (w : World) (a : Action) : Option a.Answer × World :=
  if a.mentions.all w.heap.contains then w.act a else (none, w)

/-- The handle that host code asks for. -/
def handleOf (w : World) : HandleSpec NativeEntry → Option Handle
  | .inert => some .inert
  | .fixed arity entry => some (.fixed arity entry)
  | .variadic entry => some (.variadic entry)
  | .sameAs o => (w.heap.get? o).map (·.handle)

/-- Makes a function object. -/
def newFunction (w : World) (name : String) (spec : HandleSpec NativeEntry) :
    Option ObjectId × World :=
  match w.handleOf spec with
  | none => (none, w)
  | some handle =>
    let (o, w) := w.allocWith (·.newFunction name handle)
    (some o, w)

/-- Makes a function object and binds it to an identifier. -/
def define (w : World) (l : LoaderId) (id name : String) (spec : HandleSpec NativeEntry) :
    Option (Except LoadError ObjectId) × World :=
  match w.loaders[l]?, w.handleOf spec with
  | some loader, some handle =>
    let (answer, w) := w.defineNative l loader id name handle
    (some answer, w)
  | _, _ => (none, w)

end ProtoVM.World
