import ProtoVM.Config
import ProtoVM.Error
import ProtoVM.Object.Token

/-!
# Actions

What host code can ask of a session: to make and change objects, to issue and invalidate tokens, to
use property caches, its own and those of units, and to declare and load functions. An action is
data; the type of its answer is given with it, and the session carries it out.
-/

namespace ProtoVM

/-- Names a property cache that host code made. -/
abbrev CacheId := Nat

/-- Names a dictionary of functions. -/
abbrev DictionaryId := Nat

/-- Names a loader. -/
abbrev LoaderId := Nat

/-- A unit bound to a loader (`LoadedUnit`). -/
structure BoundUnit where
  /-- The place of the unit among all that were loaded. -/
  index : Nat
  id : String
  unit : CodeUnit
  loader : LoaderId
deriving DecidableEq

/-- What a dictionary knows about a function (`FunctionDescriptor`). -/
structure Descriptor where
  name : String
  parameters : List String
  /-- The function object, once there is one. -/
  function : Option ObjectId
deriving DecidableEq

/-- What can be read off an object. -/
structure ObjectInfo where
  label : String
  keys : List String
  length : Nat
  proto : Option ObjectId
  type : ValueType
  /-- The parameters, receiver included, that a call must match; `none` if any number will do. -/
  arity : Option Nat
  invocable : Bool
  handle : String
  generation : UInt64

/-- What can be read off a property cache. -/
structure CacheInfo where
  key : String
  hits : Nat
  misses : Nat

/-- What can be read off a loader. -/
structure LoaderInfo where
  config : Config
  dictionary : DictionaryId
  global : ObjectId

/-- How two objects compare by their layouts. -/
structure LayoutComparison where
  /-- They share one layout. -/
  same : Bool
  /-- Their layouts have the same keys in the same order. -/
  equal : Bool

/-- How much a session has made so far. -/
structure Counters where
  objects : Nat
  functions : Nat
  units : Nat

/-- Something to ask of a session. -/
inductive Action where
  | newObject (proto : Option ObjectId)
  | newScope (parent : Option ObjectId)
  | set (o : ObjectId) (key : String) (value : Value)
  | lookup (o : ObjectId) (key : String)
  | getOwn (o : ObjectId) (key : String)
  | slotOf (o : ObjectId) (key : String)
  | atSlot (o : ObjectId) (slot : Nat)
  | info (o : ObjectId)
  | summary (o : ObjectId)
  | text (v : Value)
  | typeOf (v : Value)
  | compareLayouts (o p : ObjectId)
  | map (o : ObjectId) (f : Value → Value)
  | token (o : ObjectId)
  | isValid (t : Token)
  | invalidate (ts : List Token)
  | newCache (key : String)
  | cachedLookup (c : CacheId) (o : ObjectId)
  | resetCache (c : CacheId)
  | cacheInfo (c : CacheId)
  | newDictionary
  | declare (d : DictionaryId) (id name : String) (parameters : List String)
    (function : Option ObjectId := none)
  | descriptor (d : DictionaryId) (id : String)
  | identifiers (d : DictionaryId)
  | newLoader (config : Config) (d : DictionaryId) (global : ObjectId)
  | loaderInfo (l : LoaderId)
  | load (l : LoaderId) (id : String) (payload : List UInt8)
  | isLoaded (l : LoaderId) (id : String)
  | unitOf (o : ObjectId)
  | unitCacheInfo (o : ObjectId) (offset : Nat)
  | unitCachedLookup (o : ObjectId) (offset : Nat) (receiver : ObjectId)
  | resetUnitCache (o : ObjectId) (offset : Nat)
  | counters

namespace Action

/-- The type of the answer to an action. -/
def Answer : Action → Type
  | newObject _ => ObjectId
  | newScope _ => ObjectId
  | set _ _ _ => Unit
  | lookup _ _ => Value
  | getOwn _ _ => Option Value
  | slotOf _ _ => Option Nat
  | atSlot _ _ => Value
  | info _ => ObjectInfo
  | summary _ => String
  | text _ => String
  | typeOf _ => ValueType
  | compareLayouts _ _ => LayoutComparison
  | map _ _ => ObjectId
  | token _ => Token
  | isValid _ => Bool
  | invalidate _ => Unit
  | newCache _ => CacheId
  | cachedLookup _ _ => Value
  | resetCache _ => Unit
  | cacheInfo _ => CacheInfo
  | newDictionary => DictionaryId
  | declare _ _ _ _ _ => Bool
  | descriptor _ _ => Option Descriptor
  | identifiers _ => List String
  | newLoader _ _ _ => LoaderId
  | loaderInfo _ => LoaderInfo
  | load _ _ _ => Except LoadError ObjectId
  | isLoaded _ _ => Bool
  | unitOf _ => Option BoundUnit
  | unitCacheInfo _ _ => Option CacheInfo
  | unitCachedLookup _ _ _ => Option Value
  | resetUnitCache _ _ => Option Unit
  | counters => Counters

/-- The objects that an action names. -/
def mentions : Action → List ObjectId
  | newObject proto => proto.toList
  | newScope parent => parent.toList
  | set o _ value => o :: value.asObject?.toList
  | lookup o _ => [o]
  | getOwn o _ => [o]
  | slotOf o _ => [o]
  | atSlot o _ => [o]
  | info o => [o]
  | summary o => [o]
  | text v => v.asObject?.toList
  | typeOf v => v.asObject?.toList
  | compareLayouts o p => [o, p]
  | map o _ => [o]
  | token o => [o]
  | isValid t => [t.owner]
  | invalidate ts => ts.map (·.owner)
  | cachedLookup _ o => [o]
  | declare _ _ _ _ function => function.toList
  | newLoader _ _ global => [global]
  | unitOf o => [o]
  | unitCacheInfo o _ => [o]
  | unitCachedLookup o _ receiver => [o, receiver]
  | resetUnitCache o _ => [o]
  | _ => []

end Action

end ProtoVM
