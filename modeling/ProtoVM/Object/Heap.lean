import ProtoVM.Call.Native
import ProtoVM.Object.Store

/-!
# The heap

All objects of a session, with the tree of their layouts. An object has properties of its own and
delegates to its prototype for the rest. Its prototype, its label and its handle are fixed when it
is made; a prototype has to exist by then, so it always has a smaller id and the chain of
prototypes ends.
-/

namespace ProtoVM

/-- What an object was made as. -/
inductive ObjectKind where
  | plain
  /-- Holds the bindings of a scope. -/
  | scope
  | function (name : String)
deriving DecidableEq

/-- The label shown for an object. -/
def ObjectKind.label : ObjectKind → String
  | plain => "object"
  | scope => "env"
  | function name => s!"function {name}"

def ObjectKind.isFunction : ObjectKind → Bool
  | function _ => true
  | _ => false

/-- An object. -/
structure Object where
  kind : ObjectKind
  proto : Option ObjectId
  store : Store
  /-- The number of changes made to the object. -/
  changes : Nat
  handle : Handle

/-- The objects of a session. -/
structure Heap where
  objects : Array Object
  layouts : LayoutTree

namespace Heap

/-- No objects. -/
def empty : Heap := ⟨#[], .empty⟩

/-- The number of objects ever made. -/
def size (h : Heap) : Nat := h.objects.size

def contains (h : Heap) (o : ObjectId) : Bool := decide (o < h.size)

/-- The value is no object or an object of the heap. -/
def closed (h : Heap) (v : Value) : Bool := v.asObject?.all h.contains

def get? (h : Heap) (o : ObjectId) : Option Object := h.objects[o]?

/-! ## Reading -/

def label (h : Heap) (o : ObjectId) : String := ((h.get? o).map (·.kind.label)).getD ""

def proto? (h : Heap) (o : ObjectId) : Option ObjectId := (h.get? o).bind (·.proto)

def handle (h : Heap) (o : ObjectId) : Handle := ((h.get? o).map (·.handle)).getD .inert

/-- The number of changes made to an object. -/
def changes (h : Heap) (o : ObjectId) : Nat := ((h.get? o).map (·.changes)).getD 0

/-- The generation of an object: the number of its changes in a word of 64 bits. -/
def generation (h : Heap) (o : ObjectId) : UInt64 := UInt64.ofNat (h.changes o)

def layout? (h : Heap) (o : ObjectId) : Option LayoutId := (h.get? o).map (·.store.layout)

/-- The type of a value. -/
def typeOf (h : Heap) (v : Value) : ValueType := v.type fun o => (h.handle o).invocable

/-- The own keys of an object in the order they were added (`own_keys`). -/
def keys (h : Heap) (o : ObjectId) : List String :=
  ((h.get? o).map (·.store.keys h.layouts)).getD []

/-- The own keys of an object with their values (`own_entries`). -/
def entries (h : Heap) (o : ObjectId) : List (String × Value) :=
  ((h.get? o).map (·.store.entries h.layouts)).getD []

/-- The slot of an own key. -/
def slotOf? (h : Heap) (o : ObjectId) (key : String) : Option Nat :=
  (h.get? o).bind (·.store.slotOf? h.layouts key)

/-- The value in a slot, whatever its key (`fast_access`). -/
def atSlot? (h : Heap) (o : ObjectId) (slot : Nat) : Option Value :=
  (h.get? o).bind (·.store.atSlot? slot)

/-- The value of an own key (`get_own`). -/
def getOwn? (h : Heap) (o : ObjectId) (key : String) : Option Value :=
  (h.get? o).bind (·.store.get? h.layouts key)

/-- An object, its prototype, the prototype of that, and so on. -/
def chain (h : Heap) (o : ObjectId) : List ObjectId :=
  match h.proto? o with
  | none => [o]
  | some p => if p < o then o :: h.chain p else [o]
termination_by o

/-- The value of a key on the first object of the chain that has it. -/
def lookup (h : Heap) (o : ObjectId) (key : String) : Value :=
  ((h.chain o).findSome? (h.getOwn? · key)).getD .undefined

/-! ## Changing -/

/-- Puts a new object without properties on the heap. -/
def alloc (h : Heap) (kind : ObjectKind) (proto : Option ObjectId) (handle : Handle) :
    ObjectId × Heap :=
  match h with
  | ⟨objects, layouts⟩ => (objects.size, ⟨objects.push ⟨kind, proto, .empty, 0, handle⟩, layouts⟩)

/-- Sets an own key and counts the change (`register`). -/
def set (h : Heap) (o : ObjectId) (key : String) (value : Value) : Heap :=
  match h with
  | ⟨objects, layouts⟩ =>
    match objects[o]? with
    | none => ⟨objects, layouts⟩
    | some object =>
      let (store, layouts) := object.store.insert layouts key value
      ⟨objects.setIfInBounds o { object with store, changes := object.changes + 1 }, layouts⟩

/-- Sets several own keys in order. -/
def setAll (h : Heap) (o : ObjectId) (entries : List (String × Value)) : Heap :=
  entries.foldl (fun h (key, value) => h.set o key value) h

/-- A plain object (`new_object`). -/
def newObject (h : Heap) (proto : Option ObjectId) : ObjectId × Heap := h.alloc .plain proto .inert

/-- A scope inside another one (`new_env`). -/
def newScope (h : Heap) (parent : Option ObjectId) : ObjectId × Heap := h.alloc .scope parent .inert

/-- A function (`new_function`). It can be reached through its own property `apply` as well. -/
def newFunction (h : Heap) (name : String) (handle : Handle) : ObjectId × Heap :=
  let (o, h) := h.alloc (.function name) none handle
  (o, h.set o "apply" (.object o))

/-- A plain object without prototype that has the own keys of another one, each with the image of
its value (`mirror`). -/
def map (h : Heap) (o : ObjectId) (f : Value → Value) : ObjectId × Heap :=
  let entries := h.entries o
  let (p, h) := h.newObject none
  (p, h.setAll p (entries.map fun (key, value) => (key, f value)))

/-! ## Tokens -/

/-- The token that is valid now. -/
def token (h : Heap) (o : ObjectId) : Token := ⟨o, h.generation o⟩

/-- The owner has not changed since the token was issued (`is_valid`). -/
def isValid (h : Heap) (t : Token) : Bool := h.generation t.owner == t.issued

/-- Counts a change of an object without making one. -/
def advance (h : Heap) (o : ObjectId) : Heap :=
  match h with
  | ⟨objects, layouts⟩ =>
    ⟨objects.modify o fun object => { object with changes := object.changes + 1 }, layouts⟩

/-- Makes a valid token, and with it all that were issued at the same time, invalid. -/
def invalidate (h : Heap) (t : Token) : Heap := if h.isValid t then h.advance t.owner else h

/-- Invalidates tokens one after the other (`invalidate_all`). -/
def invalidateAll (h : Heap) (ts : List Token) : Heap := ts.foldl invalidate h

end Heap

end ProtoVM
