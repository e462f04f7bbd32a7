import ProtoVM.Object.Heap

/-!
# Property caches

A property cache serves one key and remembers how its last miss was resolved. A property of the
receiver itself is guarded by the layout, which fixes the slot. A property found further up the
chain, or nowhere, is guarded by the receiver and by the tokens of all objects that were passed
on the way: setting the key on any of them makes its token invalid.
-/

namespace ProtoVM

/-- How a lookup was resolved (`CacheEntry`). -/
inductive Resolution where
  /-- The receiver has the key itself. -/
  | own (layout : LayoutId) (slot : Nat)
  /-- An object up the chain has it. -/
  | inherited (receiver : ObjectId) (guards : List Token) (holder : ObjectId) (slot : Nat)
  /-- No object of the chain has it. -/
  | absent (receiver : ObjectId) (guards : List Token)
deriving DecidableEq

/-- Answers from an entry if its guards hold (`probe`). -/
def Resolution.answer? (h : Heap) (receiver : ObjectId) : Resolution → Option Value
  | own layout slot =>
    if h.layout? receiver = some layout then h.atSlot? receiver slot else none
  | inherited cached guards holder slot =>
    if cached = receiver ∧ guards.all h.isValid then h.atSlot? holder slot else none
  | absent cached guards =>
    if cached = receiver ∧ guards.all h.isValid then some .undefined else none

/-- A cache for lookups of one key (`LookupCache`). -/
structure PropertyCache where
  key : String
  entry : Option Resolution
  hits : Nat
  misses : Nat

namespace PropertyCache

/-- A cache that remembers nothing. -/
def new (key : String) : PropertyCache := ⟨key, none, 0, 0⟩

/-- Looks the key up on the chain: the value, and what to remember. -/
def resolve (key : String) (h : Heap) (receiver : ObjectId) : Value × Resolution :=
  let chain := h.chain receiver
  let passed := chain.takeWhile fun o => (h.slotOf? o key).isNone
  let guards := passed.map h.token
  match chain.drop passed.length with
  | [] => (.undefined, .absent receiver guards)
  | holder :: _ =>
    let slot := (h.slotOf? holder key).getD 0
    let value := (h.atSlot? holder slot).getD .undefined
    match passed with
    | [] => (value, .own ((h.layout? receiver).getD LayoutTree.root) slot)
    | _ => (value, .inherited receiver guards holder slot)

/-- The value of the key, from memory if that is still good. -/
def lookup (c : PropertyCache) (h : Heap) (receiver : ObjectId) : Value × PropertyCache :=
  match c.entry.bind (·.answer? h receiver) with
  | some value => (value, { c with hits := c.hits + 1 })
  | none =>
    let (value, entry) := resolve c.key h receiver
    (value, { c with entry := some entry, misses := c.misses + 1 })

/-- Forgets the entry; the counts stay. -/
def reset (c : PropertyCache) : PropertyCache := { c with entry := none }

def info (c : PropertyCache) : CacheInfo := ⟨c.key, c.hits, c.misses⟩

end PropertyCache

end ProtoVM
