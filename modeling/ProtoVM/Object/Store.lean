import ProtoVM.Layout.Tree
import ProtoVM.Value

/-!
# Property stores

The properties of one object: a layout, which it shares with other stores, and a value for each
slot of that layout. All operations take the tree that the layout lives in.
-/

namespace ProtoVM

/-- The properties of one object (`PropertyStore`). -/
structure Store where
  layout : LayoutId
  values : List Value

namespace Store

/-- No properties. -/
def empty : Store := ⟨LayoutTree.root, []⟩

/-- The number of properties. -/
def length (s : Store) : Nat := s.values.length

/-- The slot of a key. -/
def slotOf? (s : Store) (t : LayoutTree) (key : String) : Option Nat := t.slotOf? s.layout key

/-- The value in a slot, whatever its key (`fast_access`). -/
def atSlot? (s : Store) (slot : Nat) : Option Value := s.values[slot]?

/-- The value of a key. -/
def get? (s : Store) (t : LayoutTree) (key : String) : Option Value :=
  (s.slotOf? t key).bind s.atSlot?

/-- Sets a key (`put`). A new key takes the next slot and leads to the extended layout; a known one
keeps its slot and the layout. -/
def insert (s : Store) (t : LayoutTree) (key : String) (value : Value) : Store × LayoutTree :=
  match s.slotOf? t key with
  | some slot => ({ s with values := s.values.set slot value }, t)
  | none =>
    let (layout, t) := t.extend s.layout key
    (⟨layout, s.values ++ [value]⟩, t)

/-- The keys in slot order. -/
def keys (s : Store) (t : LayoutTree) : List String := t.keys s.layout

/-- The keys with their values in slot order. -/
def entries (s : Store) (t : LayoutTree) : List (String × Value) := (s.keys t).zip s.values

end Store

end ProtoVM
