/-!
# Layouts

A layout is the list of keys that an object has, in the order they were added; the position of a
key is its slot. Layouts form a tree under the empty one: each other layout is its parent with one
more key. A layout remembers its children, so adding the same key twice leads to the same layout,
and objects that got the same keys in the same order share one.

Layouts are named by ids that are given out in the order of their creation and never again, so a
parent has a smaller id than its children.
-/

namespace ProtoVM

/-- Names a layout of a tree. -/
abbrev LayoutId := Nat

/-- A layout as the tree keeps it. -/
structure LayoutNode where
  keys : List String
  parent : Option LayoutId
  /-- The layouts with one key more, by that key. -/
  children : List (String × LayoutId)

/-- All layouts; the place of one that was given up is empty. -/
structure LayoutTree where
  nodes : Array (Option LayoutNode)

namespace LayoutTree

/-- The empty layout is always the first one. -/
def root : LayoutId := 0

/-- The tree of the empty layout alone. -/
def empty : LayoutTree := ⟨#[some ⟨[], none, []⟩]⟩

/-- The layout of an id, unless there is none or it was given up. -/
def node? (t : LayoutTree) (id : LayoutId) : Option LayoutNode := t.nodes[id]?.join

/-- The keys of a layout in slot order. -/
def keys (t : LayoutTree) (id : LayoutId) : List String := ((t.node? id).map (·.keys)).getD []

/-- The slot of a key (`slot_of`). -/
def slotOf? (t : LayoutTree) (id : LayoutId) (key : String) : Option Nat :=
  (t.keys id).idxOf? key

/-- The layout exists and was not given up. -/
def live (t : LayoutTree) (id : LayoutId) : Bool := (t.node? id).isSome

/-- The layout that adding a key leads to, if it is remembered and not given up. -/
def child? (t : LayoutTree) (id : LayoutId) (key : String) : Option LayoutId :=
  (t.node? id).bind fun n => (n.children.lookup key).filter t.live

/-- How many layouts that this one remembers are not given up (`transition_count`). -/
def childCount (t : LayoutTree) (id : LayoutId) : Nat :=
  ((t.node? id).map (·.children.countP (t.live ·.2))).getD 0

/-- How many layouts were ever made beside the empty one. -/
def created (t : LayoutTree) : Nat := t.nodes.size - 1

/-- Changes the children that a layout remembers. -/
def mapChildren (t : LayoutTree) (id : LayoutId)
    (f : List (String × LayoutId) → List (String × LayoutId)) : LayoutTree :=
  ⟨t.nodes.modify id (·.map fun n => { n with children := f n.children })⟩

/-- The layout with one more key, which is made unless it exists (`with_key`). The key must be
new. -/
def extend (t : LayoutTree) (id : LayoutId) (key : String) : LayoutId × LayoutTree :=
  match t.child? id key with
  | some child => (child, t)
  | none =>
    let child := t.nodes.size
    let node : LayoutNode := ⟨t.keys id ++ [key], some id, []⟩
    let t := t.mapChildren id fun children => (key, child) :: children.filter (·.1 ≠ key)
    (child, ⟨t.nodes.push (some node)⟩)

/-- Empties the place of a layout. -/
def clear (t : LayoutTree) (id : LayoutId) : LayoutTree := ⟨t.nodes.setIfInBounds id none⟩

/-- Gives up a layout and makes its parent forget what it remembers under the last key, unless that
is another layout. -/
def remove (t : LayoutTree) (id parent : LayoutId) : LayoutTree :=
  let rest := t.clear id
  rest.mapChildren parent
    (·.filter fun (key, child) => (t.keys id).getLast? ≠ some key || rest.live child)

/-- Gives up a layout that is not held and has no children, then its parent if that was the last
child, and so on. The empty layout stays. -/
def prune (t : LayoutTree) (held : LayoutId → Bool) (id : LayoutId) : LayoutTree :=
  match t.node? id with
  | none => t
  | some node =>
    match node.parent with
    | none => t
    | some parent =>
      if held id || !node.children.isEmpty then t
      else if parent < id then (t.remove id parent).prune held parent
      else t.remove id parent
termination_by id

end LayoutTree

end ProtoVM
