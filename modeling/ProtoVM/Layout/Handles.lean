import ProtoVM.Layout.Tree

/-!
# Held layouts

Layouts under named handles. A layout lives as long as a handle holds it or one of its
descendants; when the last of these handles is let go, it is given up and its parent forgets it.
-/

namespace ProtoVM

/-- A layout tree with the handles on it. -/
structure LayoutHandles where
  tree : LayoutTree
  held : List (String × LayoutId)

namespace LayoutHandles

/-- No handles. -/
def empty : LayoutHandles := ⟨.empty, []⟩

/-- The layout under a handle. -/
def layout? (hs : LayoutHandles) (name : String) : Option LayoutId := hs.held.lookup name

/-- Some handle holds the layout. -/
def holds (hs : LayoutHandles) (id : LayoutId) : Bool := hs.held.any (·.2 = id)

/-- Lets a handle go. -/
def letGo (hs : LayoutHandles) (name : String) : LayoutHandles :=
  match hs.layout? name with
  | none => hs
  | some id =>
    let rest : LayoutHandles := { hs with held := hs.held.filter (·.1 ≠ name) }
    { rest with tree := rest.tree.prune rest.holds id }

/-- Puts a layout under a handle. The layout that the handle held before is let go after that. -/
def hold (hs : LayoutHandles) (name : String) (id : LayoutId) : LayoutHandles :=
  let before := hs.layout? name
  let rest : LayoutHandles := { hs with held := (name, id) :: hs.held.filter (·.1 ≠ name) }
  match before with
  | none => rest
  | some old => { rest with tree := rest.tree.prune rest.holds old }

/-- Puts the empty layout under a handle. -/
def holdEmpty (hs : LayoutHandles) (name : String) : LayoutHandles := hs.hold name LayoutTree.root

/-- Adds a key to the layout `id` and puts the result under a handle. -/
def holdChild (hs : LayoutHandles) (id : LayoutId) (key name : String) : LayoutHandles :=
  let (child, tree) := hs.tree.extend id key
  { hs with tree }.hold name child

end LayoutHandles

end ProtoVM
