import ProtoVM.Object.Heap
import ProtoVM.Text.Quoted

/-!
# Objects as text

An object is shown with its own properties and its prototype, one a line. An object that is
already being shown further out is not shown again, only named, so every text is finite.
-/

namespace ProtoVM.Heap

/-- The objects of the heap that are not on a path. -/
def offPath (h : Heap) (path : List ObjectId) : List ObjectId :=
  (List.range h.size).filter (!path.contains ·)

theorem length_filter_lt_of_imp {α : Type} {p q : α → Bool} {xs : List α} {x : α} (hx : x ∈ xs)
    (hq : q x = true) (hp : p x = false) (imp : ∀ y ∈ xs, p y = true → q y = true) :
    (xs.filter p).length < (xs.filter q).length := by
  induction xs with
  | nil => cases hx
  | cons y ys ih =>
    have weak : (ys.filter p).length ≤ (ys.filter q).length := by
      rw [← List.countP_eq_length_filter, ← List.countP_eq_length_filter]
      exact List.countP_mono_left fun z hz => imp z (List.mem_cons_of_mem _ hz)
    rcases List.mem_cons.mp hx with rfl | hx
    · simp only [List.filter_cons, hp, hq, if_true, List.length_cons, Bool.false_eq_true, if_false]
      omega
    · have later := ih hx fun z hz => imp z (List.mem_cons_of_mem _ hz)
      by_cases hpy : p y
      · have hqy := imp y List.mem_cons_self hpy
        rw [List.filter_cons_of_pos hpy, List.filter_cons_of_pos hqy]
        exact Nat.succ_lt_succ later
      · rw [List.filter_cons_of_neg hpy]
        by_cases hqy : q y
        · rw [List.filter_cons_of_pos hqy]
          exact Nat.lt_succ_of_lt later
        · rw [List.filter_cons_of_neg hqy]
          exact later

theorem length_offPath_cons_lt {h : Heap} {path : List ObjectId} {o : ObjectId}
    (fresh : (h.contains o && !path.contains o) = true) :
    (h.offPath (o :: path)).length < (h.offPath path).length := by
  simp only [Bool.and_eq_true, contains, decide_eq_true_eq, Bool.not_eq_true'] at fresh
  refine length_filter_lt_of_imp (List.mem_range.mpr fresh.1) ?_ ?_ ?_
  · simp only [fresh.2, Bool.not_false]
  · simp
  · intro y _ hy
    simp only [List.contains_cons, Bool.not_or, Bool.and_eq_true] at hy
    exact hy.2

end Heap

/-- A text that is being written. -/
structure Rendering where
  text : String
  /-- The objects that are being shown, the innermost first. -/
  path : List ObjectId

namespace Rendering

def start : Rendering := ⟨"", []⟩

def write (r : Rendering) (s : String) : Rendering := { r with text := r.text ++ s }

/-- Goes on inside an object. -/
def enter (r : Rendering) (o : ObjectId) : Rendering := { r with path := o :: r.path }

/-- Goes on behind the innermost object. -/
def leave (r : Rendering) : Rendering := { r with path := r.path.tail }

/-- What comes of a rendering when something has been written, after which the same objects are
being shown as before. -/
abbrev Continued (r : Rendering) : Type := { r' : Rendering // r'.path = r.path }

end Rendering

namespace Heap

open Rendering

mutual

/-- Writes an object (`render_object`). It is on the path while its properties and its prototype are
written, and an object that is on the path already is only named. -/
def writeObject (h : Heap) (o : ObjectId) (r : Rendering) : r.Continued :=
  if fresh : (h.contains o && !r.path.contains o) = true then
    let opened := (r.enter o).write ("\x7b // " ++ h.label o ++ "\n")
    let listed := h.writeEntries (h.entries o) opened
    let shown := h.writeProto (h.proto? o) (listed.1.write "  proto: ")
    ⟨(shown.1.write "\n\x7d").leave, by
      have path : shown.1.path = o :: r.path := shown.2.trans listed.2
      simp [leave, write, path]⟩
  else ⟨r.write ("... // " ++ h.label o), rfl⟩
termination_by ((h.offPath r.path).length, 0)
decreasing_by
  · exact Prod.Lex.left _ _ (length_offPath_cons_lt fresh)
  · have path : (listed.1.write "  proto: ").path = o :: r.path := listed.2
    rw [path]
    exact Prod.Lex.left _ _ (length_offPath_cons_lt fresh)

/-- Writes properties, one a line. -/
def writeEntries (h : Heap) (entries : List (String × Value)) (r : Rendering) : r.Continued :=
  match entries with
  | [] => ⟨r, rfl⟩
  | (key, value) :: entries =>
    let shown := h.writeValue value (r.write ("  " ++ key ++ ": "))
    let rest := h.writeEntries entries (shown.1.write "\n")
    ⟨rest.1, rest.2.trans shown.2⟩
termination_by ((h.offPath r.path).length, entries.length + 2)
decreasing_by
  · exact Prod.Lex.right _ (by simp)
  · have path : (shown.1.write "\n").path = r.path := shown.2
    rw [path]
    exact Prod.Lex.right _ (by simp)

def writeValue (h : Heap) (value : Value) (r : Rendering) : r.Continued :=
  match value with
  | .object o => h.writeObject o r
  | value => ⟨r.write (value.text fun _ => ""), rfl⟩
termination_by ((h.offPath r.path).length, 1)

def writeProto (h : Heap) (proto : Option ObjectId) (r : Rendering) : r.Continued :=
  match proto with
  | none => ⟨r.write "null", rfl⟩
  | some o => h.writeObject o r
termination_by ((h.offPath r.path).length, 1)

end

/-- The text of an object. -/
def render (h : Heap) (o : ObjectId) : String := (h.writeObject o .start).1.text

/-- The text of a value. -/
def text (h : Heap) (v : Value) : String := v.text h.render

/-- The one-line description of an object. -/
def summary (h : Heap) (o : ObjectId) : String :=
  let proto :=
    match h.proto? o with
    | none => "None"
    | some p => "Some(" ++ Quoted.text (h.label p) ++ ")"
  "JsObject \x7b name: " ++ Quoted.text (h.label o) ++ ", keys: " ++ Quoted.list (h.keys o)
    ++ ", proto: " ++ proto ++ ", handle: " ++ (h.handle o).summary ++ " \x7d"

/-- What can be read off an object. -/
def info (h : Heap) (o : ObjectId) : ObjectInfo where
  label := h.label o
  keys := h.keys o
  length := ((h.get? o).map (·.store.length)).getD 0
  proto := h.proto? o
  type := h.typeOf (.object o)
  arity := (h.handle o).arity?
  invocable := (h.handle o).invocable
  handle := (h.handle o).summary
  generation := h.generation o

/-- How two objects compare by their layouts. -/
def compareLayouts (h : Heap) (o p : ObjectId) : LayoutComparison where
  same := h.layout? o == h.layout? p
  equal := h.keys o == h.keys p

end ProtoVM.Heap
