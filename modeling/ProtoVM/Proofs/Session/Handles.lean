import ProtoVM.Proofs.Call.Requests
import ProtoVM.Proofs.Object.HeapOperations
import ProtoVM.Session.Perform

/-!
# How objects are called

The handle of an object is fixed when the object is made. Only loading a unit and making a function
make objects that can be called, so that a property of all handles of a session has to be looked
after there alone.
-/

namespace ProtoVM

/-! ## Heaps -/

namespace Heap

variable (h : Heap)

/-- An object that can not be called is called like one that is not there. -/
theorem handle_alloc_inert (kind : ObjectKind) (proto : Option ObjectId) (o : ObjectId) :
    (h.alloc kind proto .inert).2.handle o = h.handle o := by
  rw [handle_alloc]
  by_cases fresh : o = h.size
  · subst fresh
    have missing : h.get? h.size = none := Array.getElem?_eq_none (Nat.le_refl _)
    rw [if_pos rfl, handle, missing]
    rfl
  · exact if_neg fresh

theorem handle_setAll (p : ObjectId) (entries : List (String × Value)) (o : ObjectId) :
    (h.setAll p entries).handle o = h.handle o := by
  induction entries generalizing h with
  | nil => rfl
  | cons entry entries ih =>
    have later := ih (h.set p entry.1 entry.2)
    rw [handle_set] at later
    exact later

theorem handle_map (p : ObjectId) (f : Value → Value) (o : ObjectId) :
    (h.map p f).2.handle o = h.handle o := by
  rw [map]
  exact (handle_setAll _ _ _ _).trans (handle_alloc_inert h _ _ _)

theorem handle_advance (p o : ObjectId) : (h.advance p).handle o = h.handle o := by
  rw [handle, handle, get?_advance]
  cases h.get? o with
  | none => rfl
  | some object =>
    dsimp only [Option.map_some]
    split <;> rfl

theorem handle_invalidateAll (ts : List Token) (o : ObjectId) :
    (h.invalidateAll ts).handle o = h.handle o := by
  induction ts generalizing h with
  | nil => rfl
  | cons t ts ih =>
    have later : ((h.invalidate t).invalidateAll ts).handle o = (h.invalidate t).handle o := ih _
    refine later.trans ?_
    rw [invalidate]
    split
    · exact handle_advance h t.owner o
    · rfl

theorem handle_newFunction_eq (name : String) (hd : Handle) (o : ObjectId) :
    (h.newFunction name hd).2.handle o = if o = h.size then hd else h.handle o := by
  rw [newFunction, handle_set, handle_alloc]

end Heap

/-! ## Sessions -/

namespace World

/-- Every object is called in a way that has a property. -/
def Calls (P : Handle → Prop) (w : World) : Prop := ∀ o, P (w.heap.handle o)

variable {P : Handle → Prop} {w w' : World}

theorem Calls.of_handle (calls : w.Calls P) (same : ∀ o, w'.heap.handle o = w.heap.handle o) :
    w'.Calls P := by
  intro o
  rw [same]
  exact calls o

theorem Calls.of_heap (calls : w.Calls P) (same : w'.heap = w.heap) : w'.Calls P :=
  calls.of_handle fun o => by rw [same]

section

variable (calls : w.Calls P)
include calls

theorem Calls.allocFunction (name : String) {handle : Handle} (made : P handle) :
    (w.allocWith (·.newFunction name handle)).2.Calls P := by
  intro o
  have eq : (w.allocWith (·.newFunction name handle)).2.heap.handle o =
      if o = w.heap.size then handle else w.heap.handle o :=
    w.heap.handle_newFunction_eq name handle o
  rw [eq]
  split
  · exact made
  · exact calls o

theorem Calls.load (l : LoaderId) (loader : Loader) (id : String) (payload : List UInt8)
    (units : ∀ unit, w.accept loader id payload = .ok unit →
      P (.interpreted ⟨w.banks.size, id, unit, l⟩)) : (w.load l loader id payload).2.Calls P := by
  rw [World.load]
  cases accepted : w.accept loader id payload with
  | error e => exact calls
  | ok unit =>
    have made : ((w.addBank unit).allocWith (·.newFunction unit.name
        (.interpreted ⟨w.banks.size, id, unit, l⟩))).2.Calls P :=
      Calls.allocFunction (w := w.addBank unit) calls unit.name (units unit accepted)
    exact made

theorem Calls.act (a : Action)
    (units : ∀ l id payload, a = .load l id payload → ∀ loader, w.loaders[l]? = some loader →
      ∀ unit, w.accept loader id payload = .ok unit →
        P (.interpreted ⟨w.banks.size, id, unit, l⟩)) : (w.act a).2.Calls P := by
  cases a with
  | newObject proto => exact calls.of_handle (w.heap.handle_alloc_inert _ _)
  | newScope parent => exact calls.of_handle (w.heap.handle_alloc_inert _ _)
  | set o key value => exact calls.of_handle fun p => Heap.handle_set p
  | map o f =>
    rw [World.act]
    split
    · exact calls.of_handle (w.heap.handle_map o f)
    · exact calls
  | invalidate ts => exact calls.of_handle (w.heap.handle_invalidateAll ts)
  | cachedLookup c o =>
    rw [World.act]
    cases w.caches[c]? <;> exact calls
  | declare d id name parameters function =>
    rw [World.act]
    cases w.dictionaries[d]? <;> exact calls
  | newLoader config d global =>
    rw [World.act]
    split <;> exact calls
  | load l id payload =>
    rw [World.act]
    cases found : w.loaders[l]? with
    | none => exact calls
    | some loader => exact calls.load l loader id payload (units l id payload rfl loader found)
  | unitCachedLookup o offset receiver => exact calls.of_heap (w.heap_useUnitCache o offset _)
  | resetUnitCache o offset =>
    rw [World.act]
    exact calls.of_heap (w.heap_useUnitCache o offset _)
  | _ => exact calls

/-- Of all actions only loading a unit makes an object that can be called. -/
theorem Calls.perform (a : Action)
    (units : ∀ l id payload, a = .load l id payload → ∀ loader, w.loaders[l]? = some loader →
      ∀ unit, w.accept loader id payload = .ok unit →
        P (.interpreted ⟨w.banks.size, id, unit, l⟩)) : (w.perform a).2.Calls P := by
  rw [World.perform]
  split
  · exact calls.act a units
  · exact calls

theorem Calls.of_handleOf {spec : HandleSpec NativeEntry} {handle : Handle}
    (found : w.handleOf spec = some handle) (inert : P .inert)
    (entries : ∀ entry, spec.entry? = some entry →
      (∀ arity, P (.fixed arity entry)) ∧ P (.variadic entry)) : P handle := by
  cases spec with
  | inert =>
    cases found
    exact inert
  | fixed arity entry =>
    cases found
    exact (entries entry rfl).1 arity
  | variadic entry =>
    cases found
    exact (entries entry rfl).2
  | sameAs o =>
    have other := calls o
    rw [World.handleOf] at found
    rw [Heap.handle, found] at other
    exact other

theorem Calls.newFunction (name : String) {spec : HandleSpec NativeEntry}
    (made : ∀ handle, w.handleOf spec = some handle → P handle) :
    (w.newFunction name spec).2.Calls P := by
  rw [World.newFunction]
  cases found : w.handleOf spec with
  | none => exact calls
  | some handle => exact calls.allocFunction name (made handle found)

theorem Calls.defineNative (l : LoaderId) (loader : Loader) (id name : String) {handle : Handle}
    (made : P handle) : (w.defineNative l loader id name handle).2.Calls P := by
  rw [World.defineNative]
  cases w.acceptNative loader id handle with
  | error e => exact calls
  | ok _ => exact calls.allocFunction name made

theorem Calls.define (l : LoaderId) (id name : String) {spec : HandleSpec NativeEntry}
    (made : ∀ handle, w.handleOf spec = some handle → P handle) :
    (w.define l id name spec).2.Calls P := by
  rw [World.define]
  cases w.loaders[l]? with
  | none => exact calls
  | some loader =>
    cases found : w.handleOf spec with
    | none => exact calls
    | some handle => exact calls.defineNative l loader id name (made handle found)

end

end World

end ProtoVM
