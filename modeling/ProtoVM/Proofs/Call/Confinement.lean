import ProtoVM.Proofs.Call.Requests

/-!
# Confined native code

Host code can not make up a reference to an object: it knows the objects that it was made with,
those that it is called with, and those that it is answered. `Confined` says so of native code,
which names objects by ids.
-/

namespace ProtoVM

/-- The objects that an answer gives away. -/
def Action.revealed : (a : Action) → a.Answer → List ObjectId
  | .newObject _, (o : ObjectId) => [o]
  | .newScope _, (o : ObjectId) => [o]
  | .lookup _ _, (v : Value) => v.asObject?.toList
  | .getOwn _ _, (v : Option Value) => (v.bind (·.asObject?)).toList
  | .atSlot _ _, (v : Value) => v.asObject?.toList
  | .info _, (i : ObjectInfo) => i.proto.toList
  | .map _ _, (o : ObjectId) => [o]
  | .token _, (t : Token) => [t.owner]
  | .cachedLookup _ _, (v : Value) => v.asObject?.toList
  | .descriptor _ _, (d : Option Descriptor) => (d.bind (·.function)).toList
  | .loaderInfo _, (i : LoaderInfo) => [i.global]
  | .load _ _ _, (answer : Except LoadError ObjectId) => answer.toOption.toList
  | .unitCachedLookup _ _ _, (v : Option Value) => (v.bind (·.asObject?)).toList
  | _, _ => []

/-- What values are mapped to is made of the values and of known objects. -/
def Action.MapsWithin (known : ObjectId → Prop) : Action → Prop
  | .map _ f => ∀ v o, (f v).asObject? = some o → known o ∨ v.asObject? = some o
  | _ => True

/-- The object that a call returned. -/
def returnedObjects : Except RuntimeError Value → List ObjectId
  | .ok v => v.asObject?.toList
  | .error _ => []

/-- The objects among values. -/
def objectsOf (vs : List Value) : List ObjectId := vs.filterMap (·.asObject?)

/-- What is known after objects were learned. -/
def Learned (known : ObjectId → Prop) (learned : List ObjectId) (o : ObjectId) : Prop :=
  known o ∨ o ∈ learned

/-- The code names only objects that it knows or has learned on its way. The native functions that
it makes know what it knew at that time, and what they are called with. -/
inductive Native.Confined : (ObjectId → Prop) → Native → Prop
  | done {known : ObjectId → Prop} (result : Except HostError Value)
      (knows : ∀ v o, result = .ok v → v.asObject? = some o → known o) :
      Confined known (.done result)
  | perform {known : ObjectId → Prop} (action : Action) (next : action.Answer → Native)
      (knows : ∀ o ∈ action.mentions, known o) (maps : action.MapsWithin known)
      (later : ∀ answer, Confined (Learned known (action.revealed answer)) (next answer)) :
      Confined known (.perform action next)
  | call {known : ObjectId → Prop} (callee : ObjectId) (receiver : Value) (args : List Value)
      (next : Except RuntimeError Value → Native) (knowsCallee : known callee)
      (knows : ∀ o ∈ objectsOf (receiver :: args), known o)
      (later : ∀ result, Confined (Learned known (returnedObjects result)) (next result)) :
      Confined known (.call callee receiver args next)
  | newFunction {known : ObjectId → Prop} (name : String) (spec : HandleSpec NativeEntry)
      (next : ObjectId → Native)
      (entries : ∀ entry, spec.entry? = some entry → ∀ args,
        Confined (Learned known (objectsOf args)) (entry args))
      (later : ∀ o, Confined (Learned known [o]) (next o)) :
      Confined known (.newFunction name spec next)
  | defineNative {known : ObjectId → Prop} (l : LoaderId) (id name : String)
      (spec : HandleSpec NativeEntry) (next : Except LoadError ObjectId → Native)
      (entries : ∀ entry, spec.entry? = some entry → ∀ args,
        Confined (Learned known (objectsOf args)) (entry args))
      (later : ∀ answer, Confined (Learned known answer.toOption.toList) (next answer)) :
      Confined known (.defineNative l id name spec next)

/-- What native code behind a handle knows beside what it is called with. -/
def Handle.Confined (known : ObjectId → Prop) : Handle → Prop
  | .inert => True
  | .fixed _ entry => ∀ args, (entry args).Confined (Learned known (objectsOf args))
  | .variadic entry => ∀ args, (entry args).Confined (Learned known (objectsOf args))
  | .interpreted _ => True

variable {known known' : ObjectId → Prop}

theorem Learned.mono (more : ∀ o, known o → known' o) {learned : List ObjectId} {o : ObjectId}
    (h : Learned known learned o) : Learned known' learned o := h.imp_left (more o)

/-- What is learned but known already changes nothing. -/
theorem Learned.of_forall {learned : List ObjectId} (all : ∀ o ∈ learned, known o) {o : ObjectId}
    (h : Learned known learned o) : known o := h.elim id (all o)

theorem Action.MapsWithin.mono (more : ∀ o, known o → known' o) {a : Action}
    (h : a.MapsWithin known) : a.MapsWithin known' := by
  cases a with
  | map o f => exact fun v p image => (h v p image).imp_left (more p)
  | _ => trivial

/-- Code may know more than it uses. -/
theorem Native.Confined.mono {p : Native} (h : p.Confined known)
    (more : ∀ o, known o → known' o) : p.Confined known' := by
  induction h generalizing known' with
  | done result knows => exact .done result fun v o same found => more o (knows v o same found)
  | perform action next knows maps _ ih =>
    exact .perform action next (fun o mem => more o (knows o mem)) (maps.mono more)
      fun answer => ih answer fun _ => Learned.mono more
  | call callee receiver args next knowsCallee knows _ ih =>
    exact .call callee receiver args next (more callee knowsCallee)
      (fun o mem => more o (knows o mem)) fun result => ih result fun _ => Learned.mono more
  | newFunction name spec next _ _ entries later =>
    exact .newFunction name spec next
      (fun entry found args => entries entry found args fun _ => Learned.mono more)
      fun o => later o fun _ => Learned.mono more
  | defineNative l id name spec next _ _ entries later =>
    exact .defineNative l id name spec next
      (fun entry found args => entries entry found args fun _ => Learned.mono more)
      fun answer => later answer fun _ => Learned.mono more

theorem Handle.Confined.mono {handle : Handle} (h : handle.Confined known)
    (more : ∀ o, known o → known' o) : handle.Confined known' := by
  cases handle with
  | inert => trivial
  | fixed arity entry => exact fun args => (h args).mono fun _ => Learned.mono more
  | variadic entry => exact fun args => (h args).mono fun _ => Learned.mono more
  | interpreted unit => trivial

theorem mem_objectsOf {vs : List Value} {o : ObjectId} :
    o ∈ objectsOf vs ↔ ∃ v ∈ vs, v.asObject? = some o := List.mem_filterMap

end ProtoVM
