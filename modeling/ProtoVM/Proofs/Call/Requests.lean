import ProtoVM.Call.Native

/-!
# What native code asks for

Native code whose every request, on every branch, is one of a set of allowed actions. The native
functions that it makes have to keep to the same actions.
-/

namespace ProtoVM

/-- The native code that a new function is to be entered with. -/
def HandleSpec.entry? {entry : Type} : HandleSpec entry → Option entry
  | fixed _ run => some run
  | variadic run => some run
  | inert => none
  | sameAs _ => none

/-- Whatever it is answered, the code asks for allowed actions only. -/
inductive Native.AsksOnly (allowed : Action → Prop) : Native → Prop
  | done (result : Except HostError Value) : AsksOnly allowed (.done result)
  | perform (action : Action) (next : action.Answer → Native) (asks : allowed action)
      (later : ∀ answer, AsksOnly allowed (next answer)) : AsksOnly allowed (.perform action next)
  | call (callee : ObjectId) (receiver : Value) (args : List Value)
      (next : Except RuntimeError Value → Native)
      (later : ∀ result, AsksOnly allowed (next result)) :
      AsksOnly allowed (.call callee receiver args next)
  | newFunction (name : String) (spec : HandleSpec NativeEntry) (next : ObjectId → Native)
      (entries : ∀ entry, spec.entry? = some entry → ∀ args, AsksOnly allowed (entry args))
      (later : ∀ o, AsksOnly allowed (next o)) : AsksOnly allowed (.newFunction name spec next)
  | defineNative (l : LoaderId) (id name : String) (spec : HandleSpec NativeEntry)
      (next : Except LoadError ObjectId → Native)
      (entries : ∀ entry, spec.entry? = some entry → ∀ args, AsksOnly allowed (entry args))
      (later : ∀ answer, AsksOnly allowed (next answer)) :
      AsksOnly allowed (.defineNative l id name spec next)

namespace Native

variable {allowed : Action → Prop}

mutual

/-- Where every action is allowed, any native code will do. -/
theorem asksOnly_of_forall (all : ∀ action, allowed action) : ∀ p : Native, p.AsksOnly allowed
  | .done result => .done result
  | .perform action next =>
    .perform action next (all action) fun answer => asksOnly_of_forall all (next answer)
  | .call callee receiver args next =>
    .call callee receiver args next fun result => asksOnly_of_forall all (next result)
  | .newFunction name spec next =>
    .newFunction name spec next (entry_asksOnly_of_forall all spec) fun o =>
      asksOnly_of_forall all (next o)
  | .defineNative l id name spec next =>
    .defineNative l id name spec next (entry_asksOnly_of_forall all spec) fun answer =>
      asksOnly_of_forall all (next answer)

theorem entry_asksOnly_of_forall (all : ∀ action, allowed action) :
    ∀ (spec : HandleSpec (List Value → Native)) (entry : List Value → Native),
      spec.entry? = some entry → ∀ args, (entry args).AsksOnly allowed
  | .fixed _ run, _, same, args => Option.some.inj same ▸ asksOnly_of_forall all (run args)
  | .variadic run, _, same, args => Option.some.inj same ▸ asksOnly_of_forall all (run args)

end

end Native

end ProtoVM
