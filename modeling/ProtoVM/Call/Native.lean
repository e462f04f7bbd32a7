import ProtoVM.Call.Action

/-!
# Native code

A native function is host code that answers a call. What it does for given arguments is a tree:
at each node it asks something of the session, or calls an object, and goes on with the answer,
until it ends with a value or an error. Every branch of the tree is finite, so native code runs
finitely many steps of its own; calls may go on for as long as they like.
-/

namespace ProtoVM

/-- How an object is to be called, where it is made by host code. The first of the arguments that
native code is entered with is the receiver. -/
inductive HandleSpec (entry : Type) where
  /-- It can not be called. -/
  | inert
  /-- Native code that takes a fixed number of values, receiver included. -/
  | fixed (arity : Nat) (run : entry)
  /-- Native code that takes a receiver and any number of arguments. -/
  | variadic (run : entry)
  /-- Like an object that exists already. -/
  | sameAs (o : ObjectId)

/-- What native code does. -/
inductive Native where
  | done (result : Except HostError Value)
  | perform (action : Action) (next : action.Answer → Native)
  /-- Calls an object. The error of a failed call can be handled like any other answer. -/
  | call (callee : ObjectId) (receiver : Value) (args : List Value)
      (next : Except RuntimeError Value → Native)
  | newFunction (name : String) (handle : HandleSpec (List Value → Native))
      (next : ObjectId → Native)
  | defineNative (l : LoaderId) (id name : String) (handle : HandleSpec (List Value → Native))
      (next : Except LoadError ObjectId → Native)

/-- Native code as it is entered: with the receiver and the arguments. -/
abbrev NativeEntry := List Value → Native

/-- How an object is called (`CallableHandle`). -/
inductive Handle where
  /-- It can not be called. -/
  | inert
  | fixed (arity : Nat) (entry : NativeEntry)
  | variadic (entry : NativeEntry)
  | interpreted (unit : BoundUnit)

namespace Handle

/-- The number of values, receiver included, that a call must pass; `none` if any number will
do. -/
def arity? : Handle → Option Nat
  | inert => none
  | fixed arity _ => some arity
  | variadic _ => none
  | interpreted unit => some (unit.unit.parameters.length + 1)

def invocable : Handle → Bool
  | inert => false
  | _ => true

def unit? : Handle → Option BoundUnit
  | interpreted unit => some unit
  | _ => none

/-- The description of a handle. -/
def summary : Handle → String
  | inert => "NoInvoker"
  | fixed arity _ => s!"Fixed({arity})"
  | variadic _ => "Variadic"
  | interpreted unit => s!"Interpreted({unit.unit.name})"

end Handle

end ProtoVM
