import ProtoVM.Call.Action

/-!
# Dictionaries

A dictionary maps function identifiers to what is known about them. An identifier can be declared
before its function exists, and declared again until then; from the time it is bound to a function
it can not be declared any more. Binding keeps the declared name and parameters.
-/

namespace ProtoVM

/-- The functions known under identifiers. -/
structure Dictionary where
  entries : List (String × Descriptor)

namespace Dictionary

def empty : Dictionary := ⟨[]⟩

/-- What is known about an identifier. -/
def descriptor? (d : Dictionary) (id : String) : Option Descriptor := d.entries.lookup id

/-- The function of an identifier. -/
def resolve? (d : Dictionary) (id : String) : Option ObjectId :=
  (d.descriptor? id).bind (·.function)

/-- The identifiers in order (`ids`). -/
def identifiers (d : Dictionary) : List String :=
  (d.entries.map (·.1)).mergeSort fun a b => decide (a ≤ b)

/-- Sets what is known about an identifier. -/
def insert (d : Dictionary) (id : String) (descriptor : Descriptor) : Dictionary :=
  ⟨(id, descriptor) :: d.entries.filter (·.1 ≠ id)⟩

/-- Declares an identifier, unless it has a function; answers whether it did. A function that the
descriptor carries is left out. -/
def declare (d : Dictionary) (id : String) (descriptor : Descriptor) : Bool × Dictionary :=
  if (d.resolve? id).isSome then (false, d)
  else (true, d.insert id { descriptor with function := none })

/-- Gives an identifier its function. The name and the parameters are those of the declaration, if
there is one. -/
def bind (d : Dictionary) (id name : String) (parameters : List String) (function : ObjectId) :
    Dictionary :=
  let known := (d.descriptor? id).getD ⟨name, parameters, none⟩
  d.insert id { known with function := some function }

/-- A declared identifier takes only a function with the declared number of parameters
(`check_signature`). -/
def checkParameters (d : Dictionary) (id : String) (found : Nat) : Except LoadError Unit :=
  match d.descriptor? id with
  | none => .ok ()
  | some descriptor =>
    let expected := descriptor.parameters.length
    if expected = found then .ok () else .error (.signatureMismatch id expected found)

end Dictionary

end ProtoVM
