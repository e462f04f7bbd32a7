/-!
# Libraries for JSON

The program leaves JSON to a library. A type says what it makes of a text, as a visitor: under which
names it takes members of an object, a value of which kind each time, and what it is in the end.
The library reads a text for a visitor and writes members as a text, and it derives the visitor and
the members of a record type from a description of its fields.
-/

namespace ProtoVM.Json

/-- What is wrong with a text, by the category of the error. -/
inductive Problem where
  /-- The text ends before the value is complete. -/
  | ended
  /-- The text breaks the grammar. -/
  | malformed
  /-- The value is well formed so far, but of the wrong type or under a wrong name. -/
  | unsuitable
deriving DecidableEq

/-! ## Values -/

/-- The types of values that are read and written. -/
inductive Kind where
  /-- A truth value. -/
  | flag
  /-- A whole number of 64 bits without sign. -/
  | size
deriving DecidableEq

@[reducible] def Kind.Value : Kind → Type
  | flag => Bool
  | size => UInt64

/-- A value of either kind. -/
structure Scalar where
  kind : Kind
  value : kind.Value

/-- The JSON text of a value: a word, or a number in decimal. -/
def Scalar.text : Scalar → List Char
  | ⟨.flag, true⟩ => ['t', 'r', 'u', 'e']
  | ⟨.flag, false⟩ => ['f', 'a', 'l', 's', 'e']
  | ⟨.size, n⟩ => (toString (UInt64.toNat n)).toList

/-- A member of an object: its name and its value. -/
abbrev Entry := String × Scalar

/-! ## Visitors -/

mutual

/-- What a type makes of the members of an object (`visit_map`): what it wants under each name, and
what it is if no member follows, unless something is missing. -/
inductive Members (α : Type) where
  | mk (named : String → Demand α) (ended : Option α)

/-- What a type wants under a name: no member, or one with a value of some kind. -/
inductive Demand (α : Type) where
  | refuse
  | ask (kind : Kind) (next : kind.Value → Members α)

end

namespace Members

variable {α : Type}

def named : Members α → String → Demand α
  | mk named _ => named

def ended : Members α → Option α
  | mk _ ended => ended

end Members

/-- What a type makes of the items of a list (`visit_seq`): no further one, or one of some kind. -/
inductive Items (α : Type) where
  | full (result : Option α)
  | ask (kind : Kind) (ended : Option α) (next : kind.Value → Items α)

/-- What a type makes of an object or of a list. -/
structure Visitor (α : Type) where
  members : Members α
  items : Items α

/-! ## Record types -/

/-- A field of a record type. -/
structure Field (α : Type) where
  name : String
  kind : Kind
  get : α → kind.Value
  set : α → kind.Value → α

/-- The member that stands for a field of a record. -/
def Field.entry {α : Type} (f : Field α) (a : α) : Entry := (f.name, ⟨f.kind, f.get a⟩)

/-- A record type with default values, as a reader is derived for it with the attributes `default`
and `deny_unknown_fields`. -/
structure Record (α : Type) where
  fields : List (Field α)
  default : α
  distinct : (fields.map (·.name)).Nodup
  get_set : ∀ f ∈ fields, ∀ a v, f.get (f.set a v) = v
  /-- Setting a field leaves the other ones alone. -/
  get_set_of_ne : ∀ f ∈ fields, ∀ g ∈ fields, f.name ≠ g.name → ∀ a v, f.get (g.set a v) = f.get a

/-! ## Libraries -/

/-- What the program uses of a library. -/
structure Library where
  /-- Reads a text that holds one value and nothing else (`from_str`). -/
  read : {α : Type} → Visitor α → String → Except Problem α
  /-- Writes members as an object (`to_string`). -/
  write : List Entry → String
  /-- The derived reader of a record type (`Deserialize`). -/
  visitor : {α : Type} → Record α → Visitor α
  /-- The members that a record is written as by the derived writer (`Serialize`). -/
  entries : {α : Type} → Record α → α → List Entry

end ProtoVM.Json
