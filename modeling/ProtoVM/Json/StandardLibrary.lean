import ProtoVM.Json.Scan

/-!
# The library that the program runs with

A reader that goes through a text once, from the front, and puts what it finds to the visitor at
once; a writer without blanks; and the derived readers and writers of record types.
-/

namespace ProtoVM.Json

/-! ## Values -/

/-- Takes a truth value. -/
def scanFlag : Scan Bool := do
  match ← peek with
  | none => throw .ended
  | some b =>
    if b = ascii 't' then do word ['t', 'r', 'u', 'e']; return true
    else if b = ascii 'f' then do word ['f', 'a', 'l', 's', 'e']; return false
    else refuse

/-- Takes a whole number of 64 bits without sign. -/
def scanSize : Scan UInt64 := do
  match ← peek with
  | none => throw .ended
  | some b =>
    if isDigit b then
      match ← number false with
      | .natural n => return UInt64.ofNat n
      | .other => throw .unsuitable
    else refuse

def scanValue : (kind : Kind) → Scan kind.Value
  | .flag => scanFlag
  | .size => scanSize

/-! ## Objects and lists -/

/-- Whether another item follows in brackets, after a comma unless it is the first one. -/
def scanSeparator (close : Char) (first : Bool) : Scan Bool := do
  match ← peek with
  | none => throw .ended
  | some b =>
    if b = ascii close then return false
    else if first then return true
    else if b = ascii ',' then
      skip
      match ← peek with
      | none => throw .ended
      | some b => if b = ascii close then throw .malformed else return true
    else throw .malformed

/-- Takes the name of a member. -/
def scanName : Scan String := do
  if !(← accept '"') then throw .malformed
  match String.fromUTF8? (← string).toByteArray with
  | none => throw .malformed
  | some name => return name

/-- Takes the colon behind the name of a member. -/
def scanColon : Scan Unit := do
  match ← peek with
  | none => throw .ended
  | some b => if b = ascii ':' then skip else throw .malformed

/-- What a type is in the end. -/
def result {α : Type} : Option α → Scan α
  | none => throw .unsuitable
  | some a => return a

mutual

/-- Takes the members of an object. A name is put to the visitor before the colon behind it is
looked for. -/
def scanMembers {α : Type} : Members α → (first : Bool) → Scan α
  | .mk named ended, first => do
    if ← scanSeparator '\x7d' first then scanDemanded (named (← scanName)) else result ended

/-- Takes what is wanted under a name, and the members behind it. -/
def scanDemanded {α : Type} : Demand α → Scan α
  | .refuse => throw .unsuitable
  | .ask kind next => do
    scanColon
    scanMembers (next (← scanValue kind)) false

end

/-- Takes the items of a list. -/
def scanItems {α : Type} : Items α → (first : Bool) → Scan α
  | .full ended, _ => result ended
  | .ask kind ended next, first => do
    if ← scanSeparator ']' first then scanItems (next (← scanValue kind)) false else result ended

/-- Takes the closing bracket. -/
def scanClose (close : Char) : Scan Unit := do
  match ← peek with
  | none => throw .ended
  | some b => if b = ascii close then skip else throw .malformed

/-- Takes an object or a list. -/
def scan {α : Type} (visitor : Visitor α) : Scan α := do
  match ← peek with
  | none => throw .ended
  | some b =>
    if b = ascii '\x7b' then do
      skip
      let a ← scanMembers visitor.members true
      scanClose '\x7d'
      return a
    else if b = ascii '[' then do
      skip
      let a ← scanItems visitor.items true
      scanClose ']'
      return a
    else refuse

/-- Reads a text, which must hold nothing behind the value. -/
def read {α : Type} (visitor : Visitor α) (text : String) : Except Problem α := do
  let found ← scan visitor text.toUTF8.data.toList
  if found.2.all isBlank then return found.1 else throw .malformed

/-! ## Writing -/

/-- A character between the quotes of a string. -/
def escaped (c : Char) : List Char :=
  if c = '"' ∨ c = '\\' then ['\\', c]
  else if c = '\x08' then ['\\', 'b']
  else if c = '\x0c' then ['\\', 'f']
  else if c = '\n' then ['\\', 'n']
  else if c = '\r' then ['\\', 'r']
  else if c = '\t' then ['\\', 't']
  else if c.toNat < 0x20 then
    ['\\', 'u', '0', '0', Nat.digitChar (c.toNat / 16), Nat.digitChar (c.toNat % 16)]
  else [c]

def writeEntry (e : Entry) : List Char :=
  '"' :: e.1.toList.flatMap escaped ++ '"' :: ':' :: e.2.text

/-- Members with commas between them. -/
def writeEntries : List Entry → List Char
  | [] => []
  | e :: es => writeEntry e ++ es.flatMap fun e => ',' :: writeEntry e

def write (entries : List Entry) : String :=
  String.ofList ('\x7b' :: writeEntries entries ++ ['\x7d'])

/-! ## Derived readers and writers -/

namespace Record

variable {α : Type}

/-- The fields of other names. -/
def without (left : List (Field α)) (name : String) : List (Field α) := left.filter (·.name ≠ name)

theorem length_without {left : List (Field α)} {name : String} {f : Field α}
    (found : left.find? (·.name = name) = some f) : (without left name).length < left.length := by
  have named := List.find?_some found
  refine List.length_filter_lt_length_iff_exists.mpr ⟨f, List.mem_of_find?_eq_some found, ?_⟩
  simpa using named

/-- Takes each of the fields that are left at most once, and no other member. -/
def members (left : List (Field α)) (a : α) : Members α :=
  .mk (fun name =>
      match found : left.find? (·.name = name) with
      | none => .refuse
      | some f =>
        have := length_without found
        .ask f.kind fun v => members (without left name) (f.set a v))
    (some a)
termination_by left.length

/-- Takes the fields in their order. -/
def items : List (Field α) → α → Items α
  | [], a => .full (some a)
  | f :: fs, a => .ask f.kind (some a) fun v => items fs (f.set a v)

/-- What is missing keeps its default. -/
def visitor (record : Record α) : Visitor α :=
  ⟨members record.fields record.default, items record.fields record.default⟩

/-- All fields in their order. -/
def entries (record : Record α) (a : α) : List Entry := record.fields.map (·.entry a)

end Record

/-- The library that the program runs with. -/
def library : Library where
  read := read
  write := write
  visitor := Record.visitor
  entries := Record.entries

end ProtoVM.Json
