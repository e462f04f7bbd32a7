import Mathlib
import ProtoVM.Proofs.Json.Grammar

/-!
# Records read and written by a library

What is relied on of a library: that it conforms to the grammar of JSON, showing a visitor the
members of an object one after the other, that it writes members as an object, and that what it
derives for a record type takes each field at most once, refuses every other member, and leaves the
default where a field is missing. From these, a record that is written is read again.
-/

namespace ProtoVM.Json

/-! ## Visits -/

/-- A type takes members one after the other; `later` is what it makes of those behind them. -/
inductive Members.Takes {α : Type} : Members α → List Entry → (later : Members α) → Prop where
  | nil {v : Members α} : v.Takes [] v
  | cons {v later : Members α} {name : String} {kind : Kind} {next : kind.Value → Members α}
    {value : kind.Value} {es : List Entry} (asks : v.named name = .ask kind next)
    (more : (next value).Takes es later) : v.Takes ((name, ⟨kind, value⟩) :: es) later

theorem Members.Takes.concat {α : Type} {v later : Members α} {es : List Entry}
    (taken : v.Takes es later) {name : String} {kind : Kind} {next : kind.Value → Members α}
    (asks : later.named name = .ask kind next) (value : kind.Value) :
    v.Takes (es ++ [(name, ⟨kind, value⟩)]) (next value) := by
  induction taken with
  | nil => exact .cons asks .nil
  | cons before _ ih => exact .cons before (ih asks)

/-- The names of entries. -/
def names (es : List Entry) : List String := es.map (·.1)

/-- The record has the entries, and the default where none of them is named. -/
def Record.Filled {α : Type} (record : Record α) (es : List Entry) (a : α) : Prop :=
  ∀ f ∈ record.fields, f.entry a ∈ es ∨ f.name ∉ names es ∧ f.get a = f.get record.default

/-! ## What is relied on -/

namespace Library

/-- A conforming reader shows the members of an object to the visitor, one after the other. -/
structure ReadsObjects (lib : Library) : Prop where
  /-- If it takes them all, it says what the result is. -/
  taken : ∀ {α : Type} (visitor : Visitor α) {es : List Entry} {later : Members α} {a : α}
    {text : String}, visitor.members.Takes es later → later.ended = some a →
      SpellsObject (es.map Entry.member) text.toList → lib.read visitor text = .ok a
  /-- If it refuses one, the text is unsuitable. -/
  refused : ∀ {α : Type} (visitor : Visitor α) {es : List Entry} {later : Members α} {m : Member}
    {ms : List Member} {text : String}, visitor.members.Takes es later →
      later.named m.name = .refuse → (∀ n ∈ m :: ms, IsValue n.value) →
      SpellsObject (es.map Entry.member ++ m :: ms) text.toList →
        lib.read visitor text = .error .unsuitable

/-- A conforming writer writes members as an object. -/
def WritesObjects (lib : Library) : Prop :=
  ∀ es : List Entry, SpellsObject (es.map Entry.member) (lib.write es).toList

/-- A reader that is derived with the attributes `default` and `deny_unknown_fields`, after it has
taken any members; and a derived writer. -/
structure DerivesRecords (lib : Library) : Prop where
  /-- A field that has not been taken is asked for. -/
  asks : ∀ {α : Type} (record : Record α) {es : List Entry} {later : Members α},
    (lib.visitor record).members.Takes es later → ∀ f ∈ record.fields, f.name ∉ names es →
      ∃ next, later.named f.name = .ask f.kind next
  /-- A field that has been taken is refused. -/
  repeated : ∀ {α : Type} (record : Record α) {es : List Entry} {later : Members α},
    (lib.visitor record).members.Takes es later → ∀ name ∈ names es, later.named name = .refuse
  /-- What is no field is refused (`deny_unknown_fields`). -/
  unknown : ∀ {α : Type} (record : Record α) {es : List Entry} {later : Members α},
    (lib.visitor record).members.Takes es later → ∀ name, (∀ f ∈ record.fields, f.name ≠ name) →
      later.named name = .refuse
  /-- A field has the value that was taken, and the default if none was (`default`). -/
  ended : ∀ {α : Type} (record : Record α) {es : List Entry} {later : Members α},
    (lib.visitor record).members.Takes es later → ∃ a, later.ended = some a ∧ record.Filled es a
  /-- The fields are written in their order. -/
  entries : ∀ {α : Type} (record : Record α) (a : α),
    lib.entries record a = record.fields.map (·.entry a)

end Library

/-! ## Entries of a record -/

theorem Field.entry_eq_iff {α : Type} {f : Field α} {a b : α} :
    f.entry a = f.entry b ↔ f.get a = f.get b := by simp [Field.entry]

namespace Record

variable {α : Type}

/-- Each entry is one of a field, and of another field than the others. -/
structure Fits (record : Record α) (es : List Entry) : Prop where
  distinct : (names es).Nodup
  typed : ∀ e ∈ es, ∃ f ∈ record.fields, f.name = e.1 ∧ f.kind = e.2.kind

variable (record : Record α)

/-- Fields are told apart by their names. -/
theorem eq_of_name {f g : Field α} (hf : f ∈ record.fields) (hg : g ∈ record.fields)
    (same : f.name = g.name) : f = g :=
  List.inj_on_of_nodup_map record.distinct hf hg same

theorem names_entries (a : α) :
    names (record.fields.map (·.entry a)) = record.fields.map (·.name) := by
  rw [names, List.map_map]
  rfl

theorem fits_entries (a : α) : record.Fits (record.fields.map (·.entry a)) where
  distinct := by
    rw [names_entries]
    exact record.distinct
  typed e mem := by
    obtain ⟨f, hf, rfl⟩ := List.mem_map.mp mem
    exact ⟨f, hf, rfl, rfl⟩

/-- A record that has all entries of another one agrees with it. -/
theorem get_eq_of_filled {a b : α} (filled : record.Filled (record.fields.map (·.entry b)) a) :
    ∀ f ∈ record.fields, f.get a = f.get b := by
  intro f hf
  rcases filled f hf with mem | ⟨missing, -⟩
  · obtain ⟨g, hg, same⟩ := List.mem_map.mp mem
    obtain rfl : g = f := record.eq_of_name hg hf (congrArg Prod.fst same)
    exact (Field.entry_eq_iff.mp same).symm
  · rw [names_entries] at missing
    exact absurd (List.mem_map_of_mem hf) missing

end Record

/-! ## Results -/

namespace Library

variable {lib : Library} {α : Type} {record : Record α} {es : List Entry} {text : String}
  (reader : lib.ReadsObjects) (derived : lib.DerivesRecords)

include derived in
/-- Entries that fit are taken one after the other. -/
theorem exists_takes (fits : record.Fits es) :
    ∃ later, (lib.visitor record).members.Takes es later := by
  induction es using List.reverseRecOn with
  | nil => exact ⟨_, .nil⟩
  | append_singleton es e ih =>
    obtain ⟨distinct, typed⟩ := fits
    rw [names, List.map_append, List.nodup_append] at distinct
    obtain ⟨later, taken⟩ := ih ⟨distinct.1, fun d mem => typed d (List.mem_append_left _ mem)⟩
    obtain ⟨f, hf, named, kind⟩ := typed e (List.mem_append_right _ List.mem_cons_self)
    have fresh : f.name ∉ names es := fun mem =>
      distinct.2.2 f.name mem e.1 List.mem_cons_self named
    obtain ⟨next, asks⟩ := derived.asks record taken f hf fresh
    obtain ⟨name, scalar, value⟩ := e
    obtain rfl : f.name = name := named
    obtain rfl : f.kind = scalar := kind
    exact ⟨next value, taken.concat asks value⟩

include reader derived

/-- The entries that an object lists are read, and the default is left for the others. -/
theorem exists_read (fits : record.Fits es)
    (spelled : SpellsObject (es.map Entry.member) text.toList) :
    ∃ a, lib.read (lib.visitor record) text = .ok a ∧ record.Filled es a := by
  obtain ⟨later, taken⟩ := exists_takes derived fits
  obtain ⟨a, ended, filled⟩ := derived.ended record taken
  exact ⟨a, reader.taken _ taken ended spelled, filled⟩

/-- A member that repeats one before it or is no field is refused. -/
theorem read_refused (fits : record.Fits es) {m : Member} {ms : List Member}
    (spoils : m.name ∈ names es ∨ ∀ f ∈ record.fields, f.name ≠ m.name)
    (values : ∀ n ∈ m :: ms, IsValue n.value)
    (spelled : SpellsObject (es.map Entry.member ++ m :: ms) text.toList) :
    lib.read (lib.visitor record) text = .error .unsuitable := by
  obtain ⟨later, taken⟩ := exists_takes derived fits
  have refused : later.named m.name = .refuse := by
    rcases spoils with listed | other
    · exact derived.repeated record taken m.name listed
    · exact derived.unknown record taken m.name other
  exact reader.refused _ taken refused values spelled

/-- What is read of a written record agrees with it in every field. -/
theorem exists_read_write (record : Record α) (writer : lib.WritesObjects) (a : α) :
    ∃ b, lib.read (lib.visitor record) (lib.write (lib.entries record a)) = .ok b ∧
      ∀ f ∈ record.fields, f.get b = f.get a := by
  have written := writer (record.fields.map (·.entry a))
  rw [derived.entries record a]
  obtain ⟨b, result, filled⟩ := exists_read reader derived (record.fits_entries a) written
  exact ⟨b, result, record.get_eq_of_filled filled⟩

end Library

end ProtoVM.Json
