import Mathlib
import ProtoVM.Config
import ProtoVM.Proofs.Json.StandardLibrary

/-!
# Written settings

A JSON object may list any of the settings of a loader, each at most once, in any order and with
any blanks between the tokens. A library that conforms reads it as the default settings with exactly
those replaced. One member more, of another name or of a name that is listed already, and the object
is refused as unsuitable.
-/

namespace ProtoVM.Config

open Json

/-! ## Settings -/

/-- A setting with its value. -/
inductive Setting where
  | verifyChecksum (b : Bool)
  | maxCallDepth (n : UInt64)
  | maxStack (n : UInt64)

namespace Setting

def name : Setting → String
  | verifyChecksum _ => "verify_checksum"
  | maxCallDepth _ => "max_call_depth"
  | maxStack _ => "max_stack"

def scalar : Setting → Scalar
  | verifyChecksum b => ⟨.flag, b⟩
  | maxCallDepth n => ⟨.size, n⟩
  | maxStack n => ⟨.size, n⟩

def entry (s : Setting) : Entry := (s.name, s.scalar)

/-- The setting as a member of an object. -/
def member (s : Setting) : Member := s.entry.member

theorem entry_inj {s t : Setting} (h : s.entry = t.entry) : s = t := by
  cases s <;> cases t <;> simp_all [entry, name, scalar]

end Setting

def Has (c : Config) : Setting → Prop
  | .verifyChecksum b => c.verifyChecksum = b
  | .maxCallDepth n => c.maxCallDepth = n
  | .maxStack n => c.maxStack = n

/-- The settings are those that are listed, and the default ones where none is listed. -/
def Overrides (c : Config) (settings : List Setting) : Prop :=
  ∀ s, c.Has s ↔ s ∈ settings ∨ s.name ∉ settings.map Setting.name ∧ ({} : Config).Has s

/-! ## Settings as fields -/

/-- Every setting is one of a field. -/
theorem Setting.exists_field (s : Setting) : ∃ f ∈ record.fields, f.name = s.name ∧
    f.kind = s.scalar.kind ∧ ∀ c : Config, c.Has s ↔ f.entry c = s.entry := by
  cases s <;> simp [record, Has, Field.entry, entry, name, scalar]

/-- Every field is named by a setting. -/
theorem exists_setting {f : Json.Field Config} (mem : f ∈ record.fields) :
    ∃ s : Setting, s.name = f.name := by
  simp only [record, List.mem_cons, List.not_mem_nil, or_false] at mem
  rcases mem with rfl | rfl | rfl
  · exact ⟨.verifyChecksum true, rfl⟩
  · exact ⟨.maxCallDepth 0, rfl⟩
  · exact ⟨.maxStack 0, rfl⟩

theorem names_settings (settings : List Setting) :
    names (settings.map Setting.entry) = settings.map Setting.name := by
  rw [names, List.map_map]
  rfl

theorem member_settings (settings : List Setting) :
    settings.map Setting.member = (settings.map Setting.entry).map Entry.member := by
  rw [List.map_map]
  rfl

theorem fits_settings {settings : List Setting} (distinct : (settings.map Setting.name).Nodup) :
    record.Fits (settings.map Setting.entry) where
  distinct := by rwa [names_settings]
  typed e mem := by
    obtain ⟨s, -, rfl⟩ := List.mem_map.mp mem
    obtain ⟨f, hf, named, kind, -⟩ := s.exists_field
    exact ⟨f, hf, named, kind⟩

/-- A record that has the listed settings overrides the default ones by exactly those. -/
theorem overrides_of_filled {settings : List Setting}
    (distinct : (settings.map Setting.name).Nodup) {c : Config}
    (filled : record.Filled (settings.map Setting.entry) c) : c.Overrides settings := by
  intro s
  obtain ⟨f, hf, named, -, has⟩ := s.exists_field
  rw [has, has]
  rcases filled f hf with listed | ⟨missing, same⟩
  · obtain ⟨t, ht, entry⟩ := List.mem_map.mp listed
    have tells : t.name = s.name := (congrArg Prod.fst entry).trans named
    constructor
    · intro held
      obtain rfl := Setting.entry_inj (entry.trans held)
      exact .inl ht
    · rintro (hs | ⟨absent, -⟩)
      · obtain rfl := List.inj_on_of_nodup_map distinct ht hs tells
        exact entry.symm
      · exact absurd (tells ▸ List.mem_map_of_mem ht) absent
  · rw [names_settings, named] at missing
    have kept := Field.entry_eq_iff.mpr same
    constructor
    · exact fun held => .inr ⟨missing, kept.symm.trans held⟩
    · rintro (hs | ⟨-, held⟩)
      · exact absurd (List.mem_map_of_mem hs) missing
      · exact kept.trans held

/-! ## Main result -/

/-- A member that is added to an object between settings that it lists. -/
inductive Spoils (before after : List Setting) : Member → Prop where
  /-- There is no setting of this name. -/
  | unknown {m : Member} (other : ∀ s : Setting, s.name ≠ m.name) : Spoils before after m
  /-- The setting is listed before it. -/
  | repeats {m : Member} {s : Setting} (listed : s ∈ before) (same : m.name = s.name) :
    Spoils before after m
  /-- The setting is listed again behind it. -/
  | repeated {s t : Setting} (listed : t ∈ after) (same : s.name = t.name) :
    Spoils before after s.member

section

variable {lib : Library} (reader : lib.ReadsObjects) (derived : lib.DerivesRecords)
include reader derived

theorem readJson_writeJson (writer : lib.WritesObjects) (c : Config) :
    readJson lib (c.writeJson lib) = .ok c := by
  obtain ⟨b, result, agrees⟩ := Library.exists_read_write reader derived record writer c
  have fields : b.verifyChecksum = c.verifyChecksum ∧ b.maxCallDepth = c.maxCallDepth ∧
      b.maxStack = c.maxStack := by simpa [record] using agrees
  obtain rfl : b = c := by
    obtain ⟨flag, depth, stack⟩ := b
    obtain ⟨rfl, rfl, rfl⟩ := fields
    rfl
  exact result

/-- A member of a name that is listed before it, or of no setting, is refused. -/
theorem readJson_refused {before after : List Setting} (distinct : (before.map Setting.name).Nodup)
    {m : Member} (value : IsValue m.value)
    (spoils : m.name ∈ before.map Setting.name ∨ ∀ s : Setting, s.name ≠ m.name) {text : String}
    (spelled : SpellsObject (before.map Setting.member ++ m :: after.map Setting.member)
      text.toList) : readJson lib text = .error .unsuitable := by
  have values : ∀ n ∈ m :: after.map Setting.member, IsValue n.value := by
    refine List.forall_mem_cons.mpr ⟨value, fun n mem => ?_⟩
    obtain ⟨s, -, rfl⟩ := List.mem_map.mp mem
    exact isValue_text s.scalar
  have refused : m.name ∈ names (before.map Setting.entry) ∨
      ∀ f ∈ record.fields, f.name ≠ m.name := by
    rw [names_settings]
    refine spoils.imp_right fun other f hf => ?_
    obtain ⟨s, named⟩ := exists_setting hf
    exact named ▸ other s
  rw [member_settings before] at spelled
  exact Library.read_refused reader derived (fits_settings distinct) refused values spelled

theorem readJson_of_spoils {before after : List Setting}
    (distinct : ((before ++ after).map Setting.name).Nodup) {m : Member}
    (spoils : Spoils before after m) (value : IsValue m.value) {text : String}
    (spelled : SpellsObject (before.map Setting.member ++ m :: after.map Setting.member)
      text.toList) : readJson lib text = .error .unsuitable := by
  rw [List.map_append] at distinct
  have distinct_before := (List.nodup_append.mp distinct).1
  cases spoils with
  | unknown other =>
    exact readJson_refused reader derived distinct_before value (.inr other) spelled
  | @repeats m s listed same =>
    refine readJson_refused reader derived distinct_before value (.inl ?_) spelled
    rw [same]
    exact List.mem_map_of_mem listed
  | @repeated s t listed same =>
    -- the copy is taken, and the setting behind it is refused
    obtain ⟨between, behind, rfl⟩ := List.append_of_mem listed
    have moved : ((before ++ s :: between).map Setting.name).Perm
        (before.map Setting.name ++ (between.map Setting.name ++ [t.name])) := by
      rw [List.map_append, List.map_cons, same]
      exact (List.perm_append_singleton _ _).symm.append_left _
    have earlier : (before.map Setting.name ++ (between.map Setting.name ++ [t.name])).Sublist
        (before.map Setting.name ++ (between ++ t :: behind).map Setting.name) := by
      rw [List.map_append, List.map_cons]
      exact ((List.singleton_sublist.mpr List.mem_cons_self).append_left _).append_left _
    have copied : SpellsObject ((before ++ s :: between).map Setting.member ++
        t.member :: behind.map Setting.member) text.toList := by
      simpa using spelled
    refine readJson_refused reader derived (moved.nodup_iff.mpr (distinct.sublist earlier))
      (isValue_text t.scalar) (.inl ?_) copied
    have named : t.member.name = s.name := same.symm
    rw [named]
    exact List.mem_map_of_mem (List.mem_append_right _ List.mem_cons_self)

end

/-- With a library whose reader and writer conform and that derives records, the settings that are
written are read again. An object that lists some of the settings, each once, is read as the default
settings with exactly those replaced. A member that is added anywhere, of another name or of one
that is listed, makes the object unsuitable. -/
theorem readJson_restores_overrides_refuses (lib : Library) (reader : lib.ReadsObjects)
    (writer : lib.WritesObjects) (derived : lib.DerivesRecords) :
    (∀ c : Config, readJson lib (c.writeJson lib) = .ok c) ∧
    (∀ (settings : List Setting) (text : String), (settings.map Setting.name).Nodup →
      SpellsObject (settings.map Setting.member) text.toList →
        ∃ c, readJson lib text = .ok c ∧ c.Overrides settings) ∧
    ∀ (before after : List Setting) (m : Member) (text : String),
      ((before ++ after).map Setting.name).Nodup → Spoils before after m → IsValue m.value →
      SpellsObject (before.map Setting.member ++ m :: after.map Setting.member) text.toList →
        readJson lib text = .error .unsuitable := by
  refine ⟨readJson_writeJson reader derived writer, fun settings text distinct spelled => ?_, ?_⟩
  · rw [member_settings] at spelled
    obtain ⟨c, result, filled⟩ :=
      Library.exists_read reader derived (fits_settings distinct) spelled
    exact ⟨c, result, overrides_of_filled distinct filled⟩
  · exact fun before after m text distinct spoils value spelled =>
      readJson_of_spoils reader derived distinct spoils value spelled

/-- A text with blanks and an escape lists two settings. With a third member in between, it is
refused. -/
theorem readJson_restores_overrides_refuses_spaced :
    let stack : Setting := .maxStack 7
    let checksum : Setting := .verifyChecksum false
    let jit : Member := ⟨"jit", ['[', ']']⟩
    let text := " \x7b\t\"max_stac\\u006B\" :7\n, \"verify_checksum\": false\x7d\n"
    let spoilt :=
      " \x7b\t\"max_stac\\u006B\" :7\n, \"jit\":[]\n, \"verify_checksum\": false\x7d\n"
    ofJson (toJson ⟨false, 0, 18446744073709551615⟩) = .ok ⟨false, 0, 18446744073709551615⟩ ∧
    SpellsObject [stack.member, checksum.member] text.toList ∧
    (∃ c, ofJson text = .ok c ∧ c.Overrides [stack, checksum]) ∧
    SpellsObject [stack.member, jit, checksum.member] spoilt.toList ∧
    ofJson spoilt = .error .unsuitable := by
  intro stack checksum jit text spoilt
  have blank (c : Char) (h : c = ' ' ∨ c = '\n' ∨ c = '\r' ∨ c = '\t') : Blanks [c] := by
    simpa [Blanks] using h
  have escaped : SpellsString "max_stack".toList ("max_stac".toList ++ "\\u006B".toList) := by
    have letter : SpellsUnit 'k'.toNat ['0', '0', '6', 'B'] :=
      .digits (i := 0) (j := 0) (k := 6) (l := 11) (by decide) (by decide) (by decide) (by decide)
    have plain : SpellsString "max_stac".toList "max_stac".toList := spellsString_self (by simp)
    exact plain.append (.cons (.escape (.unit letter)) .nil)
  have named : SpellsString "jit".toList "jit".toList := spellsString_self (by simp)
  have checks : SpellsString "verify_checksum".toList "verify_checksum".toList :=
    spellsString_self (by simp)
  have first : SpellsMember stack.member _ :=
    .spelled (blank '\t' (by simp)) escaped (blank ' ' (by simp)) blanks_nil
  have between : SpellsMember jit _ :=
    .spelled (blank ' ' (by simp)) named blanks_nil blanks_nil
  have last : SpellsMember checksum.member _ :=
    .spelled (blank ' ' (by simp)) checks blanks_nil (blank ' ' (by simp))
  have lasts : Lists SpellsMember false [checksum.member] _ :=
    .next (blank '\n' (by simp)) last (.none blanks_nil)
  have listed : SpellsObject [stack.member, checksum.member] text.toList := by
    have object := SpellsObject.spelled (blank ' ' (by simp)) (.first first lasts)
      (blank '\n' (by simp))
    convert object using 1
    cbv
  have mixed : SpellsObject [stack.member, jit, checksum.member] spoilt.toList := by
    have object := SpellsObject.spelled (blank ' ' (by simp))
      (.first first (.next (blank '\n' (by simp)) between lasts)) (blank '\n' (by simp))
    convert object using 1
    cbv
  have distinct : ([stack, checksum].map Setting.name).Nodup := by decide
  have value : IsValue jit.value := .list (.none blanks_nil) (by simp)
  obtain ⟨restores, overrides, refuses⟩ := readJson_restores_overrides_refuses library
    readsObjects_library writesObjects_library derivesRecords_library
  have other : ∀ s : Setting, s.name ≠ jit.name := by
    intro s
    cases s <;> simp [Setting.name, jit]
  refine ⟨restores _, listed, overrides _ _ distinct listed, mixed, ?_⟩
  exact refuses [stack] [checksum] jit _ distinct (.unknown other) value mixed

end ProtoVM.Config
