import ProtoVM.Proofs.Payload.Spellings

/-!
# Payload round trip

What the writer makes of a unit spells it, so the reader takes it apart again. The only way in which
a written payload is refused is the code check of its unit.
-/

namespace ProtoVM.Payload

/-! ## What is written -/

/-- A constant whose text, if it is one, has a length that fits its four bytes. -/
def FitsConstant (c : Constant) : Prop := ∀ s, c = .str s → (utf8 s).length < UInt32.size

/-- Every length and every count of the unit fits its four bytes. -/
structure Fits (u : CodeUnit) : Prop where
  name : (utf8 u.name).length < UInt32.size
  parameterCount : u.parameters.length < UInt32.size
  parameters : ∀ p ∈ u.parameters, (utf8 p).length < UInt32.size
  constantCount : u.constants.length < UInt32.size
  constants : ∀ c ∈ u.constants, FitsConstant c
  code : u.code.length < UInt32.size

theorem spellsConstant_writeConstant {c : Constant} (fits : FitsConstant c) :
    SpellsConstant c (writeConstant c) := by
  cases c with
  | int i => exact .int i
  | float x => exact .float x
  | str s => exact .str ⟨fits s rfl, rfl⟩
  | bool b =>
    cases b with
    | false => exact .bool 0
    | true => exact .bool 1
  | undefined => exact .undefined

theorem spellsAll_flatMap {α : Type} {Spells : α → List UInt8 → Prop} {write : α → List UInt8}
    {items : List α} (h : ∀ a ∈ items, Spells a (write a)) :
    SpellsAll Spells items (items.flatMap write) := by
  induction items with
  | nil => exact .nil
  | cons a items ih =>
    have first := h a (by simp)
    have later := ih fun b hb => h b (List.mem_cons_of_mem a hb)
    exact .cons first later

theorem spellsFields_writeFields {u : CodeUnit} (fits : Fits u) :
    SpellsFields u (writeFields u) := by
  have parameters : SpellsAll SpellsString u.parameters (u.parameters.flatMap writeString) :=
    spellsAll_flatMap fun p hp => ⟨fits.parameters p hp, rfl⟩
  have constants : SpellsAll SpellsConstant u.constants (u.constants.flatMap writeConstant) :=
    spellsAll_flatMap fun c hc => spellsConstant_writeConstant (fits.constants c hc)
  exact ⟨_, _, _, _, ⟨fits.name, rfl⟩, ⟨fits.parameterCount, _, parameters, rfl⟩,
    ⟨fits.constantCount, _, constants, rfl⟩, ⟨fits.code, rfl⟩, rfl⟩

/-! ## Payloads -/

variable (d : Digest) (u : CodeUnit)

theorem length_encode : (d.encode u).length = (writeBody u).length + checksumLength := by
  rw [Digest.encode, List.length_append, d.length_hash]

/-- What stands before the digest of a written payload. -/
theorem take_encode : (d.encode u).take ((d.encode u).length - checksumLength) = writeBody u := by
  rw [length_encode, Nat.add_sub_cancel]
  exact List.take_left

theorem readUnit_encode (fits : Fits u) (verify : Bool) :
    d.readUnit (d.encode u) verify = .ok (u, d.hash (writeBody u)) :=
  readUnit_eq_ok_iff.mpr
    ⟨writeFields u, rfl, spellsFields_writeFields fits, d.length_hash _, fun _ => rfl⟩

theorem decode_encode (fits : Fits u) (verify : Bool) :
    d.decode (d.encode u) verify = u.check.map fun _ => u := by
  rw [Digest.decode, readUnit_encode d u fits]
  show (u.check.bind fun _ => .ok u) = u.check.map fun _ => u
  cases u.check with
  | error e => rfl
  | ok => rfl

/-- Whatever digest it is written with, a written payload is read back as the unit it was written
from, whether the digest is verified or not, unless the code check refuses the unit; then its fault
is the answer. The summary of the payload tells the lengths of the unit and the digest of all bytes
before the digest. -/
theorem decode_and_inspect_encode (fits : Fits u) :
    (∀ verify, d.decode (d.encode u) verify = u.check.map fun _ => u) ∧
    d.inspect (d.encode u) = .ok {
      formatVersion
      name := u.name
      parameters := u.parameters.length
      constants := u.constants.length
      codeLength := u.code.length
      checksum := d.hash ((d.encode u).take ((d.encode u).length - checksumLength)) } := by
  refine ⟨decode_encode d u fits, ?_⟩
  rw [Digest.inspect, readUnit_encode d u fits, take_encode]
  rfl

/-- A unit with a constant of every kind, a text beyond ASCII and a NaN that is not the usual
one. -/
def everyConstant : CodeUnit where
  name := "größe"
  parameters := ["a", "b"]
  constants := [.str "a", .float ⟨0x7ff8000000000001⟩, .bool true, .undefined, .int (-7)]
  code := Code.instruction .getName [0] ++ Code.instruction .ret []

theorem fits_everyConstant : Fits everyConstant where
  name := by decide
  parameterCount := by decide
  parameters := by decide
  constantCount := by decide
  constants := by
    intro c hc s hs
    subst hs
    simp only [everyConstant, List.mem_cons, Constant.str.injEq, reduceCtorEq, List.not_mem_nil,
      or_false] at hc
    subst hc
    decide
  code := by decide

theorem decode_encode_everyConstant :
    Fits everyConstant ∧ decode (encode everyConstant) true = .ok everyConstant ∧
      decode (encode everyConstant) false = .ok everyConstant := by
  have accepted : everyConstant.check = .ok () := by cbv
  have reads := (decode_and_inspect_encode sha256 everyConstant fits_everyConstant).1
  refine ⟨fits_everyConstant, ?_, ?_⟩
  · rw [decode, encode, reads true, accepted]
    rfl
  · rw [decode, encode, reads false, accepted]
    rfl

end ProtoVM.Payload
