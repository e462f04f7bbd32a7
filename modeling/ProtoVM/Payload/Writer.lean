import ProtoVM.Bytecode.Unit
import ProtoVM.Digest.Sha256

/-!
# Payloads

A payload carries one unit as bytes. Numbers are little-endian, texts are UTF-8 behind their
length, and lists are behind their count:

  magic, version, name, parameters, constants, code, digest of all bytes before it.

A constant is a tag byte and its value. Lengths and counts take four bytes. The digest can be any
function to 32 bytes; it is SHA-256 in the payloads that are exchanged.
-/

namespace ProtoVM.Payload

/-- The four bytes every payload starts with. -/
def magic : List UInt8 := [0x4b, 0x53, 0x54, 0x55]

/-- The version of the format that is written and read. -/
def formatVersion : Nat := 1

/-- The bytes of the digest at the end. -/
def checksumLength : Nat := 32

/-- The low `width` bytes of a number, least significant first. -/
def littleEndian : (width : Nat) → (value : Nat) → List UInt8
  | 0, _ => []
  | width + 1, value => UInt8.ofNat value :: littleEndian width (value / 256)

@[simp] theorem length_littleEndian (width value : Nat) :
    (littleEndian width value).length = width := by
  induction width generalizing value with
  | zero => rfl
  | succ width ih => simp [littleEndian, ih]

/-- Bytes behind their length. -/
def writeBytes (bytes : List UInt8) : List UInt8 := littleEndian 4 bytes.length ++ bytes

/-- The UTF-8 bytes of a text. -/
def utf8 (s : String) : List UInt8 := s.toUTF8.data.toList

def writeString (s : String) : List UInt8 := writeBytes (utf8 s)

/-- A tag byte and the value of the constant. -/
def writeConstant : Constant → List UInt8
  | .int i => 0 :: littleEndian 8 i.toUInt64.toNat
  | .float x => 1 :: littleEndian 8 x.bits.toNat
  | .str s => 2 :: writeString s
  | .bool b => [3, if b then 1 else 0]
  | .undefined => [4]

/-- A list behind its count. -/
def writeList {α : Type} (write : α → List UInt8) (items : List α) : List UInt8 :=
  littleEndian 4 items.length ++ items.flatMap write

/-- The fields of a unit in the order of the format. -/
def writeFields (u : CodeUnit) : List UInt8 :=
  writeString u.name ++ writeList writeString u.parameters ++ writeList writeConstant u.constants
    ++ writeBytes u.code

/-- Everything before the digest. -/
def writeBody (u : CodeUnit) : List UInt8 :=
  magic ++ littleEndian 2 formatVersion ++ writeFields u

/-- A digest of byte lists. -/
structure Digest where
  hash : List UInt8 → List UInt8
  length_hash : ∀ bytes, (hash bytes).length = checksumLength

/-- The payload of a unit with a given digest. -/
def Digest.encode (d : Digest) (u : CodeUnit) : List UInt8 := writeBody u ++ d.hash (writeBody u)

/-- The digest of the payloads that are exchanged (`hash_bytes`). -/
def sha256 : Digest := ⟨Sha256.hash, Sha256.length_hash⟩

/-- The payload of a unit (`encode_unit`). -/
def encode (u : CodeUnit) : List UInt8 := sha256.encode u

end ProtoVM.Payload
