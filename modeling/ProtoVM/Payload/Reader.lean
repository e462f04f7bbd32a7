import ProtoVM.Bytecode.WellFormed
import ProtoVM.Payload.Writer

/-!
# Reading payloads

Reading takes the fields of a payload in order and reports the first thing that is wrong: too few
bytes for the magic, a wrong magic, the version, the digest when it is to be verified, then the
fields, then bytes left over, and last the code itself.
-/

namespace ProtoVM.Payload

/-- Takes something from the front of the bytes. -/
abbrev Reader := StateT (List UInt8) (Except LoadError)

/-- The number whose bytes, least significant first, are given. -/
def ofLittleEndian (bytes : List UInt8) : Nat := bytes.foldr (fun b n => b.toNat + 256 * n) 0

/-- Takes a number of bytes. -/
def takeBytes (count : Nat) : Reader (List UInt8) := fun input =>
  let bytes := input.take count
  if bytes.length = count then .ok (bytes, input.drop count) else .error .truncated

/-- Takes a number of a given width in bytes. -/
def takeNumber (width : Nat) : Reader Nat := ofLittleEndian <$> takeBytes width

/-- Takes bytes behind their length. -/
def readBytes : Reader (List UInt8) := do takeBytes (← takeNumber 4)

/-- The text of UTF-8 bytes. -/
def ofUtf8? (bytes : List UInt8) : Option String := String.fromUTF8? ⟨bytes.toArray⟩

def readString : Reader String := do
  match ofUtf8? (← readBytes) with
  | some s => return s
  | none => throw .invalidUtf8

/-- Takes a constant. Any nonzero byte stands for `true`. -/
def readConstant : Reader Constant := do
  let tag ← takeNumber 1
  match tag with
  | 0 => return .int (UInt64.ofNat (← takeNumber 8)).toInt64
  | 1 => return .float ⟨UInt64.ofNat (← takeNumber 8)⟩
  | 2 => return .str (← readString)
  | 3 => return .bool ((← takeNumber 1) ≠ 0)
  | 4 => return .undefined
  | _ => throw (.invalidConstantTag (UInt8.ofNat tag))

/-- Takes one item after the other. -/
def takeMany {α : Type} (item : Reader α) : (count : Nat) → Reader (List α)
  | 0 => return []
  | count + 1 => do
    let first ← item
    let rest ← takeMany item count
    return first :: rest

/-- Takes a list behind its count. -/
def readList {α : Type} (item : Reader α) : Reader (List α) := do takeMany item (← takeNumber 4)

/-- Takes the fields of a unit. -/
def readFields : Reader CodeUnit := do
  let name ← readString
  let parameters ← readList readString
  let constants ← readList readConstant
  let code ← readBytes
  return { name, parameters, constants, code }

/-- Takes the magic and the version. -/
def readHeader : Reader Unit := do
  if (← takeBytes magic.length) ≠ magic then throw .badMagic
  let version ← takeNumber 2
  if version ≠ formatVersion then throw (.unsupportedVersion version)

namespace Digest

variable (d : Digest)

/-- Splits a payload into the bytes before the digest and the digest, and verifies the digest when
asked to (`split_checksum`). -/
def splitTrailer (payload : List UInt8) (verify : Bool) :
    Except LoadError (List UInt8 × List UInt8) :=
  if payload.length < checksumLength then .error .truncated
  else
    let body := payload.take (payload.length - checksumLength)
    let checksum := payload.drop (payload.length - checksumLength)
    if verify && d.hash body ≠ checksum then .error .checksumMismatch
    else .ok (body, checksum)

/-- Reads the unit and the digest of a payload without looking at the code (`decode_with_checksum`).
The header is read before the digest is split off, so the two may overlap in a short payload; the
fields are read from what lies between them. -/
def readUnit (payload : List UInt8) (verify : Bool) :
    Except LoadError (CodeUnit × List UInt8) := do
  let _ ← readHeader payload
  let (body, checksum) ← d.splitTrailer payload verify
  let (_, fields) ← takeBytes (magic.length + 2) body
  let (unit, rest) ← readFields fields
  if rest ≠ [] then throw (.trailingBytes rest.length)
  return (unit, checksum)

/-- Reads the unit of a payload and checks its code. -/
def decode (payload : List UInt8) (verify : Bool) : Except LoadError CodeUnit := do
  let (unit, _) ← d.readUnit payload verify
  unit.check
  return unit

end Digest

/-- What a payload says about itself (`PayloadInfo`). -/
structure Summary where
  formatVersion : Nat
  name : String
  parameters : Nat
  constants : Nat
  codeLength : Nat
  checksum : List UInt8

/-- Summarizes a payload; neither its digest nor its code is checked. -/
def Digest.inspect (d : Digest) (payload : List UInt8) : Except LoadError Summary := do
  let (unit, checksum) ← d.readUnit payload false
  return {
    formatVersion
    name := unit.name
    parameters := unit.parameters.length
    constants := unit.constants.length
    codeLength := unit.code.length
    checksum }

/-- Reads a payload that was exchanged (`decode_unit`). -/
def decode (payload : List UInt8) (verify : Bool) : Except LoadError CodeUnit :=
  sha256.decode payload verify

def inspect (payload : List UInt8) : Except LoadError Summary := sha256.inspect payload

end ProtoVM.Payload
