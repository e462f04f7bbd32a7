import ProtoVM.Bytecode.Opcode

/-!
# Code bytes

Code is a list of bytes. Operands are big-endian; writing keeps the low bytes of an operand, and
reading answers `none` where the code is too short.
-/

namespace ProtoVM

/-- The instructions of a unit as bytes. -/
abbrev Code := List UInt8

namespace Code

/-- The low `width` bytes of a number, most significant first. -/
def bigEndian : (width : Nat) → (value : Nat) → List UInt8
  | 0, _ => []
  | width + 1, value => UInt8.ofNat (value >>> (8 * width)) :: bigEndian width value

@[simp] theorem length_bigEndian (width value : Nat) : (bigEndian width value).length = width := by
  induction width with
  | zero => rfl
  | succ width ih => simp [bigEndian, ih]

/-- The number whose bytes, most significant first, are given. -/
def ofBigEndian (bytes : List UInt8) : Nat := bytes.foldl (fun n b => n * 256 + b.toNat) 0

/-- The number of `width` bytes at an offset (`read_u8`, `read_u16`). -/
def operandAt? (code : Code) (offset width : Nat) : Option Nat :=
  let bytes := (code.drop offset).take width
  if bytes.length = width then some (ofBigEndian bytes) else none

/-- One instruction (`make`). Operands past the widths of the opcode are left out. -/
def instruction (op : Opcode) (operands : List Nat) : Code :=
  op.byte :: (op.operandWidths.zip operands).flatMap fun (width, value) => bigEndian width value

end Code

end ProtoVM
