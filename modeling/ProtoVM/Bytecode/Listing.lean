import ProtoVM.Bytecode.Code

/-!
# Listings

A listing shows code one instruction a line: the offset, the name and the operands. Any bytes can
be listed. An unknown byte has a line of its own, and where an operand is cut off by the end of
the code its bytes are listed as if they were instructions.
-/

namespace ProtoVM

/-- What a line of a listing shows. -/
inductive ListedItem where
  | known (op : Opcode) (operands : List Nat)
  | unknown (byte : UInt8)
deriving DecidableEq

/-- A line of a listing. -/
structure ListedLine where
  offset : Nat
  item : ListedItem
deriving DecidableEq

/-- A number in decimal with at least four digits. -/
def fourDigits (n : Nat) : String :=
  let digits := Nat.toDigits 10 n
  String.ofList (List.replicate (4 - digits.length) '0' ++ digits)

namespace ListedLine

def text (line : ListedLine) : String :=
  match line.item with
  | .known op operands =>
    String.intercalate " " (fourDigits line.offset :: op.mnemonic :: operands.map toString)
  | .unknown byte => s!"{fourDigits line.offset} <unknown {byte.toNat}>"

end ListedLine

namespace Code

/-- The operands of the given widths at the front of the code, as far as they are complete, and
the code after them. -/
def takeOperands : List Nat → Code → List Nat × Code
  | [], code => ([], code)
  | width :: widths, code =>
    let bytes := code.take width
    if bytes.length = width then
      let (operands, rest) := takeOperands widths (code.drop width)
      (ofBigEndian bytes :: operands, rest)
    else ([], code)

theorem length_takeOperands_le (widths : List Nat) (code : Code) :
    (takeOperands widths code).2.length ≤ code.length := by
  induction widths generalizing code with
  | nil => simp [takeOperands]
  | cons width widths ih =>
    simp only [takeOperands]
    split
    · have := ih (code.drop width)
      simp only [List.length_drop] at this
      simp only
      omega
    · simp

/-- The lines of a listing of code that starts at an offset. -/
def linesFrom (offset : Nat) : Code → List ListedLine
  | [] => []
  | byte :: rest =>
    match Opcode.ofByte? byte with
    | none => ⟨offset, .unknown byte⟩ :: linesFrom (offset + 1) rest
    | some op =>
      let shown := takeOperands op.operandWidths rest
      let size := 1 + (op.operandWidths.take shown.1.length).foldl (· + ·) 0
      ⟨offset, .known op shown.1⟩ :: linesFrom (offset + size) shown.2
termination_by code => code.length
decreasing_by
  · simp
  · have := length_takeOperands_le op.operandWidths rest
    simp only [List.length_cons]
    omega

/-- The listing of a piece of code, every line ended (`disassemble`). -/
def listing (code : Code) : String := String.join ((linesFrom 0 code).map (·.text ++ "\n"))

end Code

end ProtoVM
