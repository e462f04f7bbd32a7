import Mathlib
import ProtoVM.Bytecode.Listing
import ProtoVM.Proofs.Bytecode.BuiltUnits

/-!
# Listings of written code

Instructions are appended to a unit one after the other. A listing of the code shows each of them
again on a line of its own, at the offset that was answered, with its operands as far as their bytes
hold them; and whoever reads an operand in the code reads what the listing shows.
-/

namespace ProtoVM

open WholeInstruction

/-! ## Lines -/

/-- An opcode has no operand, or one that fills the rest of the instruction. -/
theorem Opcode.operandWidths_cases (op : Opcode) :
    op.operandWidths = [] ∨ op.operandWidths = [op.length - 1] := by
  cases op <;> simp [operandWidths, length]

namespace WholeInstruction

/-- The operands that a line shows. -/
def shown (i : WholeInstruction) : List Nat := i.op.operandWidths.map fun _ => i.operand

/-- The lines of instructions that follow each other from an offset. -/
def linesOf (offset : Nat) : List WholeInstruction → List ListedLine
  | [] => []
  | i :: is => ⟨offset, .known i.op i.shown⟩ :: linesOf (offset + i.op.length) is

/-- The operands of an instruction are taken from its bytes, and nothing of what follows. -/
theorem takeOperands_append (i : WholeInstruction) (rest : Code) :
    Code.takeOperands i.op.operandWidths (i.operands ++ rest) = (i.shown, rest) := by
  have complete := i.complete
  rcases i.op.operandWidths_cases with none | one
  · have empty : i.operands = [] := by
      rw [← List.length_eq_zero_iff, complete, Opcode.length, none]
      rfl
    simp [none, empty, Code.takeOperands, shown]
  · have taken : (i.operands ++ rest).take (i.op.length - 1) = i.operands :=
      List.take_left' complete
    have left : (i.operands ++ rest).drop (i.op.length - 1) = rest := List.drop_left' complete
    simp [one, Code.takeOperands, taken, left, complete, shown, operand]

/-- A whole instruction has a line, and the listing goes on behind it. -/
theorem linesFrom_bytes_append (i : WholeInstruction) (offset : Nat) (rest : Code) :
    Code.linesFrom offset (i.bytes ++ rest) =
      ⟨offset, .known i.op i.shown⟩ :: Code.linesFrom (offset + i.op.length) rest := by
  have all : i.op.operandWidths.take i.shown.length = i.op.operandWidths := by simp [shown]
  rw [bytes, List.cons_append, Code.linesFrom, Opcode.ofByte?_byte]
  simp only [takeOperands_append, all]
  rfl

theorem linesFrom_codeOf (is : List WholeInstruction) (offset : Nat) :
    Code.linesFrom offset (codeOf is) = linesOf offset is := by
  induction is generalizing offset with
  | nil => rw [codeOf, List.flatMap_nil, Code.linesFrom, linesOf]
  | cons i is ih => rw [codeOf_cons, linesFrom_bytes_append, ih, linesOf]

end WholeInstruction

/-! ## Printed numbers and names -/

theorem newline_not_mem_toDigits (n : Nat) : '\n' ∉ Nat.toDigits 10 n := by
  intro mem
  have digit := Nat.isDigit_of_mem_toDigits (by decide) (by decide) mem
  revert digit
  decide

theorem newline_not_mem_fourDigits (n : Nat) : '\n' ∉ (fourDigits n).toList := by
  rw [fourDigits, String.toList_ofList, List.mem_append]
  rintro (zeros | digits)
  · cases List.eq_of_mem_replicate zeros
  · exact newline_not_mem_toDigits n digits

theorem newline_not_mem_mnemonic (op : Opcode) : '\n' ∉ op.mnemonic.toList := by
  cases op <;> decide

/-! ## Given instructions -/

/-- An instruction as it is given to be written: an opcode with as many operands as it has. -/
structure GivenInstruction where
  op : Opcode
  operands : List Nat
  complete : operands.length = op.operandWidths.length

namespace GivenInstruction

/-- The operands as their bytes keep them. -/
def kept (i : GivenInstruction) : List Nat :=
  i.op.operandWidths.zipWith (fun width n => n % 2 ^ (8 * width)) i.operands

/-- Instructions written one after the other. -/
def written (is : List GivenInstruction) : Code :=
  is.flatMap fun i => Code.instruction i.op i.operands

/-- The bytes that some instructions take. -/
def room (is : List GivenInstruction) : Nat := (is.map (·.op.length)).sum

/-- What stands on the line of an instruction. -/
def row (offset : Nat) (i : GivenInstruction) : String :=
  fourDigits offset ++ " " ++ i.op.mnemonic ++ String.join (i.kept.map fun n => " " ++ toString n)

/-- The rows of instructions that follow each other from an offset. -/
def rows (offset : Nat) : List GivenInstruction → List String
  | [] => []
  | i :: is => i.row offset :: rows (offset + i.op.length) is

/-- The instruction that is written. -/
def whole (i : GivenInstruction) : WholeInstruction := Emission.instruction ⟨0, i.op, i.operands⟩

variable (i : GivenInstruction) (is js : List GivenInstruction)

theorem bytes_whole : Code.instruction i.op i.operands = i.whole.bytes :=
  Emission.bytes_instruction (e := ⟨0, i.op, i.operands⟩) i.complete

theorem written_eq : written is = codeOf (is.map whole) := by
  simp [written, codeOf, List.flatMap_map, bytes_whole]

theorem written_append : written (is ++ js) = written is ++ written js := List.flatMap_append

theorem room_append : room (is ++ js) = room is + room js := by simp [room]

theorem length_written : (written is).length = room is := by
  induction is with
  | nil => rfl
  | cons i is ih =>
    have first : (written [i]).length = i.op.length := by
      simp [written, bytes_whole, length_bytes]
      rfl
    rw [← List.singleton_append, written_append, List.length_append, first, ih, room_append]
    simp [room]

/-- A line shows the operands that the bytes keep. -/
theorem shown_whole : i.whole.shown = i.kept := by
  have complete := i.complete
  rw [WholeInstruction.shown, kept]
  show i.op.operandWidths.map _ = _
  rcases i.op.operandWidths_cases with none | one
  · rw [none]
    rfl
  · rw [one] at complete
    obtain ⟨n, operands⟩ := List.length_eq_one_iff.mp complete
    have bytes : (2 : Nat) ^ (8 * (i.op.length - 1)) = 256 ^ (i.op.length - 1) := by
      rw [Nat.pow_mul]
    simp [one, operands, whole, WholeInstruction.operand, Emission.instruction,
      Code.ofBigEndian_bigEndian, bytes]

/-! ## Rows -/

theorem intercalate_cons (first : String) (rest : List String) :
    String.intercalate " " (first :: rest) = first ++ String.join (rest.map (" " ++ ·)) := by
  induction rest generalizing first with
  | nil => simp [String.join_eq_foldl]
  | cons next rest ih =>
    rw [String.intercalate_cons_cons, ih, List.map_cons, String.join_cons]
    simp only [String.append_assoc]

theorem text_line (offset : Nat) :
    (⟨offset, .known i.op i.kept⟩ : ListedLine).text = i.row offset := by
  rw [ListedLine.text, row]
  dsimp only
  rw [intercalate_cons, List.map_cons, String.join_cons, List.map_map]
  simp only [String.append_assoc]
  rfl

/-- The lines of the instructions are the rows. -/
theorem text_linesOf (offset : Nat) :
    (linesOf offset (is.map whole)).map (·.text) = rows offset is := by
  induction is generalizing offset with
  | nil => rfl
  | cons i is ih =>
    have first : (⟨offset, .known i.op i.whole.shown⟩ : ListedLine).text = i.row offset := by
      rw [shown_whole, text_line]
    rw [List.map_cons, linesOf, List.map_cons, rows]
    exact congrArg₂ List.cons first (ih _)

/-- A row is one line. -/
theorem newline_not_mem_row (offset : Nat) : '\n' ∉ (i.row offset).toList := by
  simp [row, newline_not_mem_fourDigits, newline_not_mem_mnemonic, newline_not_mem_toDigits,
    String.toList_join]

theorem newline_not_mem_of_mem_rows (offset : Nat) : ∀ row ∈ rows offset is, '\n' ∉ row.toList := by
  induction is generalizing offset with
  | nil => simp [rows]
  | cons i is ih =>
    intro row mem
    rcases List.mem_cons.mp mem with rfl | later
    · exact i.newline_not_mem_row offset
    · exact ih _ row later

theorem length_rows (offset : Nat) : (rows offset is).length = is.length := by
  induction is generalizing offset with
  | nil => rfl
  | cons i is ih => rw [rows, List.length_cons, List.length_cons, ih]

end GivenInstruction

namespace WholeInstruction

/-- The line of an instruction stands behind those of the instructions before it. -/
theorem getElem?_linesOf (before : List WholeInstruction) (i : WholeInstruction)
    (after : List WholeInstruction) (offset : Nat) :
    (linesOf offset (before ++ i :: after))[before.length]? =
      some ⟨offset + (codeOf before).length, .known i.op i.shown⟩ := by
  induction before generalizing offset with
  | nil => rfl
  | cons first before ih =>
    rw [List.cons_append, linesOf, List.length_cons, List.getElem?_cons_succ, ih,
      length_codeOf_cons, Nat.add_assoc]

/-- The operand of an instruction is read where it stands in the code. -/
theorem operandAt?_codeOf (before : List WholeInstruction) (i : WholeInstruction)
    (after : List WholeInstruction) :
    Code.operandAt? (codeOf (before ++ i :: after)) ((codeOf before).length + 1)
      (i.op.length - 1) = some i.operand := by
  have bytes : ((codeOf (before ++ i :: after)).drop ((codeOf before).length + 1)).take
      (i.op.length - 1) = i.operands := by
    rw [Build.codeOf_append, codeOf_cons, ← List.drop_drop, List.drop_left]
    exact List.take_left' i.complete
  rw [Code.operandAt?, bytes, if_pos i.complete, operand]

end WholeInstruction

/-! ## Appended instructions -/

open GivenInstruction

namespace CodeUnit

/-- Appends instructions one after the other. -/
def emitAll (u : CodeUnit) (is : List GivenInstruction) : CodeUnit :=
  is.foldl (fun u i => (u.emit i.op i.operands).1) u

theorem emitAll_eq (u : CodeUnit) (is : List GivenInstruction) :
    u.emitAll is = { u with code := u.code ++ written is } := by
  induction is generalizing u with
  | nil => simp [emitAll, written]
  | cons i is ih =>
    rw [emitAll, List.foldl_cons, ← emitAll, ih]
    simp [emit, append, written]

/-- Where an instruction is found that was appended to a unit behind others, in code that has more
behind it. -/
structure FindsAgain (u : CodeUnit) (before : List GivenInstruction) (i : GivenInstruction)
    (code : Code) : Prop where
  /-- It was answered that the instruction stands behind all bytes of those before it. -/
  answered : ((u.emitAll before).emit i.op i.operands).2 = room before
  line : (Code.linesFrom 0 code)[before.length]? = some ⟨room before, .known i.op i.kept⟩
  read : ∀ width n, i.op.operandWidths = [width] → i.operands = [n] →
    i.kept = [n % 2 ^ (8 * width)] ∧
    code.operandAt? (room before + 1) width = some (n % 2 ^ (8 * width))
  /-- An operand that fits its bytes is kept whole. -/
  fits : ∀ width n, i.op.operandWidths = [width] → i.operands = [n] → n < 2 ^ (8 * width) →
    i.kept = [n] ∧ code.operandAt? (room before + 1) width = some n

theorem findsAgain_written (u : CodeUnit) (before : List GivenInstruction) (i : GivenInstruction)
    (after : List GivenInstruction) :
    { u with code := [] }.FindsAgain before i (written (before ++ i :: after)) := by
  have room_eq : (codeOf (before.map whole)).length = room before := by
    rw [← written_eq, length_written]
  have code : written (before ++ i :: after) =
      codeOf (before.map whole ++ i.whole :: after.map whole) := by
    rw [written_eq, List.map_append, List.map_cons]
  have read (width n : Nat) (widths : i.op.operandWidths = [width]) (operands : i.operands = [n]) :
      i.kept = [n % 2 ^ (8 * width)] ∧
      Code.operandAt? (written (before ++ i :: after)) (room before + 1) width =
        some (n % 2 ^ (8 * width)) := by
    have kept : i.kept = [n % 2 ^ (8 * width)] := by simp [GivenInstruction.kept, widths, operands]
    have rest : width = i.whole.op.length - 1 :=
      width_of_mem_operandWidths (widths ▸ List.mem_singleton_self width)
    have operand : [i.whole.operand] = [n % 2 ^ (8 * width)] := by
      rw [← kept, ← shown_whole, shown]
      exact (congrArg (List.map fun _ => i.whole.operand) widths).symm
    refine ⟨kept, ?_⟩
    rw [code, ← room_eq, rest, operandAt?_codeOf, List.singleton_inj.mp operand, ← rest]
  constructor
  case answered =>
    rw [emitAll_eq, emit]
    exact length_written before
  case line =>
    have place := getElem?_linesOf (before.map whole) i.whole (after.map whole) 0
    rw [List.length_map, room_eq, Nat.zero_add, shown_whole] at place
    rw [code, linesFrom_codeOf, place]
    rfl
  case read => exact read
  case fits =>
    intro width n widths operands small
    have same := read width n widths operands
    rwa [Nat.mod_eq_of_lt small] at same

/-- Instructions are appended to a unit that has no code. The listing of the code shows one row for
each of them, in order, and every instruction is found again at the offset that was answered. -/
theorem lists_emitAll (u : CodeUnit) (is : List GivenInstruction) :
    let code := ({ u with code := [] }.emitAll is).code
    code = written is ∧
    code.listing = String.join ((rows 0 is).map (· ++ "\n")) ∧
    (rows 0 is).length = is.length ∧ (∀ row ∈ rows 0 is, '\n' ∉ row.toList) ∧
    ∀ before i after, is = before ++ i :: after →
      (rows 0 is)[before.length]? = some (i.row (room before)) ∧
      { u with code := [] }.FindsAgain before i code := by
  intro code
  have same : code = written is := by
    rw [show code = _ from congrArg CodeUnit.code (emitAll_eq _ is)]
    exact List.nil_append _
  have lines : Code.linesFrom 0 code = linesOf 0 (is.map whole) := by
    rw [same, written_eq, linesFrom_codeOf]
  refine ⟨same, ?_, length_rows is 0, newline_not_mem_of_mem_rows is 0, ?_⟩
  · rw [Code.listing, lines, ← text_linesOf, List.map_map]
    rfl
  · rintro before i after rfl
    have found := u.findsAgain_written before i after
    rw [← same] at found
    refine ⟨?_, found⟩
    rw [← text_linesOf, ← lines, List.getElem?_map, found.line, Option.map_some, text_line]

/-- An operand of three bytes loses the first one. -/
example : ((empty "f" []).emitAll [⟨.constant, [65537], rfl⟩, ⟨.call, [2], rfl⟩,
    ⟨.ret, [], rfl⟩]).code.listing = "0000 OpConstant 1\n0003 OpCall 2\n0005 OpReturn\n" := by
  cbv

end CodeUnit

end ProtoVM
