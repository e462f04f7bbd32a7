import Mathlib
import ProtoVM.Proofs.Bytecode.Listings

/-!
# Offsets of a listing

Any bytes can be listed, also those that are no instructions. A listing reads the code line by line,
each line where the one before it ends, and no read is outside the code. The lines show every byte
once, and each of them is printed with the offset at which it was read.
-/

namespace ProtoVM

/-! ## Lines read by offset -/

namespace Code

/-- Reads operands of the given widths one behind the other, up to the first for which the code has
no room. Answers them with the offset where they end, and nothing if a read is outside the code. -/
def readOperands? (code : Code) (offset : Nat) : (widths : List Nat) → Option (List Nat × Nat)
  | [] => some ([], offset)
  | width :: widths =>
    if code.length < offset + width then some ([], offset)
    else
      match code.operandAt? offset width, code.readOperands? (offset + width) widths with
      | some operand, some (operands, next) => some (operand :: operands, next)
      | _, _ => none

/-- Reads the line at an offset. Answers it with the offset where it ends, and nothing if a read is
outside the code. -/
def readLine? (code : Code) (offset : Nat) : Option (ListedLine × Nat) :=
  match code[offset]? with
  | none => none
  | some byte =>
    match Opcode.ofByte? byte with
    | none => some (⟨offset, .unknown byte⟩, offset + 1)
    | some op =>
      (code.readOperands? (offset + 1) op.operandWidths).map fun (operands, next) =>
        (⟨offset, .known op operands⟩, next)

/-- The lines are read one behind the other from an offset up to the end of the code. -/
inductive ReadsLines (code : Code) : Nat → List ListedLine → Prop where
  | ended : ReadsLines code code.length []
  | line {offset next : Nat} {line : ListedLine} {lines : List ListedLine}
    (read : code.readLine? offset = some (line, next)) (later : ReadsLines code next lines) :
    ReadsLines code offset (line :: lines)

end Code

namespace ListedLine

/-- The bytes that a line shows: the opcode, and the operands that are printed. -/
def size (line : ListedLine) : Nat :=
  match line.item with
  | .known op operands => 1 + (op.operandWidths.take operands.length).sum
  | .unknown _ => 1

/-- The line shows the byte at an offset. -/
def Covers (line : ListedLine) (k : Nat) : Prop := line.offset ≤ k ∧ k < line.offset + line.size

/-- The number that a text starts with. -/
def leadingNumber (text : String) : Nat :=
  Nat.ofDigitChars 10 (text.toList.takeWhile Char.isDigit) 0

/-- The lines stand one behind the other between two offsets. -/
def Tile (start : Nat) : (lines : List ListedLine) → (stop : Nat) → Prop
  | [], stop => start = stop
  | line :: lines, stop => line.offset = start ∧ Tile (start + line.size) lines stop

theorem size_pos (line : ListedLine) : 0 < line.size := by
  cases h : line.item with
  | known op operands =>
    rw [size, h]
    dsimp only
    omega
  | unknown byte => simp [size, h]

end ListedLine

open ListedLine

namespace Code

variable {code : Code}

/-- The operands at the front of the code are those that are read by offset. -/
theorem readOperands?_eq (widths : List Nat) {offset : Nat} (inside : offset ≤ code.length) :
    ∃ operands next, takeOperands widths (code.drop offset) = (operands, code.drop next) ∧
      code.readOperands? offset widths = some (operands, next) ∧ next ≤ code.length ∧
      next = offset + (widths.take operands.length).sum := by
  induction widths generalizing offset with
  | nil => exact ⟨[], offset, rfl, rfl, inside, rfl⟩
  | cons width widths ih =>
    have taken : ((code.drop offset).take width).length = width ↔
        ¬ code.length < offset + width := by
      rw [List.length_take, List.length_drop]
      omega
    by_cases short : code.length < offset + width
    · refine ⟨[], offset, ?_, ?_, inside, rfl⟩
      · rw [takeOperands, if_neg fun complete => taken.mp complete short]
      · rw [readOperands?, if_pos short]
    · obtain ⟨operands, next, later, read, stop, ends⟩ := ih (Nat.le_of_not_lt short)
      refine ⟨ofBigEndian ((code.drop offset).take width) :: operands, next, ?_, ?_, stop, ?_⟩
      · rw [takeOperands, if_pos (taken.mpr short), List.drop_drop, later]
      · rw [readOperands?, if_neg short, operandAt?, if_pos (taken.mpr short), read]
      · rw [ends, List.length_cons, List.take_succ_cons, List.sum_cons, Nat.add_assoc]

theorem getElem?_of_drop {offset : Nat} {byte : UInt8} {rest : Code}
    (here : byte :: rest = code.drop offset) : code[offset]? = some byte := by
  rw [← Nat.add_zero offset, ← List.getElem?_drop, ← here]
  rfl

/-- The lines of the code behind an offset are those that are read from there. -/
theorem readsLines_linesFrom (offset : Nat) (rest : Code) (here : rest = code.drop offset)
    (inside : offset ≤ code.length) : code.ReadsLines offset (linesFrom offset rest) := by
  -- on the code that is left, as the listing takes it
  fun_induction linesFrom offset rest with
  | case1 offset =>
    have ended : offset = code.length := by
      have := List.drop_eq_nil_iff.mp here.symm
      omega
    rw [ended]
    exact .ended
  | case2 offset byte rest unknown ih =>
    have first := getElem?_of_drop here
    have start := (List.getElem?_eq_some_iff.mp first).1
    refine .line ?_ (ih (drop_next .undefined here).1 start)
    simp only [readLine?, first, unknown]
  | case3 offset byte rest op known shown size ih =>
    have first := getElem?_of_drop here
    have start : offset + 1 ≤ code.length := (List.getElem?_eq_some_iff.mp first).1
    obtain ⟨operands, next, taken, read, stop, ends⟩ :=
      code.readOperands?_eq op.operandWidths start
    rw [← (drop_next op here).1] at taken
    have shown_eq : shown = (operands, code.drop next) := taken
    have next_eq : offset + size = next := by
      rw [ends, Nat.add_assoc, List.sum_eq_foldl]
      simp only [size, shown_eq]
    rw [shown_eq, next_eq] at ih
    rw [shown_eq, next_eq]
    refine .line ?_ (ih rfl stop)
    simp only [readLine?, first, known, read, Option.map_some]

/-- Where a line was read, and where it ends. -/
theorem ends_of_readLine? {offset next : Nat} {line : ListedLine}
    (read : code.readLine? offset = some (line, next)) :
    line.offset = offset ∧ next = offset + line.size ∧ next ≤ code.length := by
  rw [readLine?] at read
  cases first : code[offset]? with
  | none => simp only [first, reduceCtorEq] at read
  | some byte =>
    have start : offset + 1 ≤ code.length := (List.getElem?_eq_some_iff.mp first).1
    cases known : Opcode.ofByte? byte with
    | none =>
      simp only [first, known, Option.some.injEq, Prod.mk.injEq] at read
      obtain ⟨rfl, rfl⟩ := read
      exact ⟨rfl, rfl, start⟩
    | some op =>
      obtain ⟨operands, stop, -, reads, inside, ends⟩ :=
        code.readOperands?_eq op.operandWidths start
      simp only [first, known, reads, Option.map_some, Option.some.injEq, Prod.mk.injEq] at read
      obtain ⟨rfl, rfl⟩ := read
      exact ⟨rfl, by rw [ends, Nat.add_assoc]; rfl, inside⟩

theorem tile_of_readsLines {offset : Nat} {lines : List ListedLine}
    (reads : code.ReadsLines offset lines) : Tile offset lines code.length := by
  induction reads with
  | ended => rfl
  | line read later ih =>
    obtain ⟨start, stop, -⟩ := ends_of_readLine? read
    refine ⟨start, ?_⟩
    rw [← stop]
    exact ih

end Code

/-! ## Lines one behind the other -/

namespace ListedLine

variable {start stop : Nat} {lines : List ListedLine}

theorem Tile.le (tile : Tile start lines stop) : start ≤ stop := by
  induction lines generalizing start with
  | nil => exact Nat.le_of_eq tile
  | cons line lines ih =>
    have := ih tile.2
    omega

/-- A line stands between the two offsets. -/
theorem Tile.within (tile : Tile start lines stop) :
    ∀ line ∈ lines, start ≤ line.offset ∧ line.offset + line.size ≤ stop := by
  induction lines generalizing start with
  | nil => simp
  | cons first lines ih =>
    obtain ⟨rfl, later⟩ := tile
    intro line mem
    rcases List.mem_cons.mp mem with rfl | mem
    · exact ⟨Nat.le_refl _, later.le⟩
    · obtain ⟨from_le, to_le⟩ := ih later line mem
      exact ⟨by omega, to_le⟩

/-- A line ends before all that come after it. -/
theorem Tile.pairwise (tile : Tile start lines stop) :
    lines.Pairwise fun a b => a.offset + a.size ≤ b.offset := by
  induction lines generalizing start with
  | nil => exact .nil
  | cons line lines ih =>
    obtain ⟨rfl, later⟩ := tile
    exact .cons (fun b mem => (later.within b mem).1) (ih later)

theorem Tile.isChain (tile : Tile start lines stop) :
    lines.IsChain fun a b => b.offset = a.offset + a.size := by
  induction lines generalizing start with
  | nil => exact .nil
  | cons line lines ih =>
    obtain ⟨rfl, later⟩ := tile
    cases lines with
    | nil => exact .singleton _
    | cons next lines => exact .cons_cons later.1 (ih later)

theorem Tile.exists_covers (tile : Tile start lines stop) {k : Nat} (from_le : start ≤ k)
    (lt : k < stop) : ∃ line ∈ lines, line.Covers k := by
  induction lines generalizing start with
  | nil =>
    have : start = stop := tile
    omega
  | cons line lines ih =>
    obtain ⟨rfl, later⟩ := tile
    by_cases here : k < line.offset + line.size
    · exact ⟨line, List.mem_cons_self, from_le, here⟩
    · obtain ⟨found, mem, covers⟩ := ih later (Nat.le_of_not_lt here)
      exact ⟨found, List.mem_cons_of_mem _ mem, covers⟩

/-- A byte is on one line only. -/
theorem Tile.eq_of_covers (tile : Tile start lines stop) {a b : ListedLine} (ha : a ∈ lines)
    (hb : b ∈ lines) {k : Nat} (onA : a.Covers k) (onB : b.Covers k) : a = b := by
  obtain ⟨a_le, lt_a⟩ := onA
  obtain ⟨b_le, lt_b⟩ := onB
  induction lines generalizing start with
  | nil => cases ha
  | cons line lines ih =>
    obtain ⟨rfl, later⟩ := tile
    rcases List.mem_cons.mp ha with rfl | afterA <;> rcases List.mem_cons.mp hb with rfl | afterB
    · rfl
    · have := (later.within b afterB).1
      omega
    · have := (later.within a afterA).1
      omega
    · exact ih later afterA afterB

end ListedLine

/-! ## Printed lines -/

theorem isDigit_of_mem_fourDigits {n : Nat} {c : Char} (mem : c ∈ (fourDigits n).toList) :
    c.isDigit := by
  rw [fourDigits, String.toList_ofList, List.mem_append] at mem
  rcases mem with zeros | digits
  · rw [List.eq_of_mem_replicate zeros]
    rfl
  · exact Nat.isDigit_of_mem_toDigits (by decide) (by decide) digits

/-- Zeros in front do not change a number. -/
theorem ofDigitChars_fourDigits (n : Nat) : Nat.ofDigitChars 10 (fourDigits n).toList 0 = n := by
  rw [fourDigits, String.toList_ofList, Nat.ofDigitChars_append, Nat.ofDigitChars_replicate_zero]
  exact Nat.ofDigitChars_toDigits (by decide) (by decide)

namespace ListedLine

/-- Behind its offset a line has no line break. -/
theorem exists_text_eq (line : ListedLine) :
    ∃ shown, line.text = fourDigits line.offset ++ " " ++ shown ∧ '\n' ∉ shown.toList := by
  cases h : line.item with
  | known op operands =>
    refine ⟨op.mnemonic ++ String.join (operands.map fun n => " " ++ toString n), ?_, ?_⟩
    · rw [text, h]
      dsimp only
      rw [GivenInstruction.intercalate_cons, List.map_cons, String.join_cons, List.map_map]
      simp only [String.append_assoc]
      rfl
    · simp [newline_not_mem_mnemonic, newline_not_mem_toDigits, String.toList_join]
  | unknown byte =>
    refine ⟨"<unknown " ++ toString byte.toNat ++ ">", ?_, ?_⟩
    · have blank : " <unknown " = " " ++ "<unknown " := rfl
      rw [text, h]
      simp only [toString, String.append_assoc, blank]
    · simp [newline_not_mem_toDigits]

/-- A line is printed without a line break. -/
theorem newline_not_mem_text (line : ListedLine) : '\n' ∉ line.text.toList := by
  obtain ⟨shown, text, unbroken⟩ := line.exists_text_eq
  simp [text, unbroken, newline_not_mem_fourDigits]

/-- A line starts with its offset. -/
theorem leadingNumber_text (line : ListedLine) : leadingNumber line.text = line.offset := by
  obtain ⟨shown, text, -⟩ := line.exists_text_eq
  have digits : line.text.toList.takeWhile Char.isDigit = (fourDigits line.offset).toList := by
    rw [text, String.append_assoc, String.toList_append,
      List.takeWhile_append_of_pos fun c mem => isDigit_of_mem_fourDigits mem]
    simp
  rw [leadingNumber, digits, ofDigitChars_fourDigits]

end ListedLine

namespace Code

/-- How a listing goes with the code that it lists. -/
structure Listed (code : Code) (lines : List ListedLine) : Prop where
  /-- The lines are read off the code, and every read is inside it. -/
  read : code.ReadsLines 0 lines
  printed : code.listing = String.join (lines.map (·.text ++ "\n"))
  /-- Every line is printed on a line of its own, with its offset in front. -/
  broken : ∀ line ∈ lines, '\n' ∉ line.text.toList
  shown : ∀ line ∈ lines, leadingNumber line.text = line.offset
  first : ∀ line, lines.head? = some line → line.offset = 0
  increasing : lines.Pairwise fun a b => a.offset < b.offset
  /-- A line starts where the opcode and the printed operands of the one before it end. -/
  next : lines.IsChain fun a b => b.offset = a.offset + a.size
  within : ∀ line ∈ lines, line.offset + line.size ≤ code.length
  covered : ∀ k < code.length, ∃! line, line ∈ lines ∧ line.Covers k

theorem listed (code : Code) : code.Listed (linesFrom 0 code) := by
  have reads := readsLines_linesFrom 0 code rfl (Nat.zero_le code.length)
  have tile := tile_of_readsLines reads
  constructor
  case read => exact reads
  case printed => rfl
  case broken => exact fun line _ => line.newline_not_mem_text
  case shown => exact fun line _ => line.leadingNumber_text
  case first =>
    intro line head
    obtain ⟨later, lines⟩ := List.head?_eq_some_iff.mp head
    rw [lines] at tile
    exact tile.1
  case increasing =>
    refine tile.pairwise.imp fun {a b} ends => ?_
    have := a.size_pos
    omega
  case next => exact tile.isChain
  case within => exact fun line mem => (tile.within line mem).2
  case covered =>
    intro k lt
    obtain ⟨line, mem, covers⟩ := tile.exists_covers (Nat.zero_le k) lt
    exact ⟨line, ⟨mem, covers⟩, fun other found => tile.eq_of_covers found.1 mem found.2 covers⟩

/-- An operand that is cut off is listed byte by byte. -/
example : listing [0, 13, 200, 0, 11] =
    "0000 OpConstant 3528\n0003 OpConstant\n0004 OpPop\n" := by
  cbv

end Code

end ProtoVM
