import ProtoVM.Bytecode.WellFormed
import ProtoVM.Proofs.Bytecode.Walks

/-!
# Checked code

What the code check says about a unit that it accepts. The walk of the check finds the starts of
the instructions; at each of them stands a complete instruction whose operand is in range, and what
follows it, or what it jumps to, is another start or the end of the code.
-/

namespace ProtoVM

/-- Code of the given length can go on at the offset: an instruction starts there, or it ends. -/
def CodeMap.Boundary (map : CodeMap) (length offset : Nat) : Prop :=
  offset = length ∨ offset ∈ map.starts

namespace CodeUnit

/-- The instruction that starts at an offset of checked code, with its opcode and its operand (zero
when there is none). -/
structure Instruction (u : CodeUnit) (map : CodeMap) (offset : Nat) (op : Opcode) (operand : Nat) :
    Prop where
  opcode : u.code[offset]?.bind Opcode.ofByte? = some op
  reads : u.code.operandAt? (offset + 1) (op.length - 1) = some operand
  sound : u.operandFault? op operand = none
  next : map.Boundary u.code.length (offset + op.length)
  jump : op.isJump → ⟨offset, operand⟩ ∈ map.jumps

/-- Facts about a part of the map are facts about the map. -/
theorem Instruction.mono {u : CodeUnit} {part map : CodeMap} {offset : Nat} {op : Opcode}
    {operand : Nat} (starts : part.starts ⊆ map.starts) (jumps : part.jumps ⊆ map.jumps)
    (h : u.Instruction part offset op operand) : u.Instruction map offset op operand where
  opcode := h.opcode
  reads := h.reads
  sound := h.sound
  next := h.next.imp_right fun mem => starts mem
  jump := fun isJump => jumps (h.jump isJump)

/-- What the walk has seen when it passes an instruction. -/
theorem mapFrom_cons {u : CodeUnit} {offset : Nat} {byte : UInt8} {rest : Code} {map : CodeMap}
    (walk : u.mapFrom offset (byte :: rest) = .ok map) :
    ∃ op later, Opcode.ofByte? byte = some op ∧ op.length - 1 ≤ rest.length ∧
      u.operandFault? op (Code.ofBigEndian (rest.take (op.length - 1))) = none ∧
      u.mapFrom (offset + op.length) (rest.drop (op.length - 1)) = .ok later ∧
      map.starts = offset :: later.starts ∧ later.jumps ⊆ map.jumps ∧
      (op.isJump → ⟨offset, Code.ofBigEndian (rest.take (op.length - 1))⟩ ∈ map.jumps) := by
  rw [mapFrom] at walk
  cases found : Opcode.ofByte? byte with
  | none => simp only [found, reduceCtorEq] at walk
  | some op =>
    by_cases short : (rest.take (op.length - 1)).length < op.length - 1
    · simp only [found, if_pos short, reduceCtorEq] at walk
    · cases fault : u.operandFault? op (Code.ofBigEndian (rest.take (op.length - 1))) with
      | some f => simp only [found, if_neg short, fault, reduceCtorEq] at walk
      | none =>
        cases later : u.mapFrom (offset + op.length) (rest.drop (op.length - 1)) with
        | error e => simp only [found, if_neg short, fault, later, reduceCtorEq] at walk
        | ok part =>
          simp only [found, if_neg short, fault, later, Except.ok.injEq] at walk
          subst walk
          refine ⟨op, part, rfl, ?_, fault, later, rfl, ?_, ?_⟩
          · rw [List.length_take] at short
            omega
          · intro jump hj
            by_cases isJump : op.isJump
            · rw [if_pos isJump]
              exact List.mem_cons_of_mem _ hj
            · rwa [if_neg isJump]
          · intro isJump
            rw [if_pos isJump]
            exact List.mem_cons_self

/-- Where the walk begins, it finds a start, unless the code is at its end. -/
theorem boundary_of_mapFrom {u : CodeUnit} {offset : Nat} {map : CodeMap}
    (inside : offset ≤ u.code.length) (walk : u.mapFrom offset (u.code.drop offset) = .ok map) :
    map.Boundary u.code.length offset := by
  cases rest : u.code.drop offset with
  | nil =>
    left
    have := List.drop_eq_nil_iff.mp rest
    omega
  | cons byte later =>
    right
    rw [rest] at walk
    obtain ⟨op, part, -, -, -, -, starts, -, -⟩ := mapFrom_cons walk
    rw [starts]
    exact List.mem_cons_self

theorem instruction_of_mem_starts {u : CodeUnit} :
    ∀ (rest : Code) {offset : Nat} {map : CodeMap}, rest = u.code.drop offset →
      u.mapFrom offset rest = .ok map →
      ∀ s ∈ map.starts, ∃ op operand, u.Instruction map s op operand := by
  intro rest
  -- on the code that is left, since each instruction takes at least its opcode
  induction h : rest.length using Nat.strongRecOn generalizing rest with
  | ind n ih =>
    intro offset map here walk s hs
    cases rest with
    | nil =>
      rw [mapFrom] at walk
      cases walk
      cases hs
    | cons byte after =>
      obtain ⟨op, later, opcode, complete, sound, walkLater, starts, jumps, jump⟩ :=
        mapFrom_cons walk
      have length := op.length_pos
      obtain ⟨hafter, hlater⟩ := Code.drop_next op here
      have hsize : u.code.length - offset = after.length + 1 := by
        rw [← List.length_drop, ← here]
        rfl
      rw [starts] at hs
      rcases List.mem_cons.mp hs with rfl | hs
      · refine ⟨op, Code.ofBigEndian (after.take (op.length - 1)), ?_, ?_, sound, ?_, jump⟩
        · have first : u.code[s]? = some byte := by
            rw [← Nat.add_zero s, ← List.getElem?_drop, ← here]
            rfl
          rw [first]
          exact opcode
        · rw [Code.operandAt?, ← hafter]
          exact if_pos (by rw [List.length_take]; omega)
        · rw [hlater] at walkLater
          have := boundary_of_mapFrom (by omega) walkLater
          exact this.imp_right fun mem => by rw [starts]; exact List.mem_cons_of_mem _ mem
      · have shorter : (after.drop (op.length - 1)).length < n := by
          rw [← h, List.length_drop, List.length_cons]
          omega
        obtain ⟨op', operand, instruction⟩ := ih _ shorter _ rfl hlater walkLater s hs
        refine ⟨op', operand, instruction.mono ?_ jumps⟩
        rw [starts]
        exact List.subset_cons_self _ _

theorem badJump?_eq_none_iff {map : CodeMap} {length : Nat} :
    badJump? map length = none ↔ ∀ jump ∈ map.jumps, map.Boundary length jump.target := by
  rw [badJump?, List.find?_eq_none]
  simp [CodeMap.Boundary, Classical.or_iff_not_imp_left]

/-- A unit is accepted exactly when the walk succeeds and every jump lands on a boundary. -/
theorem check_eq_ok_iff {u : CodeUnit} :
    u.check = .ok () ↔ ∃ map, u.mapFrom 0 u.code = .ok map ∧
      ∀ jump ∈ map.jumps, map.Boundary u.code.length jump.target := by
  rw [check]
  cases walk : u.mapFrom 0 u.code with
  | error e => simp
  | ok map =>
    have landed := @badJump?_eq_none_iff map u.code.length
    cases bad : badJump? map u.code.length with
    | some jump =>
      rw [bad] at landed
      simpa [bad] using landed
    | none =>
      rw [bad] at landed
      simpa [bad] using landed

/-- The reads of the instruction at an offset are inside the code and inside the pool, and where
it needs a name it finds a string. -/
def ReadsInRange (u : CodeUnit) (offset : Nat) : Prop :=
  ∃ op, u.code[offset]?.bind Opcode.ofByte? = some op ∧
    ∀ width ∈ op.operandWidths, ∃ operand, u.code.operandAt? (offset + 1) width = some operand ∧
      (op = .constant → operand < u.constants.length) ∧
      (op.isNaming → ∃ s, u.stringAt? operand = some s)

/-- An opcode has at most one operand, which fills the rest of the instruction. -/
theorem width_of_mem_operandWidths {op : Opcode} {width : Nat} (h : width ∈ op.operandWidths) :
    width = op.length - 1 := by
  cases op <;> simp_all [Opcode.operandWidths, Opcode.length]

theorem constant_lt_of_sound {u : CodeUnit} {operand : Nat}
    (sound : u.operandFault? .constant operand = none) : operand < u.constants.length := by
  by_cases inPool : operand < u.constants.length
  · exact inPool
  · simp [operandFault?, inPool] at sound

theorem stringAt?_of_sound {u : CodeUnit} {op : Opcode} {operand : Nat} (naming : op.isNaming)
    (sound : u.operandFault? op operand = none) : ∃ s, u.stringAt? operand = some s := by
  have notConstant : op ≠ .constant := by
    rintro rfl
    cases naming
  simp only [operandFault?, if_neg notConstant, if_pos naming] at sound
  cases found : u.constants[operand]? with
  | none => simp [found] at sound
  | some c =>
    cases c with
    | str s => exact ⟨s, by simp [stringAt?, found, Constant.asString?]⟩
    | _ => simp [found] at sound

theorem Instruction.readsInRange {u : CodeUnit} {map : CodeMap} {offset : Nat} {op : Opcode}
    {operand : Nat} (h : u.Instruction map offset op operand) : u.ReadsInRange offset := by
  refine ⟨op, h.opcode, ?_⟩
  intro width hw
  rw [width_of_mem_operandWidths hw]
  refine ⟨operand, h.reads, ?_, fun naming => stringAt?_of_sound naming h.sound⟩
  rintro rfl
  exact constant_lt_of_sound h.sound

end CodeUnit

end ProtoVM
