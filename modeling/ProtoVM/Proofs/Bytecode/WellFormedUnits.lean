import ProtoVM.Proofs.Bytecode.CheckedCode

/-!
# What the code check accepts

A unit is well formed when its code is a sequence of whole instructions, the constants they refer
to are there and of the right kind, and their jumps land on one of them or at the end. The code
check accepts exactly the well-formed units. Of every other unit it reports the first instruction
in code order that is at fault by itself, or, where there is none, the first jump that does not
land.
-/

namespace ProtoVM

/-! ## Sequences of instructions -/

/-- An opcode with all of its operand bytes. -/
structure WholeInstruction where
  op : Opcode
  operands : List UInt8
  complete : operands.length = op.length - 1

namespace WholeInstruction

def bytes (i : WholeInstruction) : Code := i.op.byte :: i.operands

/-- The number that the operand bytes stand for. -/
def operand (i : WholeInstruction) : Nat := Code.ofBigEndian i.operands

/-- Instructions one after the other. -/
def codeOf (is : List WholeInstruction) : Code := is.flatMap bytes

/-- One of the instructions starts at the offset. -/
def StartsAt (is : List WholeInstruction) (offset : Nat) : Prop :=
  ∃ before i after, is = before ++ i :: after ∧ offset = (codeOf before).length

/-- The instruction, if it is a jump, lands on one of the instructions or at their end. -/
def Lands (is : List WholeInstruction) (i : WholeInstruction) : Prop :=
  i.op.isJump → i.operand = (codeOf is).length ∨ StartsAt is i.operand

@[simp] theorem length_bytes (i : WholeInstruction) : i.bytes.length = i.op.length := by
  have := i.op.length_pos
  rw [bytes, List.length_cons, i.complete]
  omega

@[simp] theorem codeOf_cons (i : WholeInstruction) (is : List WholeInstruction) :
    codeOf (i :: is) = i.bytes ++ codeOf is := rfl

theorem length_codeOf_cons (i : WholeInstruction) (is : List WholeInstruction) :
    (codeOf (i :: is)).length = i.op.length + (codeOf is).length := by
  rw [codeOf_cons, List.length_append, length_bytes]

end WholeInstruction

open WholeInstruction

/-- A byte stands for at most one opcode. -/
theorem Opcode.eq_byte_of_ofByte? {b : UInt8} {op : Opcode} (h : Opcode.ofByte? b = some op) :
    b = op.byte := by
  have distinct : Opcode.all.Nodup := by decide
  have inside : b.toNat < Opcode.all.length := (List.getElem?_eq_some_iff.mp h).1
  have same : Opcode.all[b.toNat]? = Opcode.all[op.byte.toNat]? := h.trans (ofByte?_byte op).symm
  exact UInt8.toNat_inj.mp ((List.getElem?_inj inside distinct).mp same)

namespace CodeUnit

/-! ## Well-formed units and first faults -/

/-- The constant that the instruction refers to, if it does, is in the pool, and a string where
the opcode names something. -/
structure Refers (u : CodeUnit) (i : WholeInstruction) : Prop where
  constant : i.op = .constant → i.operand < u.constants.length
  name : i.op.isNaming → ∃ s, u.constants[i.operand]? = some (.str s)

def WellFormed (u : CodeUnit) : Prop :=
  ∃ is, u.code = codeOf is ∧ (∀ i ∈ is, u.Refers i) ∧ ∀ i ∈ is, Lands is i

/-- What is wrong with the instruction at the front of the code. -/
inductive FaultyFront (u : CodeUnit) : Code → CodeFault → Prop where
  | unknownOpcode {byte : UInt8} {rest : Code} (unknown : Opcode.ofByte? byte = none) :
    FaultyFront u (byte :: rest) (.unknownOpcode byte)
  | truncatedOperands {op : Opcode} {rest : Code} (short : rest.length < op.length - 1) :
    FaultyFront u (op.byte :: rest) (.truncatedOperands op)
  | constantOutOfRange {i : WholeInstruction} {rest : Code}
    (refers : i.op = .constant ∨ i.op.isNaming) (outside : u.constants.length ≤ i.operand) :
    FaultyFront u (i.bytes ++ rest) (.constantOutOfRange i.operand)
  | notAString {i : WholeInstruction} {rest : Code} {c : Constant} (naming : i.op.isNaming)
    (found : u.constants[i.operand]? = some c) (other : ∀ s, c ≠ .str s) :
    FaultyFront u (i.bytes ++ rest) (.notAString i.op c)

/-- The fault that comes first, with the offset of its instruction. Jumps are judged only when no
instruction is at fault by itself. -/
inductive FirstFault (u : CodeUnit) : Nat → CodeFault → Prop where
  | instruction {before : List WholeInstruction} {rest : Code} {fault : CodeFault}
    (code : u.code = codeOf before ++ rest) (sound : ∀ i ∈ before, u.Refers i)
    (faulty : u.FaultyFront rest fault) : FirstFault u (codeOf before).length fault
  | jump {before after : List WholeInstruction} {i : WholeInstruction}
    (code : u.code = codeOf (before ++ i :: after))
    (sound : ∀ j ∈ before ++ i :: after, u.Refers j)
    (landing : ∀ j ∈ before, Lands (before ++ i :: after) j)
    (astray : ¬ Lands (before ++ i :: after) i) :
    FirstFault u (codeOf before).length (.badJumpTarget i.operand)

variable {u : CodeUnit}

theorem operandFault?_eq_none_iff {i : WholeInstruction} :
    u.operandFault? i.op i.operand = none ↔ u.Refers i := by
  constructor
  · intro sound
    refine ⟨fun isConstant => ?_, fun naming => ?_⟩
    · rw [isConstant] at sound
      exact constant_lt_of_sound sound
    · obtain ⟨s, found⟩ := stringAt?_of_sound naming sound
      obtain ⟨c, at_, string⟩ := Option.bind_eq_some_iff.mp found
      cases c with
      | str t => exact ⟨t, at_⟩
      | _ => cases string
  · intro refers
    rw [operandFault?]
    by_cases isConstant : i.op = .constant
    · rw [if_pos isConstant, if_pos (refers.constant isConstant)]
    · rw [if_neg isConstant]
      by_cases naming : i.op.isNaming
      · obtain ⟨s, found⟩ := refers.name naming
        rw [if_pos naming, found]
      · rw [if_neg naming]

/-! ## The walk over instructions -/

/-- The walk puts an instruction that is not at fault before what it finds behind it. -/
theorem mapFrom_bytes_append (i : WholeInstruction) (offset : Nat) (rest : Code) :
    u.mapFrom offset (i.bytes ++ rest) =
      match u.operandFault? i.op i.operand with
      | some fault => .error (offset, fault)
      | none => (u.mapFrom (offset + i.op.length) rest).map fun later =>
          ⟨offset :: later.starts,
            if i.op.isJump then ⟨offset, i.operand⟩ :: later.jumps else later.jumps⟩ := by
  have taken : (i.operands ++ rest).take (i.op.length - 1) = i.operands :=
    List.take_left' i.complete
  have left : (i.operands ++ rest).drop (i.op.length - 1) = rest := List.drop_left' i.complete
  have enough : ¬ i.operands.length < i.op.length - 1 := by
    rw [i.complete]
    exact Nat.lt_irrefl _
  rw [bytes, List.cons_append, mapFrom, Opcode.ofByte?_byte]
  simp only [taken, left, if_neg enough]
  show (match u.operandFault? i.op i.operand with | some fault => _ | none => _) = _
  cases u.operandFault? i.op i.operand with
  | some fault => rfl
  | none =>
    cases u.mapFrom (offset + i.op.length) rest with
    | error e => rfl
    | ok later => rfl

/-- The starts and the jumps of instructions that follow each other from an offset. -/
def mapOf (offset : Nat) : List WholeInstruction → CodeMap
  | [] => ⟨[], []⟩
  | i :: is =>
    let later := mapOf (offset + i.op.length) is
    ⟨offset :: later.starts,
      if i.op.isJump then ⟨offset, i.operand⟩ :: later.jumps else later.jumps⟩

/-- The walk passes instructions that are not at fault and goes on behind them. -/
theorem mapFrom_codeOf_append {is : List WholeInstruction} (sound : ∀ i ∈ is, u.Refers i)
    (offset : Nat) (rest : Code) :
    u.mapFrom offset (codeOf is ++ rest) =
      (u.mapFrom (offset + (codeOf is).length) rest).map fun later =>
        ⟨(mapOf offset is).starts ++ later.starts, (mapOf offset is).jumps ++ later.jumps⟩ := by
  induction is generalizing offset with
  | nil =>
    show u.mapFrom offset rest = (u.mapFrom offset rest).map fun later => later
    cases u.mapFrom offset rest with
    | error e => rfl
    | ok map => rfl
  | cons i is ih =>
    have refers := operandFault?_eq_none_iff.mpr (sound i (by simp))
    have later := ih (fun j hj => sound j (List.mem_cons_of_mem i hj)) (offset + i.op.length)
    rw [length_codeOf_cons, ← Nat.add_assoc, codeOf_cons, List.append_assoc, mapFrom_bytes_append]
    simp only [refers, later]
    cases u.mapFrom (offset + i.op.length + (codeOf is).length) rest with
    | error e => rfl
    | ok map =>
      by_cases jump : i.op.isJump
      · simp [Except.map, mapOf, jump]
      · simp [Except.map, mapOf, jump]

theorem mapFrom_codeOf {is : List WholeInstruction} (sound : ∀ i ∈ is, u.Refers i) (offset : Nat) :
    u.mapFrom offset (codeOf is) = .ok (mapOf offset is) := by
  have walk := mapFrom_codeOf_append sound offset []
  rw [List.append_nil, mapFrom] at walk
  rw [walk]
  simp [Except.map]

theorem operandFault?_of_outside {i : WholeInstruction} (refers : i.op = .constant ∨ i.op.isNaming)
    (outside : u.constants.length ≤ i.operand) :
    u.operandFault? i.op i.operand = some (.constantOutOfRange i.operand) := by
  rw [operandFault?]
  by_cases isConstant : i.op = .constant
  · rw [if_pos isConstant, if_neg (by omega)]
  · rw [if_neg isConstant, if_pos (refers.resolve_left isConstant), List.getElem?_eq_none outside]

theorem operandFault?_of_other {i : WholeInstruction} {c : Constant} (naming : i.op.isNaming)
    (found : u.constants[i.operand]? = some c) (other : ∀ s, c ≠ .str s) :
    u.operandFault? i.op i.operand = some (.notAString i.op c) := by
  have notConstant : i.op ≠ .constant := by
    intro isConstant
    rw [isConstant] at naming
    cases naming
  rw [operandFault?, if_neg notConstant, if_pos naming, found]
  cases c with
  | str s => exact absurd rfl (other s)
  | _ => rfl

/-- The walk ends at an instruction that is at fault by itself. -/
theorem mapFrom_of_faultyFront {rest : Code} {fault : CodeFault}
    (faulty : u.FaultyFront rest fault) (offset : Nat) :
    u.mapFrom offset rest = .error (offset, fault) := by
  cases faulty with
  | unknownOpcode unknown => rw [mapFrom, unknown]
  | @truncatedOperands op rest short =>
    have taken : (rest.take (op.length - 1)).length < op.length - 1 := by
      rw [List.length_take]
      omega
    rw [mapFrom, Opcode.ofByte?_byte]
    simp only [if_pos taken]
  | constantOutOfRange refers outside =>
    rw [mapFrom_bytes_append, operandFault?_of_outside refers outside]
  | notAString naming found other =>
    rw [mapFrom_bytes_append, operandFault?_of_other naming found other]

theorem exists_faultyFront {i : WholeInstruction} (h : ¬ u.Refers i) (rest : Code) :
    ∃ fault, u.FaultyFront (i.bytes ++ rest) fault := by
  cases found : u.constants[i.operand]? with
  | none =>
    have outside := List.getElem?_eq_none_iff.mp found
    by_cases refers : i.op = .constant ∨ i.op.isNaming
    · exact ⟨_, .constantOutOfRange refers outside⟩
    · obtain ⟨notConstant, notNaming⟩ := not_or.mp refers
      exact absurd ⟨fun h => absurd h notConstant, fun h => absurd h notNaming⟩ h
  | some c =>
    have inside := (List.getElem?_eq_some_iff.mp found).1
    have unnamed : ¬ (i.op.isNaming → ∃ s, u.constants[i.operand]? = some (.str s)) :=
      fun name => h ⟨fun _ => inside, name⟩
    obtain ⟨naming, other⟩ := Classical.not_imp.mp unnamed
    refine ⟨_, .notAString naming found ?_⟩
    rintro s rfl
    exact other ⟨s, found⟩

/-- Any code starts with whole instructions that are not at fault, up to its end or to one that
is. -/
theorem exists_codeOf_append (code : Code) :
    ∃ is rest, code = codeOf is ++ rest ∧ (∀ i ∈ is, u.Refers i) ∧
      (rest = [] ∨ ∃ fault, u.FaultyFront rest fault) := by
  induction h : code.length using Nat.strongRecOn generalizing code with
  | ind n ih =>
    have here (faulty : ∃ fault, u.FaultyFront code fault) : ∃ is rest, code = codeOf is ++ rest ∧
        (∀ i ∈ is, u.Refers i) ∧ (rest = [] ∨ ∃ fault, u.FaultyFront rest fault) :=
      ⟨[], code, rfl, by simp, .inr faulty⟩
    cases code with
    | nil => exact ⟨[], [], rfl, by simp, .inl rfl⟩
    | cons byte after =>
      cases known : Opcode.ofByte? byte with
      | none => exact here ⟨_, .unknownOpcode known⟩
      | some op =>
        obtain rfl := Opcode.eq_byte_of_ofByte? known
        by_cases short : after.length < op.length - 1
        · exact here ⟨_, .truncatedOperands short⟩
        · have complete : (after.take (op.length - 1)).length = op.length - 1 := by
            rw [List.length_take]
            omega
          let i : WholeInstruction := ⟨op, after.take (op.length - 1), complete⟩
          have split : op.byte :: after = i.bytes ++ after.drop (op.length - 1) := by
            rw [bytes, List.cons_append, List.take_append_drop]
          by_cases refers : u.Refers i
          · have shorter : (after.drop (op.length - 1)).length < n := by
              rw [← h, List.length_drop, List.length_cons]
              omega
            obtain ⟨is, rest, later, sound, ending⟩ := ih _ shorter _ rfl
            refine ⟨i :: is, rest, ?_, ?_, ending⟩
            · rw [split, later, codeOf_cons, List.append_assoc]
            · intro j hj
              rcases List.mem_cons.mp hj with rfl | hj
              · exact refers
              · exact sound j hj
          · rw [split] at here ⊢
            exact here (exists_faultyFront refers _)

/-! ## Jumps -/

theorem mem_starts_mapOf {is : List WholeInstruction} {offset s : Nat} :
    s ∈ (mapOf offset is).starts ↔
      ∃ before i after, is = before ++ i :: after ∧ s = offset + (codeOf before).length := by
  induction is generalizing offset with
  | nil => simp [mapOf]
  | cons first is ih =>
    rw [mapOf, List.mem_cons, ih]
    constructor
    · rintro (rfl | ⟨before, i, after, rfl, rfl⟩)
      · exact ⟨[], first, is, rfl, rfl⟩
      · refine ⟨first :: before, i, after, rfl, ?_⟩
        rw [length_codeOf_cons, Nat.add_assoc]
    · rintro ⟨before, i, after, split, rfl⟩
      cases before with
      | nil => exact .inl rfl
      | cons b before =>
        obtain ⟨rfl, rfl⟩ := List.cons.inj split
        refine .inr ⟨before, i, after, rfl, ?_⟩
        rw [length_codeOf_cons, Nat.add_assoc]

/-- The boundaries that the walk finds are the starts of the instructions and their end. -/
theorem boundary_mapOf_iff {is : List WholeInstruction} {target : Nat} :
    (mapOf 0 is).Boundary (codeOf is).length target ↔
      target = (codeOf is).length ∨ StartsAt is target := by
  rw [CodeMap.Boundary, mem_starts_mapOf]
  simp only [Nat.zero_add, StartsAt]

theorem jumps_mapOf_append (is js : List WholeInstruction) (offset : Nat) :
    (mapOf offset (is ++ js)).jumps =
      (mapOf offset is).jumps ++ (mapOf (offset + (codeOf is).length) js).jumps := by
  induction is generalizing offset with
  | nil => rfl
  | cons i is ih =>
    rw [length_codeOf_cons, ← Nat.add_assoc, List.cons_append, mapOf, mapOf]
    by_cases jump : i.op.isJump
    · simp [jump, ih]
    · simp [jump, ih]

theorem exists_of_mem_jumps {is : List WholeInstruction} {offset : Nat} {jump : FoundJump}
    (mem : jump ∈ (mapOf offset is).jumps) :
    ∃ i ∈ is, i.op.isJump ∧ jump.target = i.operand := by
  induction is generalizing offset with
  | nil => cases mem
  | cons first is ih =>
    rw [mapOf] at mem
    by_cases isJump : first.op.isJump
    · rw [if_pos isJump] at mem
      rcases List.mem_cons.mp mem with rfl | mem
      · exact ⟨first, by simp, isJump, rfl⟩
      · obtain ⟨i, hi, found⟩ := ih mem
        exact ⟨i, List.mem_cons_of_mem first hi, found⟩
    · rw [if_neg isJump] at mem
      obtain ⟨i, hi, found⟩ := ih mem
      exact ⟨i, List.mem_cons_of_mem first hi, found⟩

theorem exists_first_astray {is : List WholeInstruction} (h : ¬ ∀ i ∈ is, Lands is i) :
    ∃ before i after, is = before ++ i :: after ∧
      (∀ j ∈ before, Lands (before ++ i :: after) j) ∧ ¬ Lands (before ++ i :: after) i := by
  classical
  obtain ⟨i, found⟩ : ∃ i, is.find? (¬ Lands is ·) = some i := by
    rw [← Option.isSome_iff_exists, List.find?_isSome]
    simpa using h
  obtain ⟨astray, before, after, split, earlier⟩ := List.find?_eq_some_iff_append.mp found
  rw [split] at astray earlier
  refine ⟨before, i, after, split, ?_, by simpa using astray⟩
  intro j hj
  simpa using earlier j hj

/-! ## The answer of the check -/

theorem check_of_wellFormed (h : u.WellFormed) : u.check = .ok () := by
  obtain ⟨is, code, sound, landing⟩ := h
  refine check_eq_ok_iff.mpr ⟨mapOf 0 is, ?_, ?_⟩
  · rw [code]
    exact mapFrom_codeOf sound 0
  · intro jump mem
    obtain ⟨i, hi, isJump, target⟩ := exists_of_mem_jumps mem
    rw [code, boundary_mapOf_iff, target]
    exact landing i hi isJump

/-- The first jump that does not land is the one that is reported. -/
theorem badJump?_of_astray {before after : List WholeInstruction} {i : WholeInstruction}
    (landing : ∀ j ∈ before, Lands (before ++ i :: after) j)
    (astray : ¬ Lands (before ++ i :: after) i) :
    badJump? (mapOf 0 (before ++ i :: after)) (codeOf (before ++ i :: after)).length =
      some ⟨(codeOf before).length, i.operand⟩ := by
  obtain ⟨isJump, misses⟩ := Classical.not_imp.mp astray
  rw [← boundary_mapOf_iff, CodeMap.Boundary] at misses
  -- the jumps before it, judged by the starts of all instructions, land
  have earlier : badJump? ⟨(mapOf 0 (before ++ i :: after)).starts, (mapOf 0 before).jumps⟩
      (codeOf (before ++ i :: after)).length = none := by
    refine badJump?_eq_none_iff.mpr fun jump mem => ?_
    obtain ⟨j, hj, jumps, target⟩ := exists_of_mem_jumps mem
    rw [target]
    exact boundary_mapOf_iff.mpr (landing j hj jumps)
  rw [badJump?] at earlier ⊢
  rw [jumps_mapOf_append, List.find?_append, earlier, Option.none_or, Nat.zero_add]
  show List.find? _ (if i.op.isJump then _ else _) = _
  rw [if_pos isJump, List.find?_cons_of_pos]
  simpa using misses

theorem check_of_firstFault {offset : Nat} {fault : CodeFault} (h : u.FirstFault offset fault) :
    u.check = .error (.malformedCode u.name offset fault) := by
  cases h with
  | @instruction before rest fault code sound faulty =>
    have walk : u.mapFrom 0 u.code = .error ((codeOf before).length, fault) := by
      rw [code, mapFrom_codeOf_append sound, mapFrom_of_faultyFront faulty, Nat.zero_add]
      rfl
    rw [check, walk]
  | @jump before after i code sound landing astray =>
    have walk : u.mapFrom 0 u.code = .ok (mapOf 0 (before ++ i :: after)) := by
      rw [code, mapFrom_codeOf sound]
    rw [check, walk]
    simp only [code, badJump?_of_astray landing astray]

theorem wellFormed_or_firstFault (u : CodeUnit) :
    u.WellFormed ∨ ∃ offset fault, u.FirstFault offset fault := by
  obtain ⟨is, rest, code, sound, rfl | ⟨fault, faulty⟩⟩ := u.exists_codeOf_append u.code
  · rw [List.append_nil] at code
    by_cases landing : ∀ i ∈ is, Lands is i
    · exact .inl ⟨is, code, sound, landing⟩
    · obtain ⟨before, i, after, rfl, earlier, astray⟩ := exists_first_astray landing
      exact .inr ⟨_, _, .jump code sound earlier astray⟩
  · exact .inr ⟨_, fault, .instruction code sound faulty⟩

/-- The code check accepts exactly the well-formed units. It refuses a unit with its name, the
offset of the instruction whose fault comes first, and that fault. -/
theorem check_ok_iff_wellFormed_error_iff_firstFault (u : CodeUnit) :
    (u.check = .ok () ↔ u.WellFormed) ∧
    ∀ e, u.check = .error e ↔
      ∃ offset fault, u.FirstFault offset fault ∧ e = .malformedCode u.name offset fault := by
  constructor
  · refine ⟨fun accepted => ?_, check_of_wellFormed⟩
    rcases u.wellFormed_or_firstFault with good | ⟨offset, fault, first⟩
    · exact good
    · rw [check_of_firstFault first] at accepted
      cases accepted
  · intro e
    constructor
    · intro refused
      rcases u.wellFormed_or_firstFault with good | ⟨offset, fault, first⟩
      · rw [check_of_wellFormed good] at refused
        cases refused
      · rw [check_of_firstFault first] at refused
        exact ⟨offset, fault, first, (Except.error.inj refused).symm⟩
    · rintro ⟨offset, fault, first, rfl⟩
      exact check_of_firstFault first

-- a jump may land at the end of the code, but not inside an instruction
example : (CodeUnit.mk "f" [] [] (Code.instruction .jump [3])).check = .ok () := by cbv
example : (CodeUnit.mk "f" [] [] (Code.instruction .jump [1])).check =
    .error (.malformedCode "f" 0 (.badJumpTarget 1)) := by cbv

end CodeUnit

end ProtoVM
