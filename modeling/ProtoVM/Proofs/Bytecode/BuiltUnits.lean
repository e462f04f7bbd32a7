import Mathlib
import ProtoVM.Proofs.Bytecode.WellFormedUnits
import ProtoVM.Proofs.Payload.RoundTrip

/-!
# Built units

A unit is built in steps: constants and names are put into its pool, instructions are appended, and
a jump is aimed again once the place it leads to is known. When the steps use what earlier steps
have answered, the unit passes the code check, and its payload is read back as the unit.
-/

namespace ProtoVM

open WholeInstruction

/-! ## Operands in bytes -/

namespace Code

theorem foldl_bigEndian (width value start : Nat) :
    (bigEndian width value).foldl (fun n b => n * 256 + b.toNat) start =
      start * 256 ^ width + value % 256 ^ width := by
  induction width generalizing start with
  | zero => simp [bigEndian, Nat.mod_one]
  | succ width ih =>
    have shift : value >>> (8 * width) = value / 256 ^ width := by
      rw [Nat.shiftRight_eq_div_pow, Nat.pow_mul]
    have byte : (UInt8.ofNat (value / 256 ^ width)).toNat = value / 256 ^ width % 256 := rfl
    rw [bigEndian, List.foldl_cons, ih, shift, byte, Nat.mod_pow_succ, pow_succ]
    ring

/-- A number that is written in bytes keeps its low bytes. -/
theorem ofBigEndian_bigEndian (width value : Nat) :
    ofBigEndian (bigEndian width value) = value % 256 ^ width := by
  rw [ofBigEndian, foldl_bigEndian, Nat.zero_mul, Nat.zero_add]

end Code

/-! ## Steps -/

/-- A step in which a unit is built. -/
inductive BuildStep where
  | intern (c : Constant)
  | internString (s : String)
  | emit (op : Opcode) (operands : List Nat)
  | retarget (offset target : Nat)

/-- An instruction that has been appended. -/
structure Emission where
  /-- The offset that was answered. -/
  offset : Nat
  op : Opcode
  /-- The operands as they were given last. -/
  operands : List Nat

namespace Emission

/-- A jump is aimed again if it is the one at the offset. -/
def aim (offset target : Nat) (e : Emission) : Emission :=
  if e.offset = offset then { e with operands := [target] } else e

/-- The instruction that stands in the code; an opcode has at most one operand. -/
def instruction (e : Emission) : WholeInstruction :=
  ⟨e.op, Code.bigEndian (e.op.length - 1) (e.operands.headD 0), Code.length_bigEndian _ _⟩

end Emission

/-- A unit that is being built, with what the steps were answered. -/
structure Build where
  unit : CodeUnit
  /-- The indices that were answered for constants. -/
  constants : List Nat
  /-- The indices that were answered for names. -/
  names : List Nat
  /-- The instructions in the order in which they were appended. -/
  emissions : List Emission

namespace Build

def start (name : String) (parameters : List String) : Build :=
  ⟨.empty name parameters, [], [], []⟩

/-- Takes a step and notes the answer. -/
def step (b : Build) : BuildStep → Build
  | .intern c =>
    let (unit, index) := b.unit.intern c
    { b with unit, constants := index :: b.constants }
  | .internString s =>
    let (unit, index) := b.unit.internString s
    { b with unit, names := index :: b.names }
  | .emit op operands =>
    let (unit, offset) := b.unit.emit op operands
    { b with unit, emissions := b.emissions ++ [⟨offset, op, operands⟩] }
  | .retarget offset target =>
    { b with
      unit := (b.unit.retarget offset target).1
      emissions := b.emissions.map (·.aim offset target) }

def run (b : Build) (steps : List BuildStep) : Build := steps.foldl step b

/-- An instruction is given as many operands as it has, and only a jump that was appended is aimed
again. -/
def Allows (b : Build) : BuildStep → Prop
  | .emit op operands => operands.length = op.operandWidths.length
  | .retarget offset _ => ∃ e ∈ b.emissions, e.offset = offset ∧ e.op.isJump
  | _ => True

/-- Each of the steps is allowed when it is taken. -/
def Admits : Build → List BuildStep → Prop
  | _, [] => True
  | b, s :: ss => b.Allows s ∧ (b.step s).Admits ss

/-- The instructions refer to what was answered, and the jumps, as they were aimed last, lead to
an instruction that was appended or to the end. Pool and code are small enough to refer to, and
texts small enough to write. -/
structure Finished (b : Build) : Prop where
  constant : ∀ e ∈ b.emissions, e.op = .constant →
    ∀ n ∈ e.operands, n ∈ b.constants ∨ n ∈ b.names
  name : ∀ e ∈ b.emissions, e.op.isNaming → ∀ n ∈ e.operands, n ∈ b.names
  jump : ∀ e ∈ b.emissions, e.op.isJump →
    ∀ n ∈ e.operands, n = b.unit.code.length ∨ ∃ e' ∈ b.emissions, e'.offset = n
  pool : b.unit.constants.length ≤ 65536
  code : b.unit.code.length ≤ 65535
  title : (Payload.utf8 b.unit.name).length < UInt32.size
  parameterCount : b.unit.parameters.length < UInt32.size
  parameters : ∀ p ∈ b.unit.parameters, (Payload.utf8 p).length < UInt32.size
  strings : ∀ c ∈ b.unit.constants, Payload.FitsConstant c

end Build

/-! ## The pool -/

theorem Constant.eq_str_of_equals {c : Constant} {s : String} (h : c.equals (.str s)) :
    c = .str s := by
  cases c with
  | str t => exact congrArg Constant.str (beq_iff_eq.mp h)
  | _ => cases h

namespace CodeUnit

variable {u : CodeUnit}

/-- Putting a constant into the pool leaves what is in it in place, and answers an index inside. -/
theorem intern_keeps (u : CodeUnit) (c : Constant) :
    (∃ more, (u.intern c).1 = { u with constants := u.constants ++ more }) ∧
      (u.intern c).2 < (u.intern c).1.constants.length := by
  rw [intern]
  cases found : u.constants.findIdx? (·.equals c) with
  | some index =>
    refine ⟨⟨[], by rw [List.append_nil]⟩, ?_⟩
    exact (List.findIdx?_eq_some_iff_getElem.mp found).1
  | none => exact ⟨⟨[c], rfl⟩, by simp⟩

/-- The index that is answered for a string is one at which the string stands. -/
theorem getElem?_internString (u : CodeUnit) (s : String) :
    (u.internString s).1.constants[(u.internString s).2]? = some (.str s) := by
  rw [internString, intern]
  cases found : u.constants.findIdx? (·.equals (.str s)) with
  | some index =>
    obtain ⟨inside, equal, -⟩ := List.findIdx?_eq_some_iff_getElem.mp found
    rw [List.getElem?_eq_getElem inside, Constant.eq_str_of_equals equal]
  | none => simp

/-! ## Jumps that are aimed again -/

/-- All that changes is the two operand bytes of the jump at an offset, which hold the target. -/
structure Retargets (u v : CodeUnit) (offset target : Nat) : Prop where
  same : v = { u with code := v.code }
  length : v.code.length = u.code.length
  jump : ∃ op, u.code[offset]?.bind Opcode.ofByte? = some op ∧ op.isJump
  inside : offset + 2 < u.code.length
  others : ∀ i, i ≠ offset + 1 → i ≠ offset + 2 → v.code[i]? = u.code[i]?
  target : v.code.operandAt? (offset + 1) 2 = some (target % 65536)

end CodeUnit

namespace Emission

variable {e : Emission} {offset target : Nat}

theorem operandWidths_of_isJump {op : Opcode} (h : op.isJump) : op.operandWidths = [2] := by
  cases op <;> first | rfl | cases h

@[simp] theorem op_aim (e : Emission) : (e.aim offset target).op = e.op := by
  rw [aim]
  split <;> rfl

@[simp] theorem offset_aim (e : Emission) : (e.aim offset target).offset = e.offset := by
  rw [aim]
  split <;> rfl

/-- What is appended is the instruction. -/
theorem bytes_instruction (complete : e.operands.length = e.op.operandWidths.length) :
    Code.instruction e.op e.operands = e.instruction.bytes := by
  obtain ⟨offset, op, operands⟩ := e
  rw [Code.instruction, instruction, bytes]
  have widths : op.operandWidths = [] ∨ op.operandWidths = [op.length - 1] := by
    cases op <;> simp [Opcode.operandWidths, Opcode.length]
  rcases widths with none | one
  · have short : op.length - 1 = 0 := by simp [Opcode.length, none]
    simp [none, short, Code.bigEndian]
  · rw [one] at complete
    obtain ⟨n, rfl⟩ := List.length_eq_one_iff.mp complete
    simp [one]

/-- An operand that fits its bytes is the operand of the instruction. -/
theorem operand_instruction (small : e.operands.headD 0 < 256 ^ (e.op.length - 1)) :
    e.instruction.operand = e.operands.headD 0 := by
  rw [operand, instruction, Code.ofBigEndian_bigEndian, Nat.mod_eq_of_lt small]

end Emission

/-! ## What holds while a unit is built -/

namespace Build

/-- The instructions of a unit that is being built. -/
def instructions (b : Build) : List WholeInstruction := b.emissions.map (·.instruction)

/-- The code is the appended instructions, each where it was answered to be, and what was answered
for constants and names is in the pool. -/
structure Sound (b : Build) : Prop where
  code : b.unit.code = codeOf b.instructions
  offsets : b.emissions.map (·.offset) = (CodeUnit.mapOf 0 b.instructions).starts
  complete : ∀ e ∈ b.emissions, e.operands.length = e.op.operandWidths.length
  constants : ∀ n ∈ b.constants, n < b.unit.constants.length
  names : ∀ n ∈ b.names, ∃ s, b.unit.constants[n]? = some (.str s)

theorem sound_start (name : String) (parameters : List String) : (start name parameters).Sound where
  code := rfl
  offsets := rfl
  complete := fun _ mem => nomatch mem
  constants := fun _ mem => nomatch mem
  names := fun _ mem => nomatch mem

variable {b : Build}

/-- A pool that grows keeps what was answered. -/
theorem Sound.of_more (h : b.Sound) {unit : CodeUnit} {constants names : List Nat}
    (more : ∃ more, unit = { b.unit with constants := b.unit.constants ++ more })
    (newConstants : ∀ n ∈ constants, n ∈ b.constants ∨ n < unit.constants.length)
    (newNames : ∀ n ∈ names, n ∈ b.names ∨ ∃ s, unit.constants[n]? = some (.str s)) :
    (⟨unit, constants, names, b.emissions⟩ : Build).Sound := by
  obtain ⟨more, rfl⟩ := more
  refine ⟨h.code, h.offsets, h.complete, ?_, ?_⟩
  · intro n mem
    rcases newConstants n mem with old | new
    · have inside := h.constants n old
      simp only [List.length_append]
      omega
    · exact new
  · intro n mem
    rcases newNames n mem with old | new
    · obtain ⟨s, found⟩ := h.names n old
      exact ⟨s, by rw [List.getElem?_append_left (List.getElem?_eq_some_iff.mp found).1, found]⟩
    · exact new

theorem codeOf_append (is js : List WholeInstruction) :
    codeOf (is ++ js) = codeOf is ++ codeOf js :=
  List.flatMap_append

theorem starts_mapOf_append (is js : List WholeInstruction) (offset : Nat) :
    (CodeUnit.mapOf offset (is ++ js)).starts = (CodeUnit.mapOf offset is).starts ++
      (CodeUnit.mapOf (offset + (codeOf is).length) js).starts := by
  induction is generalizing offset with
  | nil => rfl
  | cons i is ih =>
    rw [length_codeOf_cons, ← Nat.add_assoc, List.cons_append, CodeUnit.mapOf, CodeUnit.mapOf, ih]
    rfl

theorem Sound.emit (h : b.Sound) {op : Opcode} {operands : List Nat}
    (complete : operands.length = op.operandWidths.length) :
    (b.step (.emit op operands)).Sound := by
  have bytes := Emission.bytes_instruction (e := ⟨b.unit.code.length, op, operands⟩) complete
  have split : (b.step (.emit op operands)).instructions =
      b.instructions ++ [Emission.instruction ⟨b.unit.code.length, op, operands⟩] := by
    simp [instructions, step, CodeUnit.emit]
  refine ⟨?_, ?_, ?_, h.constants, h.names⟩
  · rw [split, codeOf_append, ← h.code]
    show b.unit.code ++ Code.instruction op operands = _
    rw [bytes]
    simp [codeOf]
  · rw [split, starts_mapOf_append, ← h.offsets, ← h.code, Nat.zero_add]
    simp [step, CodeUnit.emit, CodeUnit.mapOf]
  · intro e mem
    rcases List.mem_append.mp mem with old | new
    · exact h.complete e old
    · obtain rfl := List.mem_singleton.mp new
      exact complete

/-! ## Aiming a jump again -/

theorem length_starts_mapOf (is : List WholeInstruction) (offset : Nat) :
    (CodeUnit.mapOf offset is).starts.length = is.length := by
  induction is generalizing offset with
  | nil => rfl
  | cons i is ih => simp [CodeUnit.mapOf, ih]

/-- Where instructions start hangs on their opcodes alone. -/
theorem starts_mapOf_congr {is js : List WholeInstruction} (ops : is.map (·.op) = js.map (·.op))
    (offset : Nat) : (CodeUnit.mapOf offset is).starts = (CodeUnit.mapOf offset js).starts := by
  induction is generalizing js offset with
  | nil =>
    obtain rfl := List.map_eq_nil_iff.mp ops.symm
    rfl
  | cons i is ih =>
    cases js with
    | nil => cases ops
    | cons j js =>
      obtain ⟨first, later⟩ := List.cons.inj ops
      have same : i.op = j.op := first
      rw [CodeUnit.mapOf, CodeUnit.mapOf, same, ih later]

theorem pairwise_starts_mapOf (is : List WholeInstruction) (offset : Nat) :
    (CodeUnit.mapOf offset is).starts.Pairwise (· < ·) := by
  induction is generalizing offset with
  | nil => exact .nil
  | cons i is ih =>
    refine .cons (fun s mem => ?_) (ih (offset + i.op.length))
    obtain ⟨before, j, after, -, rfl⟩ := CodeUnit.mem_starts_mapOf.mp mem
    have := i.op.length_pos
    omega

/-- Where an instruction that was appended stands in the code, and that it stands there alone. -/
structure Stands (b : Build) (before : List Emission) (e : Emission) (after : List Emission) :
    Prop where
  code : b.unit.code = codeOf (before.map (·.instruction)) ++
    (e.instruction.bytes ++ codeOf (after.map (·.instruction)))
  offset : e.offset = (codeOf (before.map (·.instruction))).length
  earlier : ∀ f ∈ before, f.offset ≠ e.offset
  later : ∀ f ∈ after, f.offset ≠ e.offset

theorem Sound.stands (h : b.Sound) {before after : List Emission} {e : Emission}
    (split : b.emissions = before ++ e :: after) : b.Stands before e after := by
  have instructions : b.instructions =
      before.map (·.instruction) ++ e.instruction :: after.map (·.instruction) := by
    rw [Build.instructions, split, List.map_append, List.map_cons]
  have offsets := h.offsets
  have apart := pairwise_starts_mapOf b.instructions 0
  rw [← offsets, split, List.map_append, List.map_cons, List.pairwise_append,
    List.pairwise_cons] at apart
  obtain ⟨-, ⟨later, -⟩, earlier⟩ := apart
  rw [instructions, split, starts_mapOf_append, List.map_append] at offsets
  obtain ⟨-, behind⟩ := List.append_inj offsets (by simp [length_starts_mapOf])
  rw [List.map_cons, CodeUnit.mapOf] at behind
  refine ⟨?_, ?_, ?_, ?_⟩
  · rw [h.code, instructions, codeOf_append, codeOf_cons]
  · simpa using (List.cons.inj behind).1
  · intro f mem
    exact Nat.ne_of_lt (earlier _ (List.mem_map_of_mem mem) _ List.mem_cons_self)
  · intro f mem
    exact Nat.ne_of_gt (later _ (List.mem_map_of_mem mem))

theorem map_aim_of_ne {es : List Emission} {offset target : Nat}
    (other : ∀ e ∈ es, e.offset ≠ offset) : es.map (·.aim offset target) = es := by
  refine (List.map_congr_left fun e mem => ?_).trans (List.map_id es)
  exact if_neg (other e mem)

/-- The bytes of a jump. -/
theorem bytes_of_isJump {offset : Nat} {op : Opcode} {n : Nat} (isJump : op.isJump) :
    (Emission.instruction ⟨offset, op, [n]⟩).bytes =
      [op.byte, UInt8.ofNat (n >>> 8), UInt8.ofNat n] := by
  have width : op.length - 1 = 2 := by simp [Opcode.length, Emission.operandWidths_of_isJump isJump]
  simp [bytes, Emission.instruction, width, Code.bigEndian]

/-- The code in which a jump is aimed again is that of the emissions in which it is. -/
theorem Stands.code_retarget {before after : List Emission} {e : Emission}
    (stands : b.Stands before e after) (isJump : e.op.isJump)
    (complete : e.operands.length = e.op.operandWidths.length) (target : Nat) :
    (b.unit.retarget e.offset target).1.code = codeOf (before.map (·.instruction)) ++
      ((Emission.instruction ⟨e.offset, e.op, [target]⟩).bytes ++
        codeOf (after.map (·.instruction))) := by
  obtain ⟨offset, op, operands⟩ := e
  have place : offset = (codeOf (before.map (·.instruction))).length := stands.offset
  rw [Emission.operandWidths_of_isJump isJump] at complete
  obtain ⟨n, rfl⟩ := List.length_eq_one_iff.mp complete
  rw [CodeUnit.retarget, stands.code, bytes_of_isJump isJump, bytes_of_isJump isJump, place]
  simp

theorem Sound.retarget (h : b.Sound) {offset target : Nat}
    (found : ∃ e ∈ b.emissions, e.offset = offset ∧ e.op.isJump) :
    (b.step (.retarget offset target)).Sound ∧
      b.unit.Retargets (b.unit.retarget offset target).1 offset target := by
  obtain ⟨e, mem, rfl, isJump⟩ := found
  obtain ⟨before, after, split⟩ := List.append_of_mem mem
  have stands := h.stands split
  have code := stands.code_retarget isJump (h.complete e mem) target
  have aimed : b.emissions.map (·.aim e.offset target) =
      before ++ ⟨e.offset, e.op, [target]⟩ :: after := by
    rw [split, List.map_append, List.map_cons, map_aim_of_ne stands.earlier,
      map_aim_of_ne stands.later, Emission.aim, if_pos rfl]
  have instructions : (b.step (.retarget e.offset target)).instructions =
      before.map (·.instruction) ++ Emission.instruction ⟨e.offset, e.op, [target]⟩ ::
        after.map (·.instruction) := by
    rw [Build.instructions, step, aimed, List.map_append, List.map_cons]
  have length : e.op.length = 3 := by
    simp [Opcode.length, Emission.operandWidths_of_isJump isJump]
  refine ⟨⟨?_, ?_, ?_, h.constants, h.names⟩, ⟨rfl, ?_, ?_, ?_, ?_, ?_⟩⟩
  · rw [instructions, codeOf_append, codeOf_cons]
    exact code
  · have ops : (b.step (.retarget e.offset target)).instructions.map (·.op) =
        b.instructions.map (·.op) := by
      simp [Build.instructions, step, Emission.instruction]
    rw [starts_mapOf_congr ops, ← h.offsets]
    simp [step]
  · intro f mem
    have mem : f ∈ before ++ ⟨e.offset, e.op, [target]⟩ :: after := aimed ▸ mem
    rcases List.mem_append.mp mem with earlier | behind
    · exact h.complete f (split ▸ List.mem_append_left _ earlier)
    · rcases List.mem_cons.mp behind with rfl | later
      · rw [Emission.operandWidths_of_isJump isJump]
        rfl
      · exact h.complete f (split ▸ List.mem_append_right _ (List.mem_cons_of_mem _ later))
  · simp [CodeUnit.retarget]
  · refine ⟨e.op, ?_, isJump⟩
    rw [stands.code, stands.offset, List.getElem?_append_right (Nat.le_refl _), Nat.sub_self]
    exact Opcode.ofByte?_byte e.op
  · rw [stands.code, stands.offset]
    simp only [List.length_append, length_bytes]
    have : e.instruction.op.length = 3 := length
    omega
  · intro i first second
    rw [CodeUnit.retarget, List.getElem?_set_ne second.symm, List.getElem?_set_ne first.symm]
  · have reads : ((b.unit.retarget e.offset target).1.code.drop (e.offset + 1)).take 2 =
        Code.bigEndian 2 target := by
      rw [code, bytes_of_isJump isJump, ← List.drop_drop, stands.offset, List.drop_left]
      simp [Code.bigEndian]
    simp only [Code.operandAt?, reads, Code.length_bigEndian, if_true, Code.ofBigEndian_bigEndian]
    rfl

/-! ## Runs -/

theorem Sound.step (h : b.Sound) {s : BuildStep} (allowed : b.Allows s) : (b.step s).Sound := by
  cases s with
  | intern c =>
    obtain ⟨more, inside⟩ := b.unit.intern_keeps c
    refine h.of_more more (fun n mem => ?_) fun n mem => .inl mem
    rcases List.mem_cons.mp mem with rfl | old
    · exact .inr inside
    · exact .inl old
  | internString s =>
    obtain ⟨more, -⟩ := b.unit.intern_keeps (.str s)
    refine h.of_more more (fun n mem => .inl mem) fun n mem => ?_
    rcases List.mem_cons.mp mem with rfl | old
    · exact .inr ⟨s, b.unit.getElem?_internString s⟩
    · exact .inl old
  | emit op operands => exact h.emit allowed
  | retarget offset target => exact (h.retarget allowed).1

theorem Sound.run {steps : List BuildStep} (h : b.Sound) (admits : b.Admits steps) :
    (b.run steps).Sound := by
  induction steps generalizing b with
  | nil => exact h
  | cons s steps ih => exact ih (h.step admits.1) admits.2

theorem Admits.of_append {before after : List BuildStep} (admits : b.Admits (before ++ after)) :
    b.Admits before ∧ (b.run before).Admits after := by
  induction before generalizing b with
  | nil => exact ⟨trivial, admits⟩
  | cons s before ih =>
    obtain ⟨first, later⟩ := ih admits.2
    exact ⟨⟨admits.1, first⟩, later⟩

/-! ## Finished units -/

/-- An operand that was answered is kept whole in its bytes. -/
theorem operand_of_small {e : Emission} {n : Nat} (widths : e.op.operandWidths = [2])
    (operands : e.operands = [n]) (small : n < 65536) : e.instruction.operand = n := by
  have width : e.op.length - 1 = 2 := by simp [Opcode.length, widths]
  have first : e.operands.headD 0 = n := by rw [operands]; rfl
  rw [Emission.operand_instruction (by rw [width, first]; exact small), first]

theorem operands_of_widths (h : b.Sound) {e : Emission} (mem : e ∈ b.emissions)
    (widths : e.op.operandWidths = [2]) : ∃ n, e.operands = [n] := by
  have complete := h.complete e mem
  rw [widths] at complete
  exact List.length_eq_one_iff.mp complete

theorem operandWidths_of_isNaming {op : Opcode} (h : op.isNaming) : op.operandWidths = [2] := by
  cases op <;> first | rfl | cases h

theorem Finished.refers (finished : b.Finished) (h : b.Sound) {e : Emission}
    (mem : e ∈ b.emissions) : b.unit.Refers e.instruction := by
  have pool := finished.pool
  constructor
  · intro isConstant
    have widths : e.op.operandWidths = [2] := by rw [show e.op = .constant from isConstant]; rfl
    obtain ⟨n, operands⟩ := operands_of_widths h mem widths
    have inside : n < b.unit.constants.length := by
      rcases finished.constant e mem isConstant n (operands ▸ List.mem_cons_self) with old | old
      · exact h.constants n old
      · obtain ⟨s, found⟩ := h.names n old
        exact (List.getElem?_eq_some_iff.mp found).1
    rw [operand_of_small widths operands (by omega)]
    exact inside
  · intro naming
    have widths := operandWidths_of_isNaming naming
    obtain ⟨n, operands⟩ := operands_of_widths h mem widths
    obtain ⟨s, found⟩ := h.names n (finished.name e mem naming n (operands ▸ List.mem_cons_self))
    have inside := (List.getElem?_eq_some_iff.mp found).1
    rw [operand_of_small widths operands (by omega)]
    exact ⟨s, found⟩

theorem Finished.lands (finished : b.Finished) (h : b.Sound) {e : Emission}
    (mem : e ∈ b.emissions) : Lands b.instructions e.instruction := by
  intro isJump
  have widths := Emission.operandWidths_of_isJump isJump
  have size := finished.code
  obtain ⟨n, operands⟩ := operands_of_widths h mem widths
  rcases finished.jump e mem isJump n (operands ▸ List.mem_cons_self) with atEnd | ⟨f, hf, rfl⟩
  · rw [operand_of_small widths operands (by omega), ← h.code]
    exact .inl atEnd
  · obtain ⟨before, after, split⟩ := List.append_of_mem hf
    have stands := h.stands split
    have inside : f.offset < b.unit.code.length := by
      rw [stands.code, stands.offset]
      simp only [List.length_append, length_bytes]
      have := f.instruction.op.length_pos
      omega
    rw [operand_of_small widths operands (by omega)]
    refine .inr ⟨before.map (·.instruction), f.instruction, after.map (·.instruction), ?_,
      stands.offset⟩
    rw [Build.instructions, split, List.map_append, List.map_cons]

theorem Finished.wellFormed (finished : b.Finished) (h : b.Sound) : b.unit.WellFormed := by
  refine ⟨b.instructions, h.code, fun i mem => ?_, fun i mem => ?_⟩
  · obtain ⟨e, he, rfl⟩ := List.mem_map.mp mem
    exact finished.refers h he
  · obtain ⟨e, he, rfl⟩ := List.mem_map.mp mem
    exact finished.lands h he

theorem Finished.fits (finished : b.Finished) : Payload.Fits b.unit where
  name := finished.title
  parameterCount := finished.parameterCount
  parameters := finished.parameters
  constantCount := Nat.lt_of_le_of_lt finished.pool (by norm_num [UInt32.size])
  constants := finished.strings
  code := Nat.lt_of_le_of_lt finished.code (by norm_num [UInt32.size])

/-- Starting from a unit without constants and code, steps are taken in any order. When what they
refer to has been answered, the unit passes the code check; its payload, with any digest, which is
verified, is read back as the unit; its instructions start at exactly the offsets that were
answered; and each jump that was aimed again changed in its two operand bytes alone. -/
theorem accepted_of_finished {name : String} {parameters : List String} {steps : List BuildStep}
    (admits : (start name parameters).Admits steps)
    (finished : ((start name parameters).run steps).Finished) :
    let b := (start name parameters).run steps
    b.unit.check = .ok () ∧
    (∀ d : Payload.Digest, d.decode (d.encode b.unit) true = .ok b.unit) ∧
    (∃ map, b.unit.mapFrom 0 b.unit.code = .ok map ∧ map.starts = b.emissions.map (·.offset)) ∧
    ∀ before offset target after, steps = before ++ .retarget offset target :: after →
      let u := ((start name parameters).run before).unit
      u.Retargets (u.retarget offset target).1 offset target := by
  intro b
  have sound : b.Sound := (sound_start name parameters).run admits
  have accepted : b.unit.check = .ok () := CodeUnit.check_of_wellFormed (finished.wellFormed sound)
  refine ⟨accepted, ?_, ⟨CodeUnit.mapOf 0 b.instructions, ?_, sound.offsets.symm⟩, ?_⟩
  · intro d
    rw [Payload.decode_encode d b.unit finished.fits, accepted]
    rfl
  · rw [sound.code]
    refine CodeUnit.mapFrom_codeOf (fun i mem => ?_) 0
    obtain ⟨e, he, rfl⟩ := List.mem_map.mp mem
    exact finished.refers sound he
  · intro before offset target after split
    rw [split] at admits
    obtain ⟨earlier, allowed, -⟩ := admits.of_append
    exact (((sound_start name parameters).run earlier).retarget allowed).2

/-- A function that returns a NaN unless its argument is false; the jump past the return is aimed
once its target is known, and another one leads to the end. -/
def forwardSteps : List BuildStep :=
  [.internString "n", .emit .getName [0], .emit .jumpIfFalse [0], .intern (.float Binary64.nan),
    .internString "n", .emit .constant [1], .emit .ret [], .retarget 3 10, .emit .jump [0],
    .retarget 10 13]

theorem accepted_of_finished_forward :
    ((start "f" ["n"]).run forwardSteps).unit.code =
        [3, 0, 0, 20, 0, 10, 0, 0, 1, 21, 19, 0, 13] ∧
      ((start "f" ["n"]).run forwardSteps).unit.check = .ok () ∧
      Payload.decode (Payload.encode ((start "f" ["n"]).run forwardSteps).unit) true =
        .ok ((start "f" ["n"]).run forwardSteps).unit := by
  have built : (start "f" ["n"]).run forwardSteps =
      ⟨⟨"f", ["n"], [.str "n", .float Binary64.nan],
          [3, 0, 0, 20, 0, 10, 0, 0, 1, 21, 19, 0, 13]⟩, [1], [0, 0],
        [⟨0, .getName, [0]⟩, ⟨3, .jumpIfFalse, [10]⟩, ⟨6, .constant, [1]⟩, ⟨9, .ret, []⟩,
          ⟨10, .jump, [13]⟩]⟩ := rfl
  have admits : (start "f" ["n"]).Admits forwardSteps := by
    refine ⟨trivial, rfl, rfl, trivial, trivial, rfl, rfl, ⟨⟨3, .jumpIfFalse, [0]⟩, ?_, rfl, rfl⟩,
      rfl, ⟨⟨10, .jump, [0]⟩, ?_, rfl, rfl⟩, trivial⟩
    · exact .tail _ (.head _)
    · exact .tail _ (.tail _ (.tail _ (.tail _ (.head _))))
  have finished : ((start "f" ["n"]).run forwardSteps).Finished := by
    rw [built]
    refine ⟨by decide, by decide, by decide, by decide, by decide, by decide, by decide, by decide,
      ?_⟩
    intro c mem s same
    subst same
    simp only [List.mem_cons, Constant.str.injEq, reduceCtorEq, List.not_mem_nil, or_false] at mem
    subst mem
    decide
  obtain ⟨accepted, decoded, -⟩ := accepted_of_finished admits finished
  exact ⟨congrArg (·.unit.code) built, accepted, decoded Payload.sha256⟩

end Build

end ProtoVM
