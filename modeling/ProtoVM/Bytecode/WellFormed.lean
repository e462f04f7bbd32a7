import ProtoVM.Error

/-!
# The code check

A unit is accepted when its code is a sequence of complete instructions whose operands are in
range: constants are in the pool, names are strings, and jumps land on an instruction or at the
end of the code. The first instruction with a fault of its own is reported; jump targets are
judged only when there is none.
-/

namespace ProtoVM

/-- A jump found in code. -/
structure FoundJump where
  offset : Nat
  target : Nat
deriving DecidableEq

/-- Where the instructions of a piece of code start, and the jumps among them. -/
structure CodeMap where
  starts : List Nat
  jumps : List FoundJump
deriving DecidableEq

namespace CodeUnit

/-- What is wrong with the constant that an operand refers to. -/
def operandFault? (u : CodeUnit) (op : Opcode) (operand : Nat) : Option CodeFault :=
  if op = .constant then
    if operand < u.constants.length then none else some (.constantOutOfRange operand)
  else if op.isNaming then
    match u.constants[operand]? with
    | some (.str _) => none
    | some found => some (.notAString op found)
    | none => some (.constantOutOfRange operand)
  else none

/-- Walks the code from one instruction to the next, up to the first fault. -/
def mapFrom (u : CodeUnit) (offset : Nat) : Code → Except (Nat × CodeFault) CodeMap
  | [] => .ok ⟨[], []⟩
  | byte :: rest =>
    match Opcode.ofByte? byte with
    | none => .error (offset, .unknownOpcode byte)
    | some op =>
      let width := op.length - 1
      let bytes := rest.take width
      if bytes.length < width then .error (offset, .truncatedOperands op)
      else
        let operand := Code.ofBigEndian bytes
        match u.operandFault? op operand with
        | some fault => .error (offset, fault)
        | none =>
          match u.mapFrom (offset + op.length) (rest.drop width) with
          | .error e => .error e
          | .ok map =>
            .ok ⟨offset :: map.starts,
              if op.isJump then ⟨offset, operand⟩ :: map.jumps else map.jumps⟩
termination_by code => code.length
decreasing_by simp only [List.length_drop, List.length_cons]; omega

/-- The first jump that lands neither on a start nor at the end. -/
def badJump? (map : CodeMap) (length : Nat) : Option FoundJump :=
  map.jumps.find? fun jump => !(jump.target = length || map.starts.contains jump.target)

/-- Accepts the unit or reports its first fault with the offset of the instruction
(`verify_code`). -/
def check (u : CodeUnit) : Except LoadError Unit :=
  match u.mapFrom 0 u.code with
  | .error (offset, fault) => .error (.malformedCode u.name offset fault)
  | .ok map =>
    match badJump? map u.code.length with
    | some jump => .error (.malformedCode u.name jump.offset (.badJumpTarget jump.target))
    | none => .ok ()

end CodeUnit

end ProtoVM
