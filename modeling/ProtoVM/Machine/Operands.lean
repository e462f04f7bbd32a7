import ProtoVM.Value

/-!
# Operand stacks

The operands of one activation, latest first. The height is kept beside them, so that pushing does
not have to count.
-/

namespace ProtoVM

/-- The operands of an activation (`OperandStack`). -/
structure Operands where
  /-- Latest first. -/
  values : List Value
  height : Nat
  height_eq : height = values.length

namespace Operands

def empty : Operands := ⟨[], 0, rfl⟩

/-- Adds an operand, unless there are as many as a limit allows. -/
def push? (s : Operands) (limit : Nat) (v : Value) : Option Operands :=
  if limit ≤ s.height then none
  else some ⟨v :: s.values, s.height + 1, by simp [s.height_eq]⟩

/-- Takes the latest operand. -/
def pop? : Operands → Option (Value × Operands)
  | ⟨[], _, _⟩ => none
  | ⟨v :: vs, height, eq⟩ => some (v, ⟨vs, height - 1, by rw [eq]; rfl⟩)

/-- Takes a number of operands, in the order they were pushed (`pop_n`). -/
def popMany? (s : Operands) (count : Nat) : Option (List Value × Operands) :=
  if s.height < count then none
  else
    some ((s.values.take count).reverse,
      ⟨s.values.drop count, s.height - count, by simp [s.height_eq]⟩)

/-- The latest operand (`peek`). -/
def top? (s : Operands) : Option Value := s.values.head?

end Operands

end ProtoVM
