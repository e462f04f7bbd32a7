import ProtoVM.Error
import ProtoVM.Object.Render

/-!
# Operations on values

What the arithmetic and comparing instructions compute. Two integers are kept exact and fail on
overflow; any other two numbers are computed as floating-point numbers; adding a string to
anything appends texts.
-/

namespace ProtoVM.Operation

/-- An integer of 64 bits with sign, unless it is out of range. -/
def checked (i : Int) : Except Fault Value :=
  if Int64.minValue.toInt ≤ i ∧ i ≤ Int64.maxValue.toInt then .ok (.int (Int64.ofInt i))
  else .error .integerOverflow

/-- The arithmetic of integers for `add`, `sub` and `mul`. -/
def onInts (op : Opcode) (a b : Int) : Int :=
  match op with
  | .add => a + b
  | .sub => a - b
  | _ => a * b

/-- The arithmetic of floating-point numbers for `add`, `sub` and `mul`. -/
def onFloats (op : Opcode) (a b : Binary64) : Binary64 :=
  match op with
  | .add => a.add b
  | .sub => a.sub b
  | _ => a.mul b

/-- The arithmetic of two values read as floating-point numbers. -/
def numeric (h : Heap) (op : Opcode) (left right : Value) : Except Fault Value :=
  match left.asFloat?, right.asFloat? with
  | some a, some b => .ok (.float (onFloats op a b))
  | _, _ => .error (.operandTypes op (h.typeOf left) (h.typeOf right))

/-- The result of `add`, `sub` or `mul`. -/
def arithmetic (h : Heap) (op : Opcode) (left right : Value) : Except Fault Value :=
  match left, right with
  | .int a, .int b => checked (onInts op a.toInt b.toInt)
  | .str a, right =>
    if op = .add then .ok (.str (a ++ h.text right)) else numeric h op (.str a) right
  | left, .str b =>
    if op = .add then .ok (.str (h.text left ++ b)) else numeric h op left (.str b)
  | left, right => numeric h op left right

/-- The result of `lessThan` (`less_than`). -/
def lessThan (h : Heap) (left right : Value) : Except Fault Bool :=
  match left, right with
  | .int a, .int b => .ok (decide (a < b))
  | .str a, .str b => .ok (decide (a < b))
  | left, right =>
    match left.asFloat?, right.asFloat? with
    | some a, some b => .ok (a.less b)
    | _, _ => .error (.incomparable (h.typeOf left) (h.typeOf right))

end ProtoVM.Operation
