import ProtoVM.Bytecode.Code
import ProtoVM.Value

/-!
# Code units

A code unit is the compiled body of one function: its name and parameters, a pool of constants,
and the code that refers to them. Units are built by appending constants and instructions; an
equal constant already in the pool is used again.
-/

namespace ProtoVM

/-- An entry of a constant pool. -/
inductive Constant where
  | int (i : Int64)
  | float (x : Binary64)
  | str (s : String)
  | bool (b : Bool)
  | undefined
deriving DecidableEq

namespace Constant

/-- Equality of pool entries: entries of different kinds differ, and two floating-point numbers
are compared as numbers, so the zeros are equal and a NaN is not. -/
def equals : Constant → Constant → Bool
  | int a, int b => a == b
  | float a, float b => a.equals b
  | str a, str b => a == b
  | bool a, bool b => a == b
  | undefined, undefined => true
  | _, _ => false

/-- The value that loading the constant pushes. -/
def toValue : Constant → Value
  | int i => .int i
  | float x => .float x
  | str s => .str s
  | bool b => .bool b
  | undefined => .undefined

def asString? : Constant → Option String
  | str s => some s
  | _ => none

def typeName : Constant → String
  | int _ => "Int"
  | float _ => "Float"
  | str _ => "Str"
  | bool _ => "Bool"
  | undefined => "Undefined"

end Constant

/-- The compiled body of a function. -/
structure CodeUnit where
  name : String
  parameters : List String
  constants : List Constant
  code : Code
deriving DecidableEq

namespace CodeUnit

/-- A unit without constants and code. -/
def empty (name : String) (parameters : List String) : CodeUnit := ⟨name, parameters, [], []⟩

/-- The string at a pool index. -/
def stringAt? (u : CodeUnit) (index : Nat) : Option String :=
  u.constants[index]?.bind Constant.asString?

/-- Puts a constant into the pool unless an equal one is there, and answers its index
(`add_constant`). -/
def intern (u : CodeUnit) (c : Constant) : CodeUnit × Nat :=
  match u.constants.findIdx? (·.equals c) with
  | some index => (u, index)
  | none => ({ u with constants := u.constants ++ [c] }, u.constants.length)

/-- Puts a string into the pool (`add_name`). -/
def internString (u : CodeUnit) (name : String) : CodeUnit × Nat := u.intern (.str name)

/-- Appends bytes to the code. -/
def append (u : CodeUnit) (code : Code) : CodeUnit := { u with code := u.code ++ code }

/-- Appends an instruction and answers its offset. -/
def emit (u : CodeUnit) (op : Opcode) (operands : List Nat) : CodeUnit × Nat :=
  (u.append (Code.instruction op operands), u.code.length)

/-- Overwrites the two operand bytes of the jump at an offset, first the high and then the low one,
and answers whether both lie in the code (`patch_jump`). A byte outside the code is not written. -/
def retarget (u : CodeUnit) (offset target : Nat) : CodeUnit × Bool :=
  let high := u.code.set (offset + 1) (UInt8.ofNat (target >>> 8))
  ({ u with code := high.set (offset + 2) (UInt8.ofNat target) },
    decide (offset + 2 < u.code.length))

/-- Equality of units, constants compared with `Constant.equals`. -/
def equals (u v : CodeUnit) : Bool :=
  u.name == v.name && u.parameters == v.parameters
    && u.constants.length == v.constants.length
    && (u.constants.zip v.constants).all (fun (a, b) => a.equals b)
    && u.code == v.code

end CodeUnit

end ProtoVM
