import ProtoVM.Number.Decimal

/-!
# Values

What properties hold, calls pass and the operand stack carries. Integers and floating-point
numbers are separate kinds of value that are equal exactly when they stand for the same number;
objects are equal when they are the same object.
-/

namespace ProtoVM

/-- Names an object of a heap. -/
abbrev ObjectId := Nat

inductive Value where
  /-- Stands for a missing binding. -/
  | undefined
  | bool (b : Bool)
  | int (i : Int64)
  | float (x : Binary64)
  | str (s : String)
  | object (o : ObjectId)
deriving DecidableEq

/-- The types that programs and messages tell apart. -/
inductive ValueType where
  | undefined
  | boolean
  | number
  | string
  | function
  | object
deriving DecidableEq

namespace ValueType

def name : ValueType → String
  | undefined => "undefined"
  | boolean => "boolean"
  | number => "number"
  | string => "string"
  | function => "function"
  | object => "object"

end ValueType

namespace Value

/-- Everything but `false` and `undefined` counts as true (`is_truthy`). -/
def truthy : Value → Bool
  | undefined => false
  | bool b => b
  | _ => true

def isUndefined : Value → Bool
  | undefined => true
  | _ => false

def asInt? : Value → Option Int64
  | int i => some i
  | _ => none

def asObject? : Value → Option ObjectId
  | object o => some o
  | _ => none

/-- Equality as programs see it. Numbers are compared exactly, so a NaN equals nothing and an
integer equals a floating-point number only when no digit of either is lost. -/
def equals : Value → Value → Bool
  | undefined, undefined => true
  | bool a, bool b => a == b
  | int a, int b => a == b
  | float a, float b => a.equals b
  | int a, float b => b.equalsInt a
  | float a, int b => a.equalsInt b
  | str a, str b => a == b
  | object a, object b => a == b
  | _, _ => false

/-- The type of a value; an object that can be called is a function. -/
def type (invocable : ObjectId → Bool) : Value → ValueType
  | undefined => .undefined
  | bool _ => .boolean
  | int _ => .number
  | float _ => .number
  | str _ => .string
  | object o => if invocable o then .function else .object

/-- The text of a value; objects are shown by a function of their own. -/
def text (objectText : ObjectId → String) : Value → String
  | undefined => "undefined"
  | bool true => "true"
  | bool false => "false"
  | int i => toString i.toInt
  | float x => x.text
  | str s => s
  | object o => objectText o

/-- The floating-point number nearest to a numeric value (`as_float`). -/
def asFloat? : Value → Option Binary64
  | int i => some (Binary64.ofInt i.toInt)
  | float x => some x
  | _ => none

end Value

end ProtoVM
