/-!
# Opcodes

The instruction set of code units. An instruction is one opcode byte followed by its operands,
whose widths in bytes depend on the opcode alone.
-/

namespace ProtoVM

/-- The operations of the stack machine. -/
inductive Opcode where
  /-- Pushes a constant of the pool. -/
  | constant
  /-- Pushes `undefined`. -/
  | undefined
  /-- Pushes the receiver of the call. -/
  | receiver
  /-- Pushes what a name is bound to. -/
  | getName
  /-- Binds a name in the scope of the call. -/
  | setName
  /-- Binds a name in the global object. -/
  | setGlobal
  /-- Replaces an object by one of its properties. -/
  | getProperty
  /-- Sets a property of an object. -/
  | setProperty
  /-- Replaces a prototype by a new object that delegates to it. -/
  | newObject
  /-- Pushes the function loaded under an identifier. -/
  | function
  /-- Calls a function with a receiver and arguments. -/
  | call
  | pop
  | dup
  | add
  | sub
  | mul
  | lessThan
  | equal
  | not
  | jump
  | jumpIfFalse
  /-- Ends the call with the top of the stack. -/
  | ret
deriving DecidableEq

namespace Opcode

/-- The byte that stands for an opcode. -/
def byte : Opcode → UInt8
  | constant => 0
  | undefined => 1
  | receiver => 2
  | getName => 3
  | setName => 4
  | setGlobal => 5
  | getProperty => 6
  | setProperty => 7
  | newObject => 8
  | function => 9
  | call => 10
  | pop => 11
  | dup => 12
  | add => 13
  | sub => 14
  | mul => 15
  | lessThan => 16
  | equal => 17
  | not => 18
  | jump => 19
  | jumpIfFalse => 20
  | ret => 21

/-- The opcodes in the order of their bytes. -/
def all : List Opcode :=
  [constant, undefined, receiver, getName, setName, setGlobal, getProperty, setProperty, newObject,
   function, call, pop, dup, add, sub, mul, lessThan, equal, not, jump, jumpIfFalse, ret]

/-- The opcode a byte stands for. -/
def ofByte? (b : UInt8) : Option Opcode := all[b.toNat]?

@[simp] theorem ofByte?_byte (op : Opcode) : ofByte? op.byte = some op := by cases op <;> rfl

/-- The name shown in listings and messages. -/
def mnemonic : Opcode → String
  | constant => "OpConstant"
  | undefined => "OpUndefined"
  | receiver => "OpReceiver"
  | getName => "OpGetName"
  | setName => "OpSetName"
  | setGlobal => "OpSetGlobal"
  | getProperty => "OpGetProperty"
  | setProperty => "OpSetProperty"
  | newObject => "OpNewObject"
  | function => "OpFunction"
  | call => "OpCall"
  | pop => "OpPop"
  | dup => "OpDup"
  | add => "OpAdd"
  | sub => "OpSub"
  | mul => "OpMul"
  | lessThan => "OpLessThan"
  | equal => "OpEqual"
  | not => "OpNot"
  | jump => "OpJump"
  | jumpIfFalse => "OpJumpIfFalse"
  | ret => "OpReturn"

/-- The opcode of a given name. -/
def ofMnemonic? (name : String) : Option Opcode := all.find? (·.mnemonic = name)

/-- The operand, if there is one, is the pool index of a string that names something: a binding, a
property or a function (`takes_name_operand`). -/
def isNaming : Opcode → Bool
  | getName | setName | setGlobal | getProperty | setProperty | function => true
  | _ => false

/-- The operand is a code offset to continue at. -/
def isJump : Opcode → Bool
  | jump | jumpIfFalse => true
  | _ => false

/-- The widths of the operands in bytes, in order (`operand_widths`). -/
def operandWidths : Opcode → List Nat
  | constant | getName | setName | setGlobal | getProperty | setProperty | function | jump
  | jumpIfFalse => [2]
  | call => [1]
  | _ => []

/-- The size of a whole instruction in bytes (`instruction_len`). -/
def length (op : Opcode) : Nat := 1 + op.operandWidths.foldl (· + ·) 0

theorem length_pos (op : Opcode) : 0 < op.length := by unfold length; omega

end Opcode

end ProtoVM
