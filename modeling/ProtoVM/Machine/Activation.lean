import ProtoVM.Machine.Operands
import ProtoVM.Machine.Operation
import ProtoVM.Session.World

/-!
# Activations

An activation is one call into a unit while it is under way: the scope of its bindings, where it
stands in the code, and its operands. `step` carries out one instruction and says how to go on.
-/

namespace ProtoVM

/-- Why a call does not return a value. -/
inductive Interrupt where
  | error (e : RuntimeError)
  /-- Something was used that does not exist; nothing can handle this. -/
  | crash
deriving DecidableEq

/-- How instructions that read a property look it up. -/
inductive PropertyReads where
  /-- Through the property cache of the instruction. -/
  | cached
  /-- Along the chain of prototypes every time. -/
  | direct
deriving DecidableEq

/-- A call into a unit that is under way (`execute`). -/
structure Activation where
  unit : BoundUnit
  /-- The operands the call may hold at a time. -/
  stackLimit : Nat
  dictionary : DictionaryId
  global : ObjectId
  receiver : Value
  /-- The object that holds the bindings of the call. -/
  scope : ObjectId
  /-- The offset of the next instruction. -/
  ip : Nat
  stack : Operands

/-- How an activation goes on after an instruction. -/
inductive Effect where
  | next (a : Activation)
  /-- The activation waits for a call, whose result it takes as an operand. -/
  | call (a : Activation) (callee : ObjectId) (receiver : Value) (args : List Value)
  | finish (result : Except Interrupt Value)

namespace Activation

/-- The code that is run. -/
def code (a : Activation) : Code := a.unit.unit.code

def fault {α : Type} (f : Fault) : Except Interrupt α := .error (.error (.fault f))

/-! ## Operands -/

def push (a : Activation) (v : Value) : Except Interrupt Activation :=
  match a.stack.push? a.stackLimit v with
  | some stack => .ok { a with stack }
  | none => fault .stackOverflow

def pop (a : Activation) : Except Interrupt (Value × Activation) :=
  match a.stack.pop? with
  | some (v, stack) => .ok (v, { a with stack })
  | none => fault .stackUnderflow

/-- Takes a number of operands, in the order they were pushed. -/
def popMany (a : Activation) (count : Nat) : Except Interrupt (List Value × Activation) :=
  match a.stack.popMany? count with
  | some (vs, stack) => .ok (vs, { a with stack })
  | none => fault .stackUnderflow

def top (a : Activation) : Except Interrupt Value :=
  match a.stack.top? with
  | some v => .ok v
  | none => fault .stackUnderflow

/-! ## Operands in the code -/

/-- The number in the bytes after the opcode. -/
def operand (a : Activation) (width : Nat) : Except Interrupt Nat :=
  match a.code.operandAt? (a.ip + 1) width with
  | some n => .ok n
  | none => .error .crash

/-- The constant that the operand refers to. -/
def constant (a : Activation) : Except Interrupt Value := do
  match a.unit.unit.constants[← a.operand 2]? with
  | some c => return c.toValue
  | none => throw .crash

/-- The name that the operand refers to (`name_operand`). -/
def name (a : Activation) : Except Interrupt String := do
  let index ← a.operand 2
  match a.unit.unit.stringAt? index with
  | some s => return s
  | none => fault (.notAName index)

/-- Moves on past an instruction. -/
def advance (a : Activation) (op : Opcode) : Activation := { a with ip := a.ip + op.length }

/-- Moves on past an instruction that leaves an operand. -/
def pushNext (a : Activation) (op : Opcode) (v : Value) : Except Interrupt Effect := do
  return .next ((← a.push v).advance op)

/-- The object whose property is accessed (`expect_object`). -/
def expectObject (h : Heap) (access : PropertyAccess) (key : String) (v : Value) :
    Except Interrupt ObjectId :=
  match v with
  | .object o => .ok o
  | v => fault (.propertyOf access key (h.typeOf v))

/-- The prototype of a new object. -/
def expectProto (h : Heap) (v : Value) : Except Interrupt (Option ObjectId) :=
  match v with
  | .undefined => .ok none
  | .object o => .ok (some o)
  | v => fault (.badPrototype (h.typeOf v))

/-! ## Instructions

What each instruction takes from the activation, and what it makes of it. -/

/-- Pushes what a name is bound to in the scope, or further out. -/
def readName (a : Activation) (h : Heap) (op : Opcode) : Except Interrupt Effect := do
  let key ← a.name
  a.pushNext op (h.lookup a.scope key)

/-- Pushes the function that an identifier is bound to at this time. -/
def readFunction (a : Activation) (d : Dictionary) (op : Opcode) : Except Interrupt Effect := do
  let id ← a.name
  match d.resolve? id with
  | some o => a.pushNext op (.object o)
  | none => fault (.notLoaded id)

/-- Takes the arguments, the receiver and the callee of a call. -/
def callFrom (a : Activation) (op : Opcode) : Except Interrupt Effect := do
  let count ← a.operand 1
  let (args, a) ← a.popMany count
  let (receiver, a) ← a.pop
  let (callee, a) ← a.pop
  match callee with
  | .object o => return .call (a.advance op) o receiver args
  | _ => throw (.error .notInvocable)

/-- Drops an operand. -/
def dropNext (a : Activation) (op : Opcode) : Except Interrupt Effect := do
  let (_, a) ← a.pop
  return .next (a.advance op)

/-- Replaces an operand by what a function makes of it. -/
def unary (a : Activation) (op : Opcode) (f : Value → Value) : Except Interrupt Effect := do
  let (v, a) ← a.pop
  a.pushNext op (f v)

/-- Replaces two operands by what a function makes of them. -/
def binary (a : Activation) (op : Opcode) (f : Value → Value → Except Fault Value) :
    Except Interrupt Effect := do
  let (right, a) ← a.pop
  let (left, a) ← a.pop
  match f left right with
  | .ok v => a.pushNext op v
  | .error e => fault e

/-- Goes on at the offset that the operand names. -/
def jump (a : Activation) : Except Interrupt Effect := do
  return .next { a with ip := ← a.operand 2 }

/-- Jumps unless the operand counts as true. -/
def jumpUnless (a : Activation) (op : Opcode) : Except Interrupt Effect := do
  let (condition, a) ← a.pop
  if condition.truthy then return .next (a.advance op) else a.jump

/-- Ends with an operand. -/
def ret (a : Activation) : Except Interrupt Effect := do
  let (v, _) ← a.pop
  return .finish (.ok v)

/-- A key and a value to set it to. -/
def binding (a : Activation) : Except Interrupt (String × Value × Activation) := do
  let key ← a.name
  let (v, a) ← a.pop
  return (key, v, a)

/-- The object and the key of a property that is read. -/
def readTarget (a : Activation) (h : Heap) : Except Interrupt (String × ObjectId × Activation) := do
  let key ← a.name
  let (v, a) ← a.pop
  return (key, ← expectObject h .read key v, a)

/-- The object and the key of a property that is written, and the value. -/
def writeTarget (a : Activation) (h : Heap) :
    Except Interrupt (String × ObjectId × Value × Activation) := do
  let key ← a.name
  let (value, a) ← a.pop
  let (target, a) ← a.pop
  return (key, ← expectObject h .write key target, value, a)

/-- The prototype of an object to be made. -/
def protoTarget (a : Activation) (h : Heap) : Except Interrupt (Option ObjectId × Activation) := do
  let (v, a) ← a.pop
  return (← expectProto h v, a)

/-- An effect, where an interrupt ends the activation. -/
def settle : Except Interrupt Effect → Effect
  | .ok effect => effect
  | .error i => .finish (.error i)

/-- Reads a property for the instruction at the current offset. -/
def readProperty (a : Activation) (reads : PropertyReads) (w : World) (o : ObjectId)
    (key : String) : Value × World :=
  match reads, w.unitCache? a.unit a.ip with
  | .cached, some cache =>
    let (v, cache) := cache.lookup w.heap o
    (v, w.setUnitCache a.unit a.ip cache)
  | _, _ => (w.heap.lookup o key, w)

/-- Carries out one instruction. -/
def execute (a : Activation) (reads : PropertyReads) (w : World) (op : Opcode) : Effect × World :=
  match op with
  | .constant => (settle (a.constant.bind (a.pushNext op)), w)
  | .undefined => (settle (a.pushNext op .undefined), w)
  | .receiver => (settle (a.pushNext op a.receiver), w)
  | .getName => (settle (a.readName w.heap op), w)
  | .setName =>
    match a.binding with
    | .error i => (.finish (.error i), w)
    | .ok (key, v, b) => (.next (b.advance op), w.mapHeap (·.set a.scope key v))
  | .setGlobal =>
    match a.binding with
    | .error i => (.finish (.error i), w)
    | .ok (key, v, b) => (.next (b.advance op), w.mapHeap (·.set a.global key v))
  | .getProperty =>
    match a.readTarget w.heap with
    | .error i => (.finish (.error i), w)
    | .ok (key, o, b) =>
      let (v, w) := a.readProperty reads w o key
      (settle (b.pushNext op v), w)
  | .setProperty =>
    match a.writeTarget w.heap with
    | .error i => (.finish (.error i), w)
    | .ok (key, o, v, b) => (.next (b.advance op), w.mapHeap (·.set o key v))
  | .newObject =>
    match a.protoTarget w.heap with
    | .error i => (.finish (.error i), w)
    | .ok (proto, b) =>
      let (o, w) := w.allocWith (·.newObject proto)
      (settle (b.pushNext op (.object o)), w)
  | .function => (settle (a.readFunction (w.dictionary a.dictionary) op), w)
  | .call => (settle (a.callFrom op), w)
  | .pop => (settle (a.dropNext op), w)
  | .dup => (settle (a.top.bind (a.pushNext op)), w)
  | .add | .sub | .mul => (settle (a.binary op (Operation.arithmetic w.heap op)), w)
  | .lessThan =>
    (settle (a.binary op fun left right => (Operation.lessThan w.heap left right).map .bool), w)
  | .equal => (settle (a.binary op fun left right => .ok (.bool (left.equals right))), w)
  | .not => (settle (a.unary op fun v => .bool !v.truthy), w)
  | .jump => (settle a.jump, w)
  | .jumpIfFalse => (settle (a.jumpUnless op), w)
  | .ret => (settle a.ret, w)

/-- Carries out the instruction at the current offset; at the end of the code the result is
`undefined`. -/
def step (a : Activation) (reads : PropertyReads) (w : World) : Effect × World :=
  match a.code[a.ip]? with
  | none => (.finish (.ok .undefined), w)
  | some byte =>
    match Opcode.ofByte? byte with
    | none => (.finish (fault (.unknownOpcode byte)), w)
    | some op => a.execute reads w op

/-- Starts a call into a unit: its scope is made inside the global object, and the receiver and
the parameters are bound in it. -/
def start (unit : BoundUnit) (loader : Loader) (receiver : Value) (args : List Value) (w : World) :
    Activation × World :=
  let (scope, w) := w.allocWith (·.newScope (some loader.global))
  let bindings := ("this", receiver) :: unit.unit.parameters.zip args
  let a : Activation :=
    { unit
      stackLimit := loader.config.maxStack.toNat
      dictionary := loader.dictionary
      global := loader.global
      receiver
      scope
      ip := 0
      stack := .empty }
  (a, w.mapHeap (·.setAll scope bindings))

end Activation

end ProtoVM
