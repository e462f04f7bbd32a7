import ProtoVM.Bytecode.Unit

/-!
# Failures

What can go wrong while a payload is read and bound, and while objects are called. Each failure
names its cause; its wording is in one `message` function.
-/

namespace ProtoVM

/-- What is wrong with an instruction of a unit. -/
inductive CodeFault where
  | unknownOpcode (byte : UInt8)
  | truncatedOperands (op : Opcode)
  | constantOutOfRange (index : Nat)
  /-- The opcode names something by a constant that is not a string. -/
  | notAString (op : Opcode) (found : Constant)
  /-- The jump lands inside an instruction or past the end. -/
  | badJumpTarget (target : Nat)
deriving DecidableEq

def CodeFault.message : CodeFault → String
  | unknownOpcode byte => s!"unknown opcode {byte.toNat}"
  | truncatedOperands op => s!"truncated operands for {op.mnemonic}"
  | constantOutOfRange index => s!"constant {index} out of range"
  | notAString op found =>
    s!"{op.mnemonic} expects a string constant, found {found.typeName}"
  | badJumpTarget target => s!"jump target {target} is not an instruction boundary"

/-- Why a unit was not loaded. -/
inductive LoadError where
  | truncated
  | badMagic
  | unsupportedVersion (version : Nat)
  | checksumMismatch
  | invalidConstantTag (tag : UInt8)
  | invalidUtf8
  | trailingBytes (count : Nat)
  | malformedCode (unit : String) (offset : Nat) (fault : CodeFault)
  | duplicateUnit (id : String)
  | signatureMismatch (id : String) (expected found : Nat)
deriving DecidableEq

def LoadError.message : LoadError → String
  | truncated => "payload is truncated"
  | badMagic => "payload does not start with the unit magic"
  | unsupportedVersion version => s!"unsupported payload format version {version}"
  | checksumMismatch => "payload checksum mismatch"
  | invalidConstantTag tag => s!"invalid constant tag {tag.toNat}"
  | invalidUtf8 => "payload contains invalid utf-8"
  | trailingBytes count => s!"{count} unexpected bytes after the unit body"
  | malformedCode unit offset fault =>
    s!"malformed code in unit `{unit}` at {offset}: {fault.message}"
  | duplicateUnit id => s!"unit `{id}` is already loaded in this session"
  | signatureMismatch id expected found =>
    s!"unit `{id}` takes {found} parameters but the dictionary declares {expected}"

/-- Whether a property was to be read or written. -/
inductive PropertyAccess where
  | read
  | write
deriving DecidableEq

def PropertyAccess.verb : PropertyAccess → String
  | read => "read"
  | write => "write"

/-- What stops running code. -/
inductive Fault where
  | unknownOpcode (byte : UInt8)
  | notAName (index : Nat)
  | stackOverflow
  | stackUnderflow
  | integerOverflow
  | callDepth (limit : Nat)
  | propertyOf (access : PropertyAccess) (key : String) (found : ValueType)
  | badPrototype (found : ValueType)
  | notLoaded (id : String)
  | operandTypes (op : Opcode) (left right : ValueType)
  | incomparable (left right : ValueType)
deriving DecidableEq

def Fault.message : Fault → String
  | unknownOpcode byte => s!"unknown opcode {byte.toNat}"
  | notAName index => s!"constant {index} is not a name"
  | stackOverflow => "stack overflow"
  | stackUnderflow => "stack underflow"
  | integerOverflow => "integer overflow"
  | callDepth limit => s!"maximum call depth {limit} exceeded"
  | propertyOf access key found => s!"cannot {access.verb} property `{key}` of {found.name}"
  | badPrototype found => s!"prototype must be an object or undefined, found {found.name}"
  | notLoaded id => s!"function `{id}` is not loaded"
  | operandTypes op left right =>
    s!"unsupported operand types for {op.mnemonic}: {left.name} and {right.name}"
  | incomparable left right => s!"cannot compare {left.name} and {right.name}"

mutual

/-- Why a call failed. -/
inductive RuntimeError where
  /-- Code of a unit was stopped. -/
  | fault (f : Fault)
  /-- A native function failed, with the error behind it, if there is one. -/
  | failure (message : String) (cause : Option HostError)
  | arityMismatch (got expected : Nat)
  | notInvocable

/-- An error as a native function hands it over (`BoxError`). -/
inductive HostError where
  /-- An error of a call, passed on unchanged. -/
  | runtime (e : RuntimeError)
  /-- Any other error. -/
  | foreign (error : ForeignError)

/-- An error of a type of the host's own. -/
structure ForeignError where
  text : String
  /-- The error behind it. -/
  source : Option HostError := none
  /-- Which of all the host's errors it is. -/
  identity : Nat := 0

end

mutual

/-- Errors are compared with all that is behind them. -/
def RuntimeError.decEq : (a b : RuntimeError) → Decidable (a = b)
  | .fault f, .fault g => decidable_of_iff (f = g) (by simp)
  | .failure message none, .failure message' none =>
    decidable_of_iff (message = message') (by simp)
  | .failure message (some cause), .failure message' (some cause') =>
    have := cause.decEq cause'
    decidable_of_iff (message = message' ∧ cause = cause') (by simp)
  | .arityMismatch got expected, .arityMismatch got' expected' =>
    decidable_of_iff (got = got' ∧ expected = expected') (by simp)
  | .notInvocable, .notInvocable => isTrue rfl
  | .failure _ none, .failure _ (some _) | .failure _ (some _), .failure _ none => isFalse nofun
  | .fault _, .failure .. | .fault _, .arityMismatch .. | .fault _, .notInvocable
  | .failure .., .fault _ | .failure .., .arityMismatch .. | .failure .., .notInvocable
  | .arityMismatch .., .fault _ | .arityMismatch .., .failure .. | .arityMismatch .., .notInvocable
  | .notInvocable, .fault _ | .notInvocable, .failure .. | .notInvocable, .arityMismatch .. =>
    isFalse nofun

def HostError.decEq : (a b : HostError) → Decidable (a = b)
  | .runtime e, .runtime e' =>
    have := e.decEq e'
    decidable_of_iff (e = e') (by simp)
  | .foreign error, .foreign error' =>
    have := error.decEq error'
    decidable_of_iff (error = error') (by simp)
  | .runtime _, .foreign _ | .foreign _, .runtime _ => isFalse nofun

def ForeignError.decEq : (a b : ForeignError) → Decidable (a = b)
  | ⟨text, none, identity⟩, ⟨text', none, identity'⟩ =>
    decidable_of_iff (text = text' ∧ identity = identity') (by simp)
  | ⟨text, some source, identity⟩, ⟨text', some source', identity'⟩ =>
    have := source.decEq source'
    decidable_of_iff (text = text' ∧ source = source' ∧ identity = identity') (by simp)
  | ⟨_, none, _⟩, ⟨_, some _, _⟩ | ⟨_, some _, _⟩, ⟨_, none, _⟩ => isFalse nofun

end

instance : DecidableEq RuntimeError := RuntimeError.decEq

instance : DecidableEq ForeignError := ForeignError.decEq

/-- A text alone stands for an error with nothing behind it. -/
instance : Coe String ForeignError := ⟨fun text => { text }⟩

namespace RuntimeError

def message : RuntimeError → String
  | fault f => f.message
  | failure message _ => message
  | arityMismatch got expected => s!"arguments doesn't match parameters count {got} {expected}"
  | notInvocable => "can not be invoked"

/-- The error behind a failure. -/
def source? : RuntimeError → Option HostError
  | failure _ cause => cause
  | _ => none

/-- What an error of native code becomes (`from_native`): an error of a call is passed on, any other
one becomes a failure with its text, and with the error itself as the cause. -/
def ofHost : HostError → RuntimeError
  | .runtime e => e
  | .foreign error => .failure error.text (some (.foreign error))

end RuntimeError

def HostError.message : HostError → String
  | runtime e => e.message
  | foreign error => error.text

/-- The text of the error behind a failure. -/
def RuntimeError.cause? (e : RuntimeError) : Option String := e.source?.map (·.message)

/-- A computation that succeeds has succeeded in its first part. -/
theorem exists_of_bind_eq_ok {ε α β : Type} {x : Except ε α} {f : α → Except ε β} {b : β}
    (h : x >>= f = .ok b) : ∃ a, x = .ok a ∧ f a = .ok b := by
  cases x with
  | error e => cases h
  | ok a => exact ⟨a, rfl, h⟩

end ProtoVM
