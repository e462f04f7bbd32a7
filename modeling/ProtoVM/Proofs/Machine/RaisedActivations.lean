import ProtoVM.Proofs.Machine.Instructions
import ProtoVM.Proofs.Session.RaisedLimits

/-!
# Activations with raised limits

A call that has not run out of room for its operands goes on in the same way when more of them are
allowed. The limit is looked at in one place only, before an operand is pushed.
-/

namespace ProtoVM

open World (Echoes)

namespace Activation

/-- The same call with a limit of operands at least as high. -/
def Raised (a b : Activation) : Prop :=
  ∃ stackLimit, a.stackLimit ≤ stackLimit ∧ b = { a with stackLimit }

/-- The second computation goes as the first does, unless the first has no room for an operand. -/
inductive Retraces {α : Type} (R : α → α → Prop) : Except Interrupt α → Except Interrupt α → Prop
  | full (y : Except Interrupt α) : Retraces R (fault .stackOverflow) y
  | ok {x y : α} (related : R x y) : Retraces R (.ok x) (.ok y)
  | error (i : Interrupt) : Retraces R (.error i) (.error i)

theorem Retraces.bind {α β : Type} {R : α → α → Prop} {S : β → β → Prop}
    {x y : Except Interrupt α} {f g : α → Except Interrupt β} (first : Retraces R x y)
    (later : ∀ u v, R u v → Retraces S (f u) (g v)) : Retraces S (x >>= f) (y >>= g) := by
  cases first with
  | full y => exact .full _
  | ok related => exact later _ _ related
  | error i => exact .error i

/-- What does not depend on limits. -/
theorem Retraces.same {α : Type} (x : Except Interrupt α) : Retraces Eq x x := by
  cases x with
  | error i => exact .error i
  | ok v => exact .ok rfl

variable {a b : Activation} {op : Opcode}

section

variable (raised : a.Raised b)
include raised

theorem Raised.push (v : Value) : Retraces Raised (a.push v) (b.push v) := by
  obtain ⟨limit, le, rfl⟩ := raised
  unfold Activation.push Operands.push?
  by_cases full : a.stackLimit ≤ a.stack.height
  · rw [if_pos full]
    exact .full _
  · have room : ¬ limit ≤ a.stack.height := fun h => full (Nat.le_trans le h)
    dsimp only
    rw [if_neg full, if_neg room]
    exact .ok ⟨limit, le, rfl⟩

theorem Raised.pop :
    Retraces (fun r s => r.1 = s.1 ∧ r.2.Raised s.2) a.pop b.pop := by
  obtain ⟨limit, le, rfl⟩ := raised
  unfold Activation.pop
  dsimp only
  cases a.stack.pop? with
  | none => exact .error _
  | some r => exact .ok ⟨rfl, limit, le, rfl⟩

theorem Raised.popMany (count : Nat) :
    Retraces (fun r s => r.1 = s.1 ∧ r.2.Raised s.2) (a.popMany count) (b.popMany count) := by
  obtain ⟨limit, le, rfl⟩ := raised
  unfold Activation.popMany
  dsimp only
  cases a.stack.popMany? count with
  | none => exact .error _
  | some r => exact .ok ⟨rfl, limit, le, rfl⟩

theorem Raised.advance (op : Opcode) : (a.advance op).Raised (b.advance op) := by
  obtain ⟨limit, le, rfl⟩ := raised
  exact ⟨limit, le, rfl⟩

/-- The code is read alike. -/
theorem Raised.operand (width : Nat) : b.operand width = a.operand width := by
  obtain ⟨limit, -, rfl⟩ := raised
  rfl

theorem Raised.name : b.name = a.name := by
  obtain ⟨limit, -, rfl⟩ := raised
  rfl

theorem Raised.unit_eq : b.unit = a.unit := by
  obtain ⟨limit, -, rfl⟩ := raised
  rfl

end

end Activation

/-- The call goes on in the same way with a limit of operands at least as high. -/
inductive Effect.Raised : Effect → Effect → Prop
  | next {a b : Activation} (raised : a.Raised b) : Raised (.next a) (.next b)
  | call {a b : Activation} (raised : a.Raised b) (callee : ObjectId) (receiver : Value)
      (args : List Value) : Raised (.call a callee receiver args) (.call b callee receiver args)
  | finish (result : Except Interrupt Value) : Raised (.finish result) (.finish result)

namespace Activation

variable {a b : Activation} {op : Opcode}

section

variable (raised : a.Raised b)
include raised

theorem Raised.pushNext (op : Opcode) (v : Value) :
    Retraces Effect.Raised (a.pushNext op v) (b.pushNext op v) :=
  (raised.push v).bind fun _ _ pushed => .ok (.next (pushed.advance op))

theorem Raised.constant : Retraces Effect.Raised (a.constant.bind (a.pushNext op))
    (b.constant.bind (b.pushNext op)) := by
  have same : b.constant = a.constant := by
    obtain ⟨limit, -, rfl⟩ := raised
    rfl
  rw [same]
  refine (Retraces.same a.constant).bind ?_
  rintro v _ rfl
  exact raised.pushNext op v

theorem Raised.dup : Retraces Effect.Raised (a.top.bind (a.pushNext op))
    (b.top.bind (b.pushNext op)) := by
  have same : b.top = a.top := by
    obtain ⟨limit, -, rfl⟩ := raised
    rfl
  rw [same]
  refine (Retraces.same a.top).bind ?_
  rintro v _ rfl
  exact raised.pushNext op v

theorem Raised.readName (h : Heap) :
    Retraces Effect.Raised (a.readName h op) (b.readName h op) := by
  unfold Activation.readName
  rw [raised.name]
  refine (Retraces.same a.name).bind ?_
  rintro key _ rfl
  have scope : b.scope = a.scope := by
    obtain ⟨limit, -, rfl⟩ := raised
    rfl
  rw [scope]
  exact raised.pushNext op _

theorem Raised.readFunction (d : Dictionary) :
    Retraces Effect.Raised (a.readFunction d op) (b.readFunction d op) := by
  unfold Activation.readFunction
  rw [raised.name]
  refine (Retraces.same a.name).bind ?_
  rintro id _ rfl
  cases d.resolve? id with
  | none => exact .error _
  | some o => exact raised.pushNext op (.object o)

theorem Raised.callFrom : Retraces Effect.Raised (a.callFrom op) (b.callFrom op) := by
  unfold Activation.callFrom
  rw [raised.operand]
  refine (Retraces.same (a.operand 1)).bind ?_
  rintro count _ rfl
  refine (raised.popMany count).bind ?_
  rintro ⟨args, a₁⟩ ⟨_, b₁⟩ ⟨rfl, raised₁⟩
  refine raised₁.pop.bind ?_
  rintro ⟨receiver, a₂⟩ ⟨_, b₂⟩ ⟨rfl, raised₂⟩
  refine raised₂.pop.bind ?_
  rintro ⟨callee, a₃⟩ ⟨_, b₃⟩ ⟨rfl, raised₃⟩
  cases callee with
  | object o => exact .ok (.call (raised₃.advance op) o receiver args)
  | _ => exact .error _

theorem Raised.dropNext : Retraces Effect.Raised (a.dropNext op) (b.dropNext op) :=
  raised.pop.bind fun _ _ popped => .ok (.next (popped.2.advance op))

theorem Raised.unary (f : Value → Value) :
    Retraces Effect.Raised (a.unary op f) (b.unary op f) := by
  refine raised.pop.bind ?_
  rintro ⟨v, a₁⟩ ⟨_, b₁⟩ ⟨rfl, raised₁⟩
  exact raised₁.pushNext op (f v)

theorem Raised.binary (f : Value → Value → Except Fault Value) :
    Retraces Effect.Raised (a.binary op f) (b.binary op f) := by
  refine raised.pop.bind ?_
  rintro ⟨right, a₁⟩ ⟨_, b₁⟩ ⟨rfl, raised₁⟩
  refine raised₁.pop.bind ?_
  rintro ⟨left, a₂⟩ ⟨_, b₂⟩ ⟨rfl, raised₂⟩
  dsimp only
  cases f left right with
  | error e => exact .error _
  | ok v => exact raised₂.pushNext op v

theorem Raised.jump : Retraces Effect.Raised a.jump b.jump := by
  unfold Activation.jump
  rw [raised.operand]
  refine (Retraces.same (a.operand 2)).bind ?_
  rintro target _ rfl
  obtain ⟨limit, le, rfl⟩ := raised
  exact .ok (.next ⟨limit, le, rfl⟩)

theorem Raised.jumpUnless : Retraces Effect.Raised (a.jumpUnless op) (b.jumpUnless op) := by
  refine raised.pop.bind ?_
  rintro ⟨condition, a₁⟩ ⟨_, b₁⟩ ⟨rfl, raised₁⟩
  dsimp only
  by_cases holds : condition.truthy
  · rw [if_pos holds, if_pos holds]
    exact .ok (.next (raised₁.advance op))
  · rw [if_neg holds, if_neg holds]
    exact raised₁.jump

theorem Raised.ret : Retraces Effect.Raised a.ret b.ret := by
  refine raised.pop.bind ?_
  rintro ⟨v, a₁⟩ ⟨_, b₁⟩ ⟨rfl, -⟩
  exact .ok (.finish (.ok v))

theorem Raised.binding :
    Retraces (fun r s => r.1 = s.1 ∧ r.2.1 = s.2.1 ∧ r.2.2.Raised s.2.2) a.binding b.binding := by
  unfold Activation.binding
  rw [raised.name]
  refine (Retraces.same a.name).bind ?_
  rintro key _ rfl
  refine raised.pop.bind ?_
  rintro ⟨v, a₁⟩ ⟨_, b₁⟩ ⟨rfl, raised₁⟩
  exact .ok ⟨rfl, rfl, raised₁⟩

theorem Raised.readTarget (h : Heap) :
    Retraces (fun r s => r.1 = s.1 ∧ r.2.1 = s.2.1 ∧ r.2.2.Raised s.2.2) (a.readTarget h)
      (b.readTarget h) := by
  unfold Activation.readTarget
  rw [raised.name]
  refine (Retraces.same a.name).bind ?_
  rintro key _ rfl
  refine raised.pop.bind ?_
  rintro ⟨v, a₁⟩ ⟨_, b₁⟩ ⟨rfl, raised₁⟩
  refine (Retraces.same (expectObject h .read key v)).bind ?_
  rintro o _ rfl
  exact .ok ⟨rfl, rfl, raised₁⟩

theorem Raised.writeTarget (h : Heap) :
    Retraces (fun r s => r.1 = s.1 ∧ r.2.1 = s.2.1 ∧ r.2.2.1 = s.2.2.1 ∧ r.2.2.2.Raised s.2.2.2)
      (a.writeTarget h) (b.writeTarget h) := by
  unfold Activation.writeTarget
  rw [raised.name]
  refine (Retraces.same a.name).bind ?_
  rintro key _ rfl
  refine raised.pop.bind ?_
  rintro ⟨value, a₁⟩ ⟨_, b₁⟩ ⟨rfl, raised₁⟩
  refine raised₁.pop.bind ?_
  rintro ⟨target, a₂⟩ ⟨_, b₂⟩ ⟨rfl, raised₂⟩
  refine (Retraces.same (expectObject h .write key target)).bind ?_
  rintro o _ rfl
  exact .ok ⟨rfl, rfl, rfl, raised₂⟩

theorem Raised.protoTarget (h : Heap) :
    Retraces (fun r s => r.1 = s.1 ∧ r.2.Raised s.2) (a.protoTarget h) (b.protoTarget h) := by
  refine raised.pop.bind ?_
  rintro ⟨v, a₁⟩ ⟨_, b₁⟩ ⟨rfl, raised₁⟩
  refine (Retraces.same (expectProto h v)).bind ?_
  rintro proto _ rfl
  exact .ok ⟨rfl, raised₁⟩

end

variable {w w' : World} {reads : PropertyReads}

/-- The first has no room for an operand, or both go on in the same way. -/
def Alongside (r s : Effect × World) : Prop :=
  r.1 = .finish (fault .stackOverflow) ∨ (r.1.Raised s.1 ∧ r.2.Raised s.2)

theorem Retraces.settle {x y : Except Interrupt Effect} (h : Retraces Effect.Raised x y)
    (world : w.Raised w') : Alongside (settle x, w) (Activation.settle y, w') := by
  cases h with
  | full y => exact .inl rfl
  | ok related => exact .inr ⟨related, world⟩
  | error i => exact .inr ⟨.finish _, world⟩

section

variable (raised : a.Raised b) (world : w.Raised w')
include raised world

theorem Raised.readProperty (reads : PropertyReads) (o : ObjectId) (key : String) :
    Echoes (a.readProperty reads w o key) (b.readProperty reads w' o key) := by
  obtain ⟨limit, -, rfl⟩ := raised
  obtain ⟨loaders, each, rfl⟩ := world
  have same : World.unitCache? { w with loaders } a.unit a.ip = w.unitCache? a.unit a.ip := rfl
  unfold Activation.readProperty
  rw [same]
  cases reads with
  | direct => exact ⟨rfl, loaders, each, rfl⟩
  | cached =>
    cases w.unitCache? a.unit a.ip with
    | none => exact ⟨rfl, loaders, each, rfl⟩
    | some cache => exact ⟨rfl, loaders, each, rfl⟩

theorem Raised.execute (op : Opcode) :
    Alongside (a.execute reads w op) (b.execute reads w' op) := by
  have heap := world.heap_eq
  obtain ⟨scope, global, receiver⟩ :
      b.scope = a.scope ∧ b.global = a.global ∧ b.receiver = a.receiver := by
    obtain ⟨limit, -, rfl⟩ := raised
    exact ⟨rfl, rfl, rfl⟩
  cases op with
  | constant => exact raised.constant.settle world
  | undefined => exact (raised.pushNext _ _).settle world
  | receiver =>
    rw [Activation.execute, Activation.execute, receiver]
    exact (raised.pushNext _ _).settle world
  | getName =>
    rw [Activation.execute, Activation.execute, heap]
    exact (raised.readName w.heap).settle world
  | setName | setGlobal =>
    have taken := raised.binding
    simp only [Activation.execute, scope, global]
    generalize a.binding = x at taken
    generalize b.binding = y at taken
    cases taken with
    | full y => exact .inl rfl
    | error i => exact .inr ⟨.finish _, world⟩
    | @ok r s related =>
      obtain ⟨key, v, c⟩ := r
      obtain ⟨_, _, d⟩ := s
      obtain ⟨rfl, rfl, raised'⟩ := related
      exact .inr ⟨.next (raised'.advance _), world.mapHeap _⟩
  | getProperty =>
    have taken := raised.readTarget w.heap
    have read := raised.readProperty world reads
    rw [Activation.execute, Activation.execute, heap]
    generalize a.readTarget w.heap = x at taken
    generalize b.readTarget w.heap = y at taken
    cases taken with
    | full y => exact .inl rfl
    | error i => exact .inr ⟨.finish _, world⟩
    | @ok r s related =>
      obtain ⟨key, o, c⟩ := r
      obtain ⟨_, _, d⟩ := s
      obtain ⟨rfl, rfl, raised'⟩ := related
      dsimp only
      rw [(read _ _).answer]
      exact (raised'.pushNext _ _).settle (read _ _).world
  | setProperty =>
    have taken := raised.writeTarget w.heap
    rw [Activation.execute, Activation.execute, heap]
    generalize a.writeTarget w.heap = x at taken
    generalize b.writeTarget w.heap = y at taken
    cases taken with
    | full y => exact .inl rfl
    | error i => exact .inr ⟨.finish _, world⟩
    | @ok r s related =>
      obtain ⟨key, o, v, c⟩ := r
      obtain ⟨_, _, _, d⟩ := s
      obtain ⟨rfl, rfl, rfl, raised'⟩ := related
      exact .inr ⟨.next (raised'.advance _), world.mapHeap (·.set o key v)⟩
  | newObject =>
    have taken := raised.protoTarget w.heap
    rw [Activation.execute, Activation.execute, heap]
    generalize a.protoTarget w.heap = x at taken
    generalize b.protoTarget w.heap = y at taken
    cases taken with
    | full y => exact .inl rfl
    | error i => exact .inr ⟨.finish _, world⟩
    | @ok r s related =>
      obtain ⟨proto, c⟩ := r
      obtain ⟨_, d⟩ := s
      obtain ⟨rfl, raised'⟩ := related
      have made := world.allocWith (·.newObject proto)
      dsimp only
      rw [made.answer]
      exact (raised'.pushNext _ _).settle made.world
  | function =>
    have same : w'.dictionary b.dictionary = w.dictionary a.dictionary := by
      obtain ⟨limit, -, rfl⟩ := raised
      obtain ⟨loaders, -, rfl⟩ := world
      rfl
    rw [Activation.execute, Activation.execute, same]
    exact (raised.readFunction _).settle world
  | call => exact raised.callFrom.settle world
  | pop => exact raised.dropNext.settle world
  | dup => exact raised.dup.settle world
  | add | sub | mul | lessThan =>
    rw [Activation.execute, Activation.execute, heap]
    exact (raised.binary _).settle world
  | equal => exact (raised.binary _).settle world
  | not => exact (raised.unary _).settle world
  | jump => exact raised.jump.settle world
  | jumpIfFalse => exact raised.jumpUnless.settle world
  | ret => exact raised.ret.settle world

theorem Raised.step (reads : PropertyReads) : Alongside (a.step reads w) (b.step reads w') := by
  have code : b.code = a.code := by
    obtain ⟨limit, -, rfl⟩ := raised
    rfl
  have ip : b.ip = a.ip := by
    obtain ⟨limit, -, rfl⟩ := raised
    rfl
  unfold Activation.step
  rw [code, ip]
  cases a.code[a.ip]? with
  | none => exact .inr ⟨.finish _, world⟩
  | some byte =>
    dsimp only
    cases Opcode.ofByte? byte with
    | none => exact .inr ⟨.finish _, world⟩
    | some op => exact raised.execute world op

end

/-- A call into a unit starts with the limit of operands of its loader. -/
theorem start_raised (world : w.Raised w') (unit : BoundUnit) {loader : Loader} {config : Config}
    (within : loader.config.Within config) (receiver : Value) (args : List Value) :
    (start unit loader receiver args w).1.Raised
        (start unit { loader with config } receiver args w').1 ∧
      (start unit loader receiver args w).2.Raised
        (start unit { loader with config } receiver args w').2 := by
  obtain ⟨loaders, each, rfl⟩ := world
  exact ⟨⟨config.maxStack.toNat, UInt64.le_iff_toNat_le.mp within.stack, rfl⟩, loaders, each, rfl⟩

end Activation

end ProtoVM
