import ProtoVM.Machine.Activation

/-!
# What instructions keep

One law for all instructions. An instruction that finds what it reads in the code (`Decodes`), and
that is supplied with good values only (`Supplied`), leaves an activation of the same call at the
place it should go on at, with good values only. Which values are good, which offsets are places to
go on at and which interrupts may happen is left open, so that every invariant of an activation is
an instance.
-/

namespace ProtoVM

/-- The interrupts that the code check rules out: a read outside the code or the pool, a byte that
is no opcode, a constant that is no name. -/
def Interrupt.RuledOut : Interrupt → Prop
  | .crash => True
  | .error (.fault (.unknownOpcode _)) => True
  | .error (.fault (.notAName _)) => True
  | _ => False

/-- The result has a property, or the interrupt has one. -/
def Yields {α : Type} (P : α → Prop) (Q : Interrupt → Prop) : Except Interrupt α → Prop
  | .ok x => P x
  | .error i => Q i

theorem Yields.bind {α β : Type} {P : α → Prop} {R : β → Prop} {Q : Interrupt → Prop}
    {x : Except Interrupt α} {f : α → Except Interrupt β} (hx : Yields P Q x)
    (hf : ∀ v, P v → Yields R Q (f v)) : Yields R Q (x >>= f) := by
  cases x with
  | error i => exact hx
  | ok v => exact hf v hx

/-- The activation `b` is a moment of the same call as `a`: it stands at a place and has good
operands. -/
structure Continues (good : Value → Prop) (place : Nat → Prop) (a b : Activation) : Prop where
  same : ∃ stack ip, b = { a with stack, ip }
  place : place b.ip
  operands : ∀ v ∈ b.stack.values, good v

/-- The call goes on at a place with good values, or it ends with a good value or an interrupt. -/
def Effect.Keeps (good : Value → Prop) (place : Nat → Prop) (Q : Interrupt → Prop)
    (a : Activation) : Effect → Prop
  | .next b => Continues good place a b
  | .call b callee receiver args =>
    Continues good place a b ∧ good (.object callee) ∧ good receiver ∧ ∀ v ∈ args, good v
  | .finish (.ok v) => good v
  | .finish (.error i) => Q i

/-- What the code provides for the instruction at the current offset. -/
structure Decodes (place : Nat → Prop) (Q : Interrupt → Prop) (a : Activation) (op : Opcode) :
    Prop where
  next : place (a.ip + op.length)
  constant : op = .constant → Yields (fun v => v.asObject? = none) Q a.constant
  name : op.isNaming → Yields (fun _ => True) Q a.name
  count : op = .call → Yields (fun _ => True) Q (a.operand 1)
  target : op.isJump → Yields place Q (a.operand 2)
  dynamic : ∀ i : Interrupt, ¬ i.RuledOut → Q i

/-- What the call and the world provide for an instruction. -/
structure Supplied (good : Value → Prop) (a : Activation) (reads : PropertyReads) (w : World)
    (op : Opcode) : Prop where
  plain : ∀ v : Value, v.asObject? = none → good v
  receiver : good a.receiver
  operands : ∀ v ∈ a.stack.values, good v
  lookup : ∀ o key, good (w.heap.lookup o key)
  property : ∀ o key, good (.object o) → good (a.readProperty reads w o key).1
  function : ∀ id o, (w.dictionary a.dictionary).resolve? id = some o → good (.object o)
  fresh : op = .newObject → ∀ r, a.protoTarget w.heap = .ok r → good (.object w.heap.size)

/-! ## Operands -/

namespace Operands

theorem values_of_push? {s t : Operands} {limit : Nat} {v : Value}
    (h : s.push? limit v = some t) : t.values = v :: s.values := by
  rw [push?] at h
  split at h
  · cases h
  · cases h
    rfl

theorem values_of_pop? {s t : Operands} {v : Value} (h : s.pop? = some (v, t)) :
    s.values = v :: t.values := by
  obtain ⟨values, height, eq⟩ := s
  cases values with
  | nil => cases h
  | cons u values =>
    cases h
    rfl

theorem values_of_popMany? {s t : Operands} {count : Nat} {vs : List Value}
    (h : s.popMany? count = some (vs, t)) : s.values = vs.reverse ++ t.values := by
  rw [popMany?] at h
  split at h
  · cases h
  · cases h
    rw [List.reverse_reverse]
    exact (List.take_append_drop count s.values).symm

end Operands

/-! ## Operations -/

namespace Operation

/-- The result of an operation is no object, and its fault is none that the code check rules out. -/
def Plain : Except Fault Value → Prop
  | .ok v => v.asObject? = none
  | .error f => ¬ (Interrupt.error (.fault f)).RuledOut

theorem plain_checked (i : Int) : Plain (checked i) := by
  rw [checked]
  split
  · rfl
  · exact id

theorem plain_numeric (h : Heap) (op : Opcode) (left right : Value) :
    Plain (numeric h op left right) := by
  rw [numeric]
  split
  · rfl
  · exact id

theorem plain_arithmetic (h : Heap) (op : Opcode) (left right : Value) :
    Plain (arithmetic h op left right) := by
  rw [arithmetic.eq_def]
  split
  · exact plain_checked _
  · split
    · rfl
    · exact plain_numeric ..
  · split
    · rfl
    · exact plain_numeric ..
  · exact plain_numeric ..

theorem plain_lessThan (h : Heap) (left right : Value) :
    Plain ((lessThan h left right).map .bool) := by
  rw [lessThan.eq_def]
  split
  · rfl
  · rfl
  · split
    · rfl
    · exact id

end Operation

namespace Activation

variable {good : Value → Prop} {place : Nat → Prop} {Q : Interrupt → Prop} {a b : Activation}
  {op : Opcode} {reads : PropertyReads} {w : World}

theorem yields_fault {α : Type} {P : α → Prop} (f : Fault)
    (dynamic : ∀ i : Interrupt, ¬ i.RuledOut → Q i)
    (h : ¬ (Interrupt.error (.fault f)).RuledOut) : Yields P Q (fault f) := dynamic _ h

theorem yields_push (dynamic : ∀ i : Interrupt, ¬ i.RuledOut → Q i)
    (h : Continues good place a b) {v : Value} (hv : good v) :
    Yields (Continues good place a) Q (b.push v) := by
  rw [push]
  cases pushed : b.stack.push? b.stackLimit v with
  | none => exact yields_fault .stackOverflow dynamic id
  | some stack =>
    have values := Operands.values_of_push? pushed
    obtain ⟨s, ip, same⟩ := h.same
    refine ⟨⟨stack, ip, by rw [same]⟩, h.place, ?_⟩
    intro u hu
    rw [values] at hu
    rcases List.mem_cons.mp hu with rfl | hu
    · exact hv
    · exact h.operands u hu

theorem yields_pop (dynamic : ∀ i : Interrupt, ¬ i.RuledOut → Q i) (h : Continues good place a b) :
    Yields (fun r => good r.1 ∧ Continues good place a r.2) Q b.pop := by
  rw [pop]
  cases popped : b.stack.pop? with
  | none => exact yields_fault .stackUnderflow dynamic id
  | some r =>
    obtain ⟨v, stack⟩ := r
    have values := Operands.values_of_pop? popped
    obtain ⟨s, ip, same⟩ := h.same
    refine ⟨h.operands v (by rw [values]; exact List.mem_cons_self), ⟨stack, ip, by rw [same]⟩,
      h.place, ?_⟩
    intro u hu
    exact h.operands u (by rw [values]; exact List.mem_cons_of_mem _ hu)

theorem yields_popMany (dynamic : ∀ i : Interrupt, ¬ i.RuledOut → Q i)
    (h : Continues good place a b) (count : Nat) :
    Yields (fun r => (∀ v ∈ r.1, good v) ∧ Continues good place a r.2) Q (b.popMany count) := by
  rw [popMany]
  cases popped : b.stack.popMany? count with
  | none => exact yields_fault .stackUnderflow dynamic id
  | some r =>
    obtain ⟨vs, stack⟩ := r
    have values := Operands.values_of_popMany? popped
    obtain ⟨s, ip, same⟩ := h.same
    refine ⟨?_, ⟨stack, ip, by rw [same]⟩, h.place, ?_⟩
    · intro v hv
      exact h.operands v (by rw [values]; simp [hv])
    · intro u hu
      exact h.operands u (by rw [values]; simp [hu])

theorem yields_top (dynamic : ∀ i : Interrupt, ¬ i.RuledOut → Q i)
    (h : ∀ v ∈ a.stack.values, good v) : Yields good Q a.top := by
  unfold top Operands.top?
  cases values : a.stack.values with
  | nil => exact yields_fault .stackUnderflow dynamic id
  | cons v vs => exact h v (by rw [values]; exact List.mem_cons_self)

/-- Whatever an instruction does, the call stays one into the same unit. -/
theorem unit_eq_of_continues (h : Continues good place a b) : b.unit = a.unit := by
  obtain ⟨stack, ip, same⟩ := h.same
  rw [same]

/-- An operand that is handed over changes nothing but the operands. -/
theorem eq_of_push {v : Value} (pushed : a.push v = .ok b) : ∃ stack, b = { a with stack } := by
  rw [push] at pushed
  cases found : a.stack.push? a.stackLimit v with
  | none =>
    rw [found] at pushed
    cases pushed
  | some stack =>
    rw [found] at pushed
    cases pushed
    exact ⟨stack, rfl⟩

/-- Nothing has been done yet. -/
theorem continues_refl (h : ∀ v ∈ a.stack.values, good v) : Continues good (· = a.ip) a a :=
  ⟨⟨a.stack, a.ip, rfl⟩, rfl, h⟩

/-- A good value that is handed over is one more good operand. -/
theorem continues_of_push (h : ∀ u ∈ a.stack.values, good u) {v : Value} (hv : good v)
    (pushed : a.push v = .ok b) : Continues good (· = a.ip) a b := by
  have kept := yields_push (Q := fun _ => True) (fun _ _ => trivial) (continues_refl h) hv
  rw [pushed] at kept
  exact kept

/-- The operands are taken, and the call moves on past the instruction. -/
theorem continues_advance (next : place (a.ip + op.length)) (h : Continues good (· = a.ip) a b) :
    Continues good place a (b.advance op) := by
  obtain ⟨s, ip, same⟩ := h.same
  refine ⟨⟨b.stack, b.ip + op.length, by rw [same]; rfl⟩, ?_, h.operands⟩
  rw [← h.place] at next
  exact next

theorem yields_pushNext (code : Decodes place Q a op) (h : Continues good (· = a.ip) a b)
    {v : Value} (hv : good v) : Yields (Effect.Keeps good place Q a) Q (b.pushNext op v) :=
  Yields.bind (yields_push code.dynamic h hv) fun _ hc => continues_advance code.next hc

theorem keeps_settle {x : Except Interrupt Effect} (h : Yields (Effect.Keeps good place Q a) Q x) :
    (settle x).Keeps good place Q a := by
  cases x with
  | error i => exact h
  | ok effect => exact h

/-! ## Instructions one by one -/

theorem yields_jump (code : Decodes place Q a op) (isJump : op.isJump)
    (h : Continues good (· = a.ip) a b) :
    Yields (Effect.Keeps good place Q a) Q b.jump := by
  obtain ⟨stack, ip, same⟩ := h.same
  have here : b.operand 2 = a.operand 2 := by
    unfold operand
    rw [h.place, same]
    rfl
  refine Yields.bind (here ▸ code.target isJump) fun target htarget => ?_
  exact ⟨⟨b.stack, target, by rw [same]⟩, htarget, h.operands⟩

section

variable (code : Decodes place Q a op) (supplied : Supplied good a reads w op)
include code supplied

theorem yields_readName (naming : op.isNaming) :
    Yields (Effect.Keeps good place Q a) Q (a.readName w.heap op) :=
  Yields.bind (code.name naming) fun key _ =>
    yields_pushNext code (continues_refl supplied.operands) (supplied.lookup a.scope key)

theorem yields_readFunction (naming : op.isNaming) :
    Yields (Effect.Keeps good place Q a) Q (a.readFunction (w.dictionary a.dictionary) op) := by
  refine Yields.bind (code.name naming) fun key _ => ?_
  cases found : (w.dictionary a.dictionary).resolve? key with
  | none => exact yields_fault (.notLoaded key) code.dynamic id
  | some o =>
    exact yields_pushNext code (continues_refl supplied.operands) (supplied.function key o found)

theorem yields_callFrom (call : op = .call) :
    Yields (Effect.Keeps good place Q a) Q (a.callFrom op) := by
  refine Yields.bind (code.count call) fun count _ => ?_
  have start := continues_refl supplied.operands
  refine Yields.bind (yields_popMany code.dynamic start count) fun ⟨args, b⟩ ⟨hargs, hb⟩ => ?_
  refine Yields.bind (yields_pop code.dynamic hb) fun ⟨receiver, c⟩ ⟨hreceiver, hc⟩ => ?_
  refine Yields.bind (yields_pop code.dynamic hc) fun ⟨callee, d⟩ ⟨hcallee, hd⟩ => ?_
  cases callee with
  | object o => exact ⟨continues_advance code.next hd, hcallee, hreceiver, hargs⟩
  | _ => exact code.dynamic _ id

theorem yields_dropNext : Yields (Effect.Keeps good place Q a) Q (a.dropNext op) :=
  Yields.bind (yields_pop code.dynamic (continues_refl supplied.operands)) fun _ hb =>
    continues_advance code.next hb.2

theorem yields_unary {f : Value → Value} (hf : ∀ v, good (f v)) :
    Yields (Effect.Keeps good place Q a) Q (a.unary op f) :=
  Yields.bind (yields_pop code.dynamic (continues_refl supplied.operands)) fun r hb =>
    yields_pushNext code hb.2 (hf r.1)

theorem yields_binary {f : Value → Value → Except Fault Value}
    (hf : ∀ u v, Operation.Plain (f u v)) :
    Yields (Effect.Keeps good place Q a) Q (a.binary op f) := by
  have start := continues_refl supplied.operands
  refine Yields.bind (yields_pop code.dynamic start) fun ⟨right, b⟩ ⟨_, hb⟩ => ?_
  refine Yields.bind (yields_pop code.dynamic hb) fun ⟨left, c⟩ ⟨_, hc⟩ => ?_
  have result := hf left right
  cases computed : f left right with
  | error e =>
    rw [computed] at result
    simp only [computed]
    exact yields_fault e code.dynamic result
  | ok v =>
    rw [computed] at result
    simp only [computed]
    exact yields_pushNext code hc (supplied.plain v result)

theorem yields_jumpUnless (isJump : op.isJump) :
    Yields (Effect.Keeps good place Q a) Q (a.jumpUnless op) := by
  have start := continues_refl supplied.operands
  refine Yields.bind (yields_pop code.dynamic start) fun ⟨condition, b⟩ ⟨_, hb⟩ => ?_
  by_cases holds : condition.truthy
  · simp only [if_pos holds]
    exact continues_advance code.next hb
  · simp only [if_neg holds]
    exact yields_jump code isJump hb

theorem yields_ret : Yields (Effect.Keeps good place Q a) Q a.ret :=
  Yields.bind (yields_pop code.dynamic (continues_refl supplied.operands)) fun _ hb => hb.1

theorem yields_binding (naming : op.isNaming) :
    Yields (fun r => good r.2.1 ∧ Continues good (· = a.ip) a r.2.2) Q a.binding :=
  Yields.bind (code.name naming) fun _ _ =>
    Yields.bind (yields_pop code.dynamic (continues_refl supplied.operands)) fun _ hb => hb

theorem yields_readTarget (naming : op.isNaming) :
    Yields (fun r => good (.object r.2.1) ∧ Continues good (· = a.ip) a r.2.2) Q
      (a.readTarget w.heap) := by
  refine Yields.bind (code.name naming) fun key _ => ?_
  have start := continues_refl supplied.operands
  refine Yields.bind (yields_pop code.dynamic start) fun ⟨v, b⟩ ⟨hv, hb⟩ => ?_
  cases v with
  | object o => exact ⟨hv, hb⟩
  | _ => exact code.dynamic _ id

theorem yields_writeTarget (naming : op.isNaming) :
    Yields (fun r => good (.object r.2.1) ∧ good r.2.2.1 ∧ Continues good (· = a.ip) a r.2.2.2) Q
      (a.writeTarget w.heap) := by
  refine Yields.bind (code.name naming) fun key _ => ?_
  have start := continues_refl supplied.operands
  refine Yields.bind (yields_pop code.dynamic start) fun ⟨value, b⟩ ⟨hvalue, hb⟩ => ?_
  refine Yields.bind (yields_pop code.dynamic hb) fun ⟨target, c⟩ ⟨htarget, hc⟩ => ?_
  cases target with
  | object o => exact ⟨htarget, hvalue, hc⟩
  | _ => exact code.dynamic _ id

theorem yields_protoTarget :
    Yields (fun r => (∀ p, r.1 = some p → good (.object p)) ∧ Continues good (· = a.ip) a r.2) Q
      (a.protoTarget w.heap) := by
  have start := continues_refl supplied.operands
  refine Yields.bind (yields_pop code.dynamic start) fun ⟨v, b⟩ ⟨hv, hb⟩ => ?_
  cases v with
  | undefined => exact ⟨fun _ hp => (nomatch hp), hb⟩
  | object o => exact ⟨fun _ hp => Option.some.inj hp ▸ hv, hb⟩
  | _ => exact code.dynamic _ id

/-- Every instruction keeps what it finds: the call goes on at a place, with good values. -/
theorem execute_keeps : (a.execute reads w op).1.Keeps good place Q a := by
  have start := continues_refl supplied.operands
  cases op with
  | constant =>
    apply keeps_settle
    exact Yields.bind (code.constant rfl) fun v hv =>
      yields_pushNext code start (supplied.plain v hv)
  | undefined => exact keeps_settle (yields_pushNext code start (supplied.plain _ rfl))
  | receiver => exact keeps_settle (yields_pushNext code start supplied.receiver)
  | getName => exact keeps_settle (yields_readName code supplied rfl)
  | setName =>
    have := yields_binding code supplied rfl
    rw [execute]
    cases bound : a.binding with
    | error i => rw [bound] at this; exact this
    | ok r => rw [bound] at this; exact continues_advance code.next this.2
  | setGlobal =>
    have := yields_binding code supplied rfl
    rw [execute]
    cases bound : a.binding with
    | error i => rw [bound] at this; exact this
    | ok r => rw [bound] at this; exact continues_advance code.next this.2
  | getProperty =>
    have := yields_readTarget code supplied rfl
    rw [execute]
    cases found : a.readTarget w.heap with
    | error i => rw [found] at this; exact this
    | ok r =>
      rw [found] at this
      exact keeps_settle (yields_pushNext code this.2 (supplied.property r.2.1 r.1 this.1))
  | setProperty =>
    have := yields_writeTarget code supplied rfl
    rw [execute]
    cases found : a.writeTarget w.heap with
    | error i => rw [found] at this; exact this
    | ok r => rw [found] at this; exact continues_advance code.next this.2.2
  | newObject =>
    have := yields_protoTarget code supplied
    rw [execute]
    cases found : a.protoTarget w.heap with
    | error i => rw [found] at this; exact this
    | ok r =>
      rw [found] at this
      exact keeps_settle (yields_pushNext code this.2 (supplied.fresh rfl r found))
  | function => exact keeps_settle (yields_readFunction code supplied rfl)
  | call => exact keeps_settle (yields_callFrom code supplied rfl)
  | pop => exact keeps_settle (yields_dropNext code supplied)
  | dup =>
    apply keeps_settle
    exact Yields.bind (yields_top code.dynamic supplied.operands) fun v hv =>
      yields_pushNext code start hv
  | add => exact keeps_settle (yields_binary code supplied (Operation.plain_arithmetic _ _))
  | sub => exact keeps_settle (yields_binary code supplied (Operation.plain_arithmetic _ _))
  | mul => exact keeps_settle (yields_binary code supplied (Operation.plain_arithmetic _ _))
  | lessThan => exact keeps_settle (yields_binary code supplied (Operation.plain_lessThan _))
  | equal => exact keeps_settle (yields_binary code supplied fun _ _ => rfl)
  | not => exact keeps_settle (yields_unary code supplied fun _ => supplied.plain _ rfl)
  | jump => exact keeps_settle (yields_jump code rfl start)
  | jumpIfFalse => exact keeps_settle (yields_jumpUnless code supplied rfl)
  | ret => exact keeps_settle (yields_ret code supplied)

end

/-! ## Any code -/

/-- A constant is no object. -/
theorem asObject?_toValue (c : Constant) : c.toValue.asObject? = none := by
  cases c <;> rfl

theorem yields_trivial {α : Type} (x : Except Interrupt α) :
    Yields (fun _ => True) (fun _ => True) x := by
  cases x with
  | error i => exact trivial
  | ok v => exact trivial

theorem yields_constant (a : Activation) :
    Yields (fun v => v.asObject? = none) (fun _ => True) a.constant := by
  refine Yields.bind (yields_trivial (a.operand 2)) fun index _ => ?_
  cases a.unit.unit.constants[index]? with
  | none => exact trivial
  | some c => exact asObject?_toValue c

/-- Where every place and every interrupt will do, any code will do. -/
theorem decodes_trivial (a : Activation) (op : Opcode) :
    Decodes (fun _ => True) (fun _ => True) a op where
  next := trivial
  constant := fun _ => yields_constant a
  name := fun _ => yields_trivial _
  count := fun _ => yields_trivial _
  target := fun _ => yields_trivial _
  dynamic := fun _ _ => trivial

/-- Where every value is good, nothing has to be supplied. -/
theorem supplied_trivial (a : Activation) (reads : PropertyReads) (w : World) (op : Opcode) :
    Supplied (fun _ => True) a reads w op := by
  constructor <;> intros <;> trivial

/-- The instruction at the current offset. -/
def opcode? (a : Activation) : Option Opcode := (a.code[a.ip]?).bind Opcode.ofByte?

theorem step_eq_execute {a : Activation} {op : Opcode} (here : a.opcode? = some op)
    (reads : PropertyReads) (w : World) : a.step reads w = a.execute reads w op := by
  obtain ⟨byte, found, known⟩ := Option.bind_eq_some_iff.mp here
  rw [step, found]
  dsimp only
  rw [known]

/-- A step ends at the end of the code, stops at a byte that is no opcode, or carries out an
instruction. -/
@[elab_as_elim]
theorem step_cases {motive : Effect × World → Prop} (a : Activation) (reads : PropertyReads)
    (w : World) (ended : motive (.finish (.ok .undefined), w))
    (unknown : ∀ byte, motive (.finish (fault (.unknownOpcode byte)), w))
    (executed : ∀ op, a.opcode? = some op → motive (a.execute reads w op)) :
    motive (a.step reads w) := by
  rw [step]
  cases here : a.code[a.ip]? with
  | none => exact ended
  | some byte =>
    dsimp only
    cases known : Opcode.ofByte? byte with
    | none => exact unknown byte
    | some op => exact executed op (by rw [opcode?, here, Option.bind_some, known])

/-- A step keeps good values, whatever the code is. -/
theorem step_keeps (plain : good .undefined)
    (supplied : ∀ op, Supplied good a reads w op) :
    (a.step reads w).1.Keeps good (fun _ => True) (fun _ => True) a :=
  a.step_cases reads w plain (fun _ => trivial) fun op _ =>
    execute_keeps (decodes_trivial a op) (supplied op)

end Activation

end ProtoVM
