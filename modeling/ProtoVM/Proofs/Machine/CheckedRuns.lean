import Mathlib
import ProtoVM.Proofs.Bytecode.CheckedCode
import ProtoVM.Proofs.Machine.Activations
import ProtoVM.Proofs.Machine.Instructions
import ProtoVM.Proofs.Session.Loading

/-!
# Runs of checked code

A unit is only loaded after the code check. Whatever a machine does afterwards, every call into the
unit stands at a start that the check has found, or at the end of the code, so that it finds there
what it reads.
-/

namespace ProtoVM

namespace Activation

/-- The call stands where the walk of the code check has been: it reads inside the code and the
pool, and its next instruction does not fail in a way that the check rules out. -/
structure OnMap (map : CodeMap) (a : Activation) : Prop where
  place : map.Boundary a.code.length a.ip
  reads : a.ip ∈ map.starts → a.unit.unit.ReadsInRange a.ip
  faults : ∀ reads w i, (a.step reads w).1 = .finish (.error i) → ¬ i.RuledOut

variable {a b : Activation} {map : CodeMap} {op : Opcode} {operand : Nat}

theorem operand_of_instruction (h : a.unit.unit.Instruction map a.ip op operand) {width : Nat}
    (hw : op.length - 1 = width) : a.operand width = .ok operand := by
  have reads : a.code.operandAt? (a.ip + 1) width = some operand := hw ▸ h.reads
  rw [Activation.operand, reads]

theorem constant_of_instruction (h : a.unit.unit.Instruction map a.ip .constant operand) :
    ∃ c : Constant, a.constant = .ok c.toValue := by
  have inPool := CodeUnit.constant_lt_of_sound h.sound
  have found : a.operand 2 = .ok operand := operand_of_instruction h rfl
  refine ⟨a.unit.unit.constants[operand], ?_⟩
  have inRange := List.getElem?_eq_getElem inPool
  simp only [constant, found, bind, Except.bind, inRange]
  rfl

theorem name_of_instruction (h : a.unit.unit.Instruction map a.ip op operand)
    (naming : op.isNaming) : ∃ s, a.name = .ok s := by
  obtain ⟨s, hs⟩ := CodeUnit.stringAt?_of_sound naming h.sound
  have width : op.length - 1 = 2 := by
    cases op with
    | getName | setName | setGlobal | getProperty | setProperty | function => rfl
    | _ => cases naming
  refine ⟨s, ?_⟩
  simp only [name, operand_of_instruction h width, bind, Except.bind, hs]
  rfl

/-- The code check provides what an instruction reads. -/
theorem decodes_of_instruction (h : a.unit.unit.Instruction map a.ip op operand)
    (landed : ∀ jump ∈ map.jumps, map.Boundary a.code.length jump.target) :
    Decodes (map.Boundary a.code.length) (fun i => ¬ i.RuledOut) a op where
  next := h.next
  constant := by
    rintro rfl
    obtain ⟨c, hc⟩ := constant_of_instruction h
    rw [hc]
    exact asObject?_toValue c
  name := by
    intro naming
    obtain ⟨s, hs⟩ := name_of_instruction h naming
    rw [hs]
    exact trivial
  count := by
    rintro rfl
    have found : a.operand 1 = .ok operand := operand_of_instruction h rfl
    rw [found]
    exact trivial
  target := by
    intro isJump
    have width : op.length - 1 = 2 := by
      cases op with
      | jump | jumpIfFalse => rfl
      | _ => cases isJump
    rw [operand_of_instruction h width]
    exact landed _ (h.jump isJump)
  dynamic := fun i hi => hi

/-- A step from a boundary leads to a boundary, and does not fail in a way that the check rules
out. -/
theorem step_keeps_boundary (walk : a.unit.unit.mapFrom 0 a.code = .ok map)
    (landed : ∀ jump ∈ map.jumps, map.Boundary a.code.length jump.target)
    (place : map.Boundary a.code.length a.ip) (reads : PropertyReads) (w : World) :
    (a.step reads w).1.Keeps (fun _ => True) (map.Boundary a.code.length)
      (fun i => ¬ i.RuledOut) a := by
  rw [step]
  rcases place with atEnd | start
  · have outside : a.code[a.ip]? = none := List.getElem?_eq_none (Nat.le_of_eq atEnd.symm)
    rw [outside]
    exact trivial
  · obtain ⟨op, operand, h⟩ := CodeUnit.instruction_of_mem_starts a.code rfl walk a.ip start
    obtain ⟨byte, hbyte, hop⟩ := Option.bind_eq_some_iff.mp h.opcode
    have here : a.code[a.ip]? = some byte := hbyte
    simp only [here, hop]
    exact execute_keeps (decodes_of_instruction h landed) (supplied_trivial a reads w op)

theorem onMap_of_boundary (walk : a.unit.unit.mapFrom 0 a.code = .ok map)
    (landed : ∀ jump ∈ map.jumps, map.Boundary a.code.length jump.target)
    (place : map.Boundary a.code.length a.ip) : a.OnMap map where
  place := place
  reads := by
    intro start
    obtain ⟨op, operand, h⟩ := CodeUnit.instruction_of_mem_starts a.code rfl walk a.ip start
    exact h.readsInRange
  faults := by
    intro reads w i failed
    have keeps := step_keeps_boundary walk landed place reads w
    rw [failed] at keeps
    exact keeps

end Activation

namespace Machine

open Activation

/-- Every call into a unit stands at a boundary of its code map. -/
def OnBoundaries (unit : BoundUnit) (map : CodeMap) (m : Machine) : Prop :=
  ∀ a ∈ m.activations, a.unit = unit → map.Boundary a.code.length a.ip

section

variable {unit : BoundUnit} {map : CodeMap} {m : Machine}
  (walk : unit.unit.mapFrom 0 unit.unit.code = .ok map)
  (landed : ∀ jump ∈ map.jumps, map.Boundary unit.unit.code.length jump.target)
include walk landed

theorem onBoundaries_step (h : m.OnBoundaries unit map) (reads : PropertyReads) :
    (m.step reads).OnBoundaries unit map := by
  intro b hb same
  -- the call goes on in the unit that it was in, so that it was at a boundary before
  have goesOn (a : Activation) (at_ : m.control = .code a)
      (anywhere : Continues (fun _ => True) (fun _ => True) a b)
      (kept : (a.step reads m.world).1.Keeps (fun _ => True) (map.Boundary a.code.length)
          (fun i => ¬ i.RuledOut) a →
        Continues (fun _ => True) (map.Boundary a.code.length) a b) :
      map.Boundary b.code.length b.ip := by
    have mine : a.unit = unit := (unit_eq_of_continues anywhere).symm.trans same
    have place := h a (mem_activations.mpr (.inl at_)) mine
    subst mine
    have next := kept (step_keeps_boundary walk landed place reads m.world)
    rw [code, unit_eq_of_continues next]
    exact next.place
  cases origin_of_mem_step hb with
  | waits before => exact h b before same
  | goesOn a at_ effect =>
    have anywhere := step_keeps trivial (supplied_trivial a reads m.world)
    rw [effect] at anywhere
    refine goesOn a at_ anywhere fun keeps => ?_
    rw [effect] at keeps
    exact keeps
  | calls a callee receiver args at_ effect =>
    have anywhere := step_keeps trivial (supplied_trivial a reads m.world)
    rw [effect] at anywhere
    refine goesOn a at_ anywhere.1 fun keeps => ?_
    rw [effect] at keeps
    exact keeps.1
  | resumes a before v pushed =>
    obtain ⟨stack, rfl⟩ := eq_of_push pushed
    exact h a before same
  | starts unit' loader receiver args w start =>
    subst start
    obtain rfl : unit' = unit := same
    exact CodeUnit.boundary_of_mapFrom (Nat.zero_le _) walk

theorem onBoundaries_steps (reads : PropertyReads) (n : Nat) (h : m.OnBoundaries unit map) :
    (m.steps reads n).OnBoundaries unit map := by
  induction n generalizing m with
  | zero => exact h
  | succ n ih => exact ih (onBoundaries_step walk landed h reads)

end

end Machine

/-- Whatever is called or run once a payload is loaded, on any heap, with any receiver and any
arguments, every call into the loaded unit stays where the code check has been. -/
theorem onMap_of_load {w : World} {l : LoaderId} {loader : Loader} {id : String}
    {payload : List UInt8} {f : ObjectId} (loaded : (w.load l loader id payload).1 = .ok f) :
    ∃ u map, Payload.decode payload loader.config.verifyChecksum = .ok u ∧
      (w.load l loader id payload).2.heap.handle f = .interpreted ⟨w.banks.size, id, u, l⟩ ∧
      u.mapFrom 0 u.code = .ok map ∧
      ∀ m : Machine, (∀ a ∈ m.activations, a.unit ≠ ⟨w.banks.size, id, u, l⟩) →
        ∀ reads n, ∀ a ∈ (m.steps reads n).activations, a.unit = ⟨w.banks.size, id, u, l⟩ →
          a.OnMap map := by
  obtain ⟨u, decoded, checked, handle⟩ := World.load_eq_ok loaded
  obtain ⟨map, walk, landed⟩ := CodeUnit.check_eq_ok_iff.mp checked
  refine ⟨u, map, decoded, handle, walk, ?_⟩
  intro m later reads n a ha same
  have start : m.OnBoundaries ⟨w.banks.size, id, u, l⟩ map := fun b hb mine =>
    absurd mine (later b hb)
  have place := Machine.onBoundaries_steps walk landed reads n start a ha same
  refine Activation.onMap_of_boundary ?_ ?_ place
  · rw [Activation.code, same]
    exact walk
  · rw [Activation.code, same]
    exact landed

/-- A unit that jumps over an instruction unless its condition, which is `undefined`, is true. -/
def branching : CodeUnit := ⟨"f", [], [], [1, 20, 0, 5, 1, 21]⟩

/-- The payload of the unit, with a blank digest. -/
def branchingPayload : List UInt8 :=
  Payload.magic ++ [1, 0] ++ [1, 0, 0, 0, 102] ++ [0, 0, 0, 0] ++ [0, 0, 0, 0] ++
    [6, 0, 0, 0, 1, 20, 0, 5, 1, 21] ++ List.replicate 32 0

/-- A loader that does not look at digests. -/
def trustingLoader : Loader := ⟨{ verifyChecksum := false }, 0, 0, 0, []⟩

/-- A session with this loader alone. -/
def trusting : World := { World.empty with loaders := #[trustingLoader] }

theorem onMap_of_load_branching :
    ∃ map : CodeMap, map.starts = [0, 1, 4, 5] ∧
      ∃ a ∈ ((Machine.calling (trusting.load 0 trustingLoader "f" branchingPayload).2
          0 .undefined []).steps .cached 3).activations,
        a.ip = 5 ∧ a.OnMap map := by
  have accepted : trusting.accept trustingLoader "f" branchingPayload = .ok branching := by cbv
  have load_eq : trusting.load 0 trustingLoader "f" branchingPayload =
      (.ok 0, (trusting.install 0 trustingLoader "f" branching).2) := by
    rw [World.load, accepted]
    rfl
  obtain ⟨u, map, decoded, -, walk, onMap⟩ := onMap_of_load (congrArg (·.1) load_eq)
  obtain rfl := Except.ok.inj (decoded.symm.trans (World.decode_of_accept accepted))
  have found : branching.mapFrom 0 branching.code = .ok ⟨[0, 1, 4, 5], [⟨1, 5⟩]⟩ := by cbv
  obtain rfl := Except.ok.inj (walk.symm.trans found)
  have reached : ((Machine.calling (trusting.install 0 trustingLoader "f" branching).2
      0 .undefined []).steps .cached 3).activations.map (fun a => (a.ip, a.unit)) =
        [(5, ⟨0, "f", branching, 0⟩)] := by cbv
  rw [load_eq]
  obtain ⟨a, ha, there⟩ := List.mem_map.mp (reached ▸ List.mem_cons_self)
  obtain ⟨ip, same⟩ := Prod.mk.inj there
  refine ⟨_, rfl, a, ha, ip, onMap _ ?_ .cached 3 a ha same⟩
  intro b hb
  cases hb

end ProtoVM
