import ProtoVM.Bytecode.PropertySites

/-!
# Walks over code

A walk goes from one instruction to the next. The walk that finds the property sites gives each of
them the name that its instruction refers to.
-/

namespace ProtoVM

/-- What follows an opcode in the code, and what follows its whole instruction. -/
theorem Code.drop_next {code : Code} {offset : Nat} {byte : UInt8} {rest : Code} (op : Opcode)
    (here : byte :: rest = code.drop offset) :
    rest = code.drop (offset + 1) ∧ rest.drop (op.length - 1) = code.drop (offset + op.length) := by
  have length := op.length_pos
  have after : rest = code.drop (offset + 1) := by
    rw [← List.drop_drop, ← here]
    rfl
  refine ⟨after, ?_⟩
  rw [after, List.drop_drop]
  congr 1
  omega

namespace CodeUnit

variable {u : CodeUnit}

theorem stringAt?_of_mem_sitesFrom (offset : Nat) (rest : Code) (here : rest = u.code.drop offset) :
    ∀ site ∈ u.sitesFrom offset rest, ∀ index,
      u.code.operandAt? (site.offset + 1) 2 = some index → u.stringAt? index = some site.key := by
  fun_induction sitesFrom u offset rest with
  | case1 => intro site mem; cases mem
  | case2 => intro site mem; cases mem
  | case3 offset byte rest key opcode width later named ih =>
    obtain ⟨after, next⟩ := Code.drop_next .getProperty here
    intro site mem index operand
    rcases List.mem_cons.mp mem with rfl | mem
    · -- both walks read the same two bytes
      rw [Code.operandAt?, ← after] at operand
      split at operand
      · cases operand
        exact named
      · cases operand
    · exact ih next site mem index operand
  | case4 offset byte rest opcode width later unnamed ih =>
    exact ih (Code.drop_next .getProperty here).2
  | case5 offset byte rest op opcode width later other ih => exact ih (Code.drop_next op here).2

/-- The key of a site is the name that the instruction at its offset reads. -/
theorem stringAt?_of_mem_propertySites {site : PropertySite} (mem : site ∈ u.propertySites)
    {index : Nat} (operand : u.code.operandAt? (site.offset + 1) 2 = some index) :
    u.stringAt? index = some site.key :=
  stringAt?_of_mem_sitesFrom 0 u.code rfl site mem index operand

end CodeUnit

end ProtoVM
