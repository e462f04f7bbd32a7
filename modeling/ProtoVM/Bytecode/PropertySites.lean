import ProtoVM.Bytecode.Unit

/-!
# Property sites

The instructions of a unit that read a property, each with its offset and the key it reads. They
are found by walking the code once from the start; the walk ends at a byte that is no opcode.
-/

namespace ProtoVM

/-- An instruction that reads a property. -/
structure PropertySite where
  offset : Nat
  key : String
deriving DecidableEq

namespace CodeUnit

/-- The sites in a piece of code that starts at an offset. -/
def sitesFrom (u : CodeUnit) (offset : Nat) : Code → List PropertySite
  | [] => []
  | byte :: rest =>
    match Opcode.ofByte? byte with
    | none => []
    | some op =>
      let width := op.length - 1
      let later := u.sitesFrom (offset + op.length) (rest.drop width)
      if op = .getProperty then
        match u.stringAt? (Code.ofBigEndian (rest.take width)) with
        | some key => ⟨offset, key⟩ :: later
        | none => later
      else later
termination_by code => code.length
decreasing_by simp only [List.length_drop, List.length_cons]; omega

/-- The sites of a unit. -/
def propertySites (u : CodeUnit) : List PropertySite := u.sitesFrom 0 u.code

end CodeUnit

end ProtoVM
