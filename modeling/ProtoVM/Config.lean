import ProtoVM.Json.StandardLibrary

/-!
# Settings of a loader

A loader is configured by three settings, each with a default. Their JSON form is a record: what is
missing keeps its default, and a field that is unknown or given twice is refused.
-/

namespace ProtoVM

/-- The settings of a loader. -/
structure Config where
  /-- Refuse payloads whose digest is wrong. -/
  verifyChecksum : Bool := true
  /-- The deepest nesting of calls into code units. -/
  maxCallDepth : UInt64 := 512
  /-- The operands that one call into a code unit may hold at a time. -/
  maxStack : UInt64 := 4096
deriving DecidableEq

namespace Config

/-- The settings as a record type. -/
def record : Json.Record Config where
  fields := [
    ⟨"verify_checksum", .flag, (·.verifyChecksum), fun c b => { c with verifyChecksum := b }⟩,
    ⟨"max_call_depth", .size, (·.maxCallDepth), fun c n => { c with maxCallDepth := n }⟩,
    ⟨"max_stack", .size, (·.maxStack), fun c n => { c with maxStack := n }⟩]
  default := {}
  distinct := by decide
  get_set := by simp
  get_set_of_ne := by simp

/-- The settings that a library reads in a JSON text (`from_json_str`). -/
def readJson (lib : Json.Library) (text : String) : Except Json.Problem Config :=
  lib.read (lib.visitor record) text

/-- The settings as a library writes them. -/
def writeJson (lib : Json.Library) (c : Config) : String := lib.write (lib.entries record c)

/-- The settings that the program reads in a JSON text. -/
def ofJson (text : String) : Except Json.Problem Config := readJson Json.library text

/-- The settings as the program writes them. -/
def toJson (c : Config) : String := writeJson Json.library c

end Config

end ProtoVM
