import ProtoVM.Text.Unprinted

/-!
# Quoted text

How names are shown inside a description: between double quotes, with quotes, backslashes and
characters that can not be shown written as escapes.
-/

namespace ProtoVM.Quoted

/-- One character as it stands between the quotes. -/
def escape (c : Char) : List Char :=
  match c with
  | '"' => ['\\', '"']
  | '\\' => ['\\', '\\']
  | '\n' => ['\\', 'n']
  | '\t' => ['\\', 't']
  | '\r' => ['\\', 'r']
  | '\x00' => ['\\', '0']
  | c =>
    if Unprinted.holds c then ['\\', 'u', '\x7b'] ++ Nat.toDigits 16 c.toNat ++ ['\x7d'] else [c]

/-- A text between quotes. -/
def text (s : String) : String := String.ofList ('"' :: s.toList.flatMap escape ++ ['"'])

/-- A list of texts, each between quotes. -/
def list (ss : List String) : String := "[" ++ String.intercalate ", " (ss.map text) ++ "]"

end ProtoVM.Quoted
