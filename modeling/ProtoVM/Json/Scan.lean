import ProtoVM.Json.Library
import ProtoVM.Number.Binary64

/-!
# Scanning JSON text

Scanners take tokens from the front of the UTF-8 bytes of a JSON text. They stop at the first
problem, which is one of three kinds: the text ends too early, it is malformed, or it is well
formed but not what was asked for.
-/

namespace ProtoVM.Json

/-- Takes something from the front of a text. -/
abbrev Scan := StateT (List UInt8) (Except Problem)

/-- The byte of an ASCII character. -/
def ascii (c : Char) : UInt8 := UInt8.ofNat c.toNat

/-- Space, line feed, carriage return and tab. -/
def isBlank (b : UInt8) : Bool := b == 0x20 || b == 0x0a || b == 0x0d || b == 0x09

def isDigit (b : UInt8) : Bool := 0x30 ≤ b && b ≤ 0x39

/-- Skips blanks and shows the byte after them. -/
def peek : Scan (Option UInt8) := fun input =>
  let rest := input.dropWhile isBlank
  .ok (rest.head?, rest)

/-- Takes a byte that has been seen. -/
def skip : Scan Unit := modify List.tail

/-- Takes a given character if it is next. -/
def accept (c : Char) : Scan Bool := fun input =>
  if input.head? = some (ascii c) then .ok (true, input.tail) else .ok (false, input)

/-- Something that had to follow is not there. -/
def missing {α : Type} : Scan α := do
  if (← get).isEmpty then throw .ended else throw .malformed

/-- Takes the letters of a word. -/
def word : List Char → Scan Unit
  | [] => return
  | c :: cs => do if ← accept c then word cs else missing

/-! ## Strings -/

/-- The value of a hexadecimal digit. -/
def hexDigit? (b : UInt8) : Option Nat :=
  if isDigit b then some (b.toNat - 0x30)
  else if 0x41 ≤ b && b ≤ 0x46 then some (b.toNat - 0x41 + 10)
  else if 0x61 ≤ b && b ≤ 0x66 then some (b.toNat - 0x61 + 10)
  else none

/-- Takes the four digits of a `\u` escape. -/
def hexUnit : List UInt8 → Except Problem (Nat × List UInt8)
  | a :: b :: c :: d :: rest =>
    match hexDigit? a, hexDigit? b, hexDigit? c, hexDigit? d with
    | some a, some b, some c, some d => .ok (((a * 16 + b) * 16 + c) * 16 + d, rest)
    | _, _, _, _ => .error .malformed
  | _ => .error .ended

/-- The UTF-8 bytes of a code point. -/
def utf8 (codePoint : Nat) : List UInt8 :=
  (String.singleton (Char.ofNat codePoint)).toUTF8.data.toList

/-- The second half of a code point past U+FFFF: another `\u` escape. -/
def secondHalf : List UInt8 → Except Problem (Nat × List UInt8)
  | [] => .error .ended
  | [b] => if b = ascii '\\' then .error .ended else .error .malformed
  | b :: u :: rest =>
    if b = ascii '\\' && u = ascii 'u' then hexUnit rest else .error .malformed

/-- The code point of two halves, and nothing if the second half is none. -/
def joinHalves? (first second : Nat) : Option Nat :=
  if 0xdc00 ≤ second ∧ second ≤ 0xdfff then
    some (0x10000 + (first - 0xd800) * 0x400 + (second - 0xdc00))
  else none

/-- What follows `\u`: one code point, or the two halves of one past U+FFFF. -/
def unicodeEscape (input : List UInt8) : Except Problem (List UInt8 × List UInt8) :=
  match hexUnit input with
  | .error e => .error e
  | .ok (first, rest) =>
    if 0xdc00 ≤ first ∧ first ≤ 0xdfff then .error .malformed
    else if first < 0xd800 ∨ 0xdbff < first then .ok (utf8 first, rest)
    else
      match secondHalf rest with
      | .error e => .error e
      | .ok (second, rest) =>
        match joinHalves? first second with
        | some codePoint => .ok (utf8 codePoint, rest)
        | none => .error .malformed

/-- The byte that a one-letter escape stands for. -/
def letterEscape? (b : UInt8) : Option UInt8 :=
  if b = ascii '"' || b = ascii '\\' || b = ascii '/' then some b
  else if b = ascii 'b' then some 0x08
  else if b = ascii 'f' then some 0x0c
  else if b = ascii 'n' then some 0x0a
  else if b = ascii 'r' then some 0x0d
  else if b = ascii 't' then some 0x09
  else none

/-- What follows a backslash. -/
def escape : List UInt8 → Except Problem (List UInt8 × List UInt8)
  | [] => .error .ended
  | b :: rest =>
    match letterEscape? b with
    | some byte => .ok ([byte], rest)
    | none => if b = ascii 'u' then unicodeEscape rest else .error .malformed

theorem length_hexUnit {input : List UInt8} {r : Nat × List UInt8} (h : hexUnit input = .ok r) :
    r.2.length < input.length := by
  unfold hexUnit at h
  split at h
  · split at h
    · cases h
      simp only [List.length_cons]
      omega
    · cases h
  · cases h

theorem length_secondHalf {input : List UInt8} {r : Nat × List UInt8}
    (h : secondHalf input = .ok r) : r.2.length < input.length := by
  unfold secondHalf at h
  split at h
  · cases h
  · split at h <;> cases h
  · split at h
    · have := length_hexUnit h
      simp only [List.length_cons]
      omega
    · cases h

theorem length_unicodeEscape {input : List UInt8} {r : List UInt8 × List UInt8}
    (h : unicodeEscape input = .ok r) : r.2.length < input.length := by
  unfold unicodeEscape at h
  split at h
  · cases h
  · rename_i first rest h1
    have first_lt := length_hexUnit h1
    split at h
    · cases h
    · split at h
      · cases h
        exact first_lt
      · split at h
        · cases h
        · rename_i second rest' h2
          have second_lt := length_secondHalf h2
          simp only at first_lt second_lt
          split at h
          · cases h
            simp only
            omega
          · cases h

theorem length_escape {input : List UInt8} {r : List UInt8 × List UInt8}
    (h : escape input = .ok r) : r.2.length < input.length := by
  unfold escape at h
  split at h
  · cases h
  · split at h
    · cases h
      simp
    · split at h
      · have := length_unicodeEscape h
        simp only [List.length_cons]
        omega
      · cases h

/-- The bytes of a string up to its closing quote, escapes resolved. -/
def stringTail : List UInt8 → Except Problem (List UInt8 × List UInt8)
  | [] => .error .ended
  | b :: rest =>
    if b = ascii '"' then .ok ([], rest)
    else if b = ascii '\\' then
      match h : escape rest with
      | .error e => .error e
      | .ok (bytes, rest') =>
        have := length_escape h
        match stringTail rest' with
        | .error e => .error e
        | .ok (more, rest) => .ok (bytes ++ more, rest)
    else if b < 0x20 then .error .malformed
    else
      match stringTail rest with
      | .error e => .error e
      | .ok (more, rest) => .ok (b :: more, rest)
termination_by input => input.length
decreasing_by
  · simp only [List.length_cons] at this ⊢
    omega
  · simp

/-- Takes a string whose opening quote has been taken. -/
def string : Scan (List UInt8) := stringTail

/-! ## Numbers -/

/-- What a number token stands for. -/
inductive Number where
  /-- A whole number without sign below `2 ^ 64`. -/
  | natural (n : Nat)
  | other
deriving DecidableEq

/-- Takes the digits at the front. -/
def digits : Scan (List UInt8) := fun input =>
  .ok (input.takeWhile isDigit, input.dropWhile isDigit)

/-- Takes at least one digit. -/
def someDigits : Scan (List UInt8) := do
  let found ← digits
  if found.isEmpty then missing else return found

/-- Appends decimal digits to a number as long as it stays below `2 ^ 64`, and answers the digits
left over. -/
def absorb : Nat → List UInt8 → Nat × List UInt8
  | n, [] => (n, [])
  | n, d :: ds =>
    let next := n * 10 + (d.toNat - 0x30)
    if next < UInt64.size then absorb next ds else (n, d :: ds)

/-- The number `significand * 10 ^ exponent` is past the largest binary64 number, judged by
rounding the significand, then the power, then their product. -/
def tooLarge (significand : Nat) (exponent : Int) : Bool :=
  decide (0 ≤ exponent ∧ significand ≠ 0) &&
    (decide (308 < exponent) ||
      ((Binary64.ofInt significand).mul
        (Binary64.ofInt (Nat.pow 10 exponent.toNat))).isInfinite)

/-- Takes the letter that starts an exponent if it is next. -/
def acceptExponent : Scan Bool := do if ← accept 'e' then return true else accept 'E'

/-- Takes the exponent of a number, if there is one. -/
def exponent : Scan (Option Int) := do
  if ← acceptExponent then
    let negative ← if ← accept '-' then pure true else do let _ ← accept '+'; pure false
    let found ← someDigits
    let size : Nat := found.foldl (fun n d => n * 10 + (d.toNat - 0x30)) 0
    return some (if negative then -(size : Int) else size)
  else return none

/-- Takes a number after its sign. A number past the range of binary64 is malformed; digits that
do not fit into the 64-bit significand count as zeros before the point and not at all after it. -/
def number (negative : Bool) : Scan Number := do
  let whole ← someDigits
  if whole.head? = some (ascii '0') && whole.length ≠ 1 then throw .malformed
  let fraction ← if ← accept '.' then some <$> someDigits else pure none
  let power ← exponent
  let (head, left) := absorb 0 whole
  if fraction.isNone && power.isNone && left.isEmpty then
    return if negative then .other else .natural head
  let after := fraction.getD []
  let (significand, unused) := absorb head after
  let exponent : Int := power.getD 0 + left.length - (after.length - unused.length : Nat)
  if tooLarge significand exponent then throw .malformed
  return .other

/-! ## Refusal -/

/-- Refuses the value that comes next. Words, numbers and strings are read whole first; lists and
objects are refused at their opening bracket. -/
def refuse {α : Type} : Scan α := do
  match ← peek with
  | none => throw .ended
  | some b =>
    if b = ascii 'n' then word ['n', 'u', 'l', 'l']
    else if b = ascii 't' then word ['t', 'r', 'u', 'e']
    else if b = ascii 'f' then word ['f', 'a', 'l', 's', 'e']
    else if b = ascii '-' then do skip; let _ ← number true
    else if isDigit b then do let _ ← number false
    else if b = ascii '"' then do skip; let _ ← string
    else if b = ascii '[' || b = ascii '\x7b' then pure ()
    else throw .malformed
    throw .unsuitable

end ProtoVM.Json
