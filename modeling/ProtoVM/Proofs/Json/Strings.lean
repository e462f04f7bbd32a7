import Mathlib
import ProtoVM.Proofs.Json.Tokens

/-!
# Strings of JSON text

A character of a string can be spelled as itself or with an escape: a letter, its code point, or the
two halves of it. However it is spelled, the scanner takes the UTF-8 bytes of the character.
-/

namespace ProtoVM.Json

/-! ## Spellings -/

/-- Hexadecimal digits of both cases with their values. -/
def hexDigits : List (Char × Nat) :=
  "0123456789abcdef".toList.zipIdx ++ "0123456789ABCDEF".toList.zipIdx

/-- The letters of escapes with the characters that they stand for. -/
def escapeLetters : List (Char × Char) :=
  [('"', '"'), ('\\', '\\'), ('/', '/'), ('b', '\x08'), ('f', '\x0c'), ('n', '\n'), ('r', '\r'),
   ('t', '\t')]

/-- Four hexadecimal digits. -/
inductive SpellsUnit : Nat → List Char → Prop where
  | digits {a b c d : Char} {i j k l : Nat} (first : (a, i) ∈ hexDigits)
    (second : (b, j) ∈ hexDigits) (third : (c, k) ∈ hexDigits) (fourth : (d, l) ∈ hexDigits) :
    SpellsUnit (((i * 16 + j) * 16 + k) * 16 + l) [a, b, c, d]

/-- The two halves of a code point past U+FFFF. -/
structure Halves (codePoint high low : Nat) : Prop where
  highRange : 0xd800 ≤ high ∧ high ≤ 0xdbff
  lowRange : 0xdc00 ≤ low ∧ low ≤ 0xdfff
  sum : codePoint = 0x10000 + (high - 0xd800) * 0x400 + (low - 0xdc00)

/-- What stands for a character behind a backslash. -/
inductive SpellsEscape : Char → List Char → Prop where
  | letter {c l : Char} (mem : (l, c) ∈ escapeLetters) : SpellsEscape c [l]
  | unit {c : Char} {digits : List Char} (unit : SpellsUnit c.toNat digits) :
    SpellsEscape c ('u' :: digits)
  | halves {c : Char} {high low : Nat} {digits digits' : List Char}
    (halves : Halves c.toNat high low) (first : SpellsUnit high digits)
    (second : SpellsUnit low digits') : SpellsEscape c ('u' :: digits ++ '\\' :: 'u' :: digits')

/-- A character between the quotes of a string. -/
inductive SpellsChar : Char → List Char → Prop where
  | plain {c : Char} (solid : 0x20 ≤ c.toNat) (quote : c ≠ '"') (backslash : c ≠ '\\') :
    SpellsChar c [c]
  | escape {c : Char} {text : List Char} (escape : SpellsEscape c text) :
    SpellsChar c ('\\' :: text)

/-- The characters between the quotes of a string. -/
inductive SpellsString : List Char → List Char → Prop where
  | nil : SpellsString [] []
  | cons {c : Char} {cs text texts : List Char} (first : SpellsChar c text)
    (later : SpellsString cs texts) : SpellsString (c :: cs) (text ++ texts)

/-- Characters that need no escape spell themselves. -/
theorem spellsString_self {cs : List Char}
    (plain : ∀ c ∈ cs, 0x20 ≤ c.toNat ∧ c ≠ '"' ∧ c ≠ '\\') : SpellsString cs cs := by
  induction cs with
  | nil => exact .nil
  | cons c cs ih =>
    obtain ⟨⟨solid, quote, backslash⟩, later⟩ := List.forall_mem_cons.mp plain
    exact .cons (.plain solid quote backslash) (ih later)

theorem SpellsString.append {cs ds text texts : List Char} (first : SpellsString cs text)
    (later : SpellsString ds texts) : SpellsString (cs ++ ds) (text ++ texts) := by
  induction first with
  | nil => exact later
  | cons char _ ih =>
    rw [List.cons_append, List.append_assoc]
    exact .cons char ih

/-! ## Escapes -/

theorem hexDigit?_of_mem {c : Char} {n : Nat} (mem : (c, n) ∈ hexDigits) :
    IsAscii c ∧ hexDigit? (ascii c) = some n := by
  have all : ∀ p ∈ hexDigits, IsAscii p.1 ∧ hexDigit? (ascii p.1) = some p.2 := by decide
  exact all _ mem

theorem letterEscape?_of_mem {l c : Char} (mem : (l, c) ∈ escapeLetters) :
    IsAscii l ∧ IsAscii c ∧ letterEscape? (ascii l) = some (ascii c) := by
  have all : ∀ p ∈ escapeLetters, IsAscii p.1 ∧ IsAscii p.2 ∧
      letterEscape? (ascii p.1) = some (ascii p.2) := by decide
  exact all _ mem

theorem hexUnit_of_spells {n : Nat} {digits : List Char} (h : SpellsUnit n digits)
    (rest : List UInt8) : hexUnit (encoded digits ++ rest) = .ok (n, rest) := by
  cases h with
  | digits first second third fourth =>
    obtain ⟨asciiA, valueA⟩ := hexDigit?_of_mem first
    obtain ⟨asciiB, valueB⟩ := hexDigit?_of_mem second
    obtain ⟨asciiC, valueC⟩ := hexDigit?_of_mem third
    obtain ⟨asciiD, valueD⟩ := hexDigit?_of_mem fourth
    simp [encoded_cons, asciiA, asciiB, asciiC, asciiD, hexUnit, valueA, valueB, valueC, valueD]

theorem utf8_toNat (c : Char) : utf8 c.toNat = encoded [c] := by
  rw [utf8, Char.ofNat_toNat, toUTF8_eq_encoded, String.toList_singleton]

theorem not_half (c : Char) : c.toNat < 0xd800 ∨ 0xdfff < c.toNat := by
  rcases c.valid with low | ⟨high, -⟩
  · exact .inl low
  · exact .inr high

theorem unicodeEscape_of_unit {c : Char} {digits : List Char} (h : SpellsUnit c.toNat digits)
    (rest : List UInt8) : unicodeEscape (encoded digits ++ rest) = .ok (encoded [c], rest) := by
  have valid := not_half c
  rw [unicodeEscape, hexUnit_of_spells h]
  dsimp only
  rw [if_neg (by omega), if_pos (by omega), utf8_toNat]

theorem unicodeEscape_of_halves {c : Char} {high low : Nat} {digits digits' : List Char}
    (halves : Halves c.toNat high low) (first : SpellsUnit high digits)
    (second : SpellsUnit low digits') (rest : List UInt8) :
    unicodeEscape (encoded digits ++ ascii '\\' :: ascii 'u' :: (encoded digits' ++ rest)) =
      .ok (encoded [c], rest) := by
  obtain ⟨highRange, lowRange, sum⟩ := halves
  have half : secondHalf (ascii '\\' :: ascii 'u' :: (encoded digits' ++ rest)) =
      .ok (low, rest) := by
    rw [secondHalf, if_pos (by decide), hexUnit_of_spells second]
  rw [unicodeEscape, hexUnit_of_spells first]
  dsimp only
  rw [if_neg (by omega), if_neg (by omega), half]
  dsimp only
  rw [joinHalves?, if_pos lowRange, ← sum]
  dsimp only
  rw [utf8_toNat]

/-- The scanner of escapes takes what stands behind the backslash. -/
theorem escape_of_spells {c : Char} {text : List Char} (h : SpellsEscape c text)
    (rest : List UInt8) : escape (encoded text ++ rest) = .ok (encoded [c], rest) := by
  have noLetter : letterEscape? (ascii 'u') = none := by decide
  have asciiU : IsAscii 'u' := by decide
  cases h with
  | letter mem =>
    obtain ⟨asciiL, asciiC, value⟩ := letterEscape?_of_mem mem
    simp only [encoded_cons asciiL, encoded_cons asciiC, encoded_nil, List.cons_append,
      List.nil_append, escape, value]
  | unit unit =>
    rw [encoded_cons asciiU, List.cons_append, escape, noLetter]
    dsimp only
    rw [if_pos rfl, unicodeEscape_of_unit unit]
  | halves halves first second =>
    rw [List.cons_append, encoded_cons asciiU, encoded_append, encoded_cons (by decide),
      encoded_cons asciiU, List.cons_append, escape, noLetter]
    dsimp only
    rw [if_pos rfl, List.append_assoc]
    exact unicodeEscape_of_halves halves first second rest

/-! ## Strings -/

/-- A byte that stands for itself between quotes. -/
def PlainByte (b : UInt8) : Prop := 0x20 ≤ b.toNat ∧ b ≠ ascii '"' ∧ b ≠ ascii '\\'

/-- The bytes of a character past ASCII are past ASCII. -/
theorem le_toNat_of_mem {c : Char} (past : ¬ IsAscii c) :
    ∀ b ∈ String.utf8EncodeChar c, 128 ≤ b.toNat := by
  have large : ¬ c.val.toNat ≤ 127 := fun small => past (Nat.lt_succ_of_le small)
  have byte (n : Nat) (ge : 128 ≤ n) (lt : n < 256) : 128 ≤ (UInt8.ofNat n).toNat := by
    rwa [UInt8.toNat_ofNat_of_lt' lt]
  rw [String.utf8EncodeChar, if_neg large]
  -- two, three or four bytes
  split_ifs
  all_goals
    simp only [List.forall_mem_cons, List.not_mem_nil, false_implies, implies_true, and_true]
    refine ⟨byte _ (by omega) (by omega), ?_⟩
  · exact byte _ (by omega) (by omega)
  · exact ⟨byte _ (by omega) (by omega), byte _ (by omega) (by omega)⟩
  · exact ⟨byte _ (by omega) (by omega), byte _ (by omega) (by omega),
      byte _ (by omega) (by omega)⟩

theorem plainByte_of_mem {c : Char} (solid : 0x20 ≤ c.toNat) (quote : c ≠ '"')
    (backslash : c ≠ '\\') : ∀ b ∈ encoded [c], PlainByte b := by
  by_cases single : IsAscii c
  · rw [encoded_cons single, encoded_nil]
    intro b mem
    rw [List.mem_singleton.mp mem]
    refine ⟨?_, ascii_ne single (by decide) quote, ascii_ne single (by decide) backslash⟩
    rwa [toNat_ascii single]
  · intro b mem
    have past := le_toNat_of_mem single b (by simpa [encoded] using mem)
    refine ⟨by omega, ?_, ?_⟩
    · rintro rfl
      exact absurd past (by decide)
    · rintro rfl
      exact absurd past (by decide)

theorem stringTail_plain {bytes more input rest : List UInt8} (plain : ∀ b ∈ bytes, PlainByte b)
    (later : stringTail input = .ok (more, rest)) :
    stringTail (bytes ++ input) = .ok (bytes ++ more, rest) := by
  induction bytes with
  | nil => exact later
  | cons b bytes ih =>
    obtain ⟨⟨solid, quote, backslash⟩, others⟩ := List.forall_mem_cons.mp plain
    have high : ¬ b < 0x20 := by
      rw [UInt8.lt_iff_toNat_lt]
      exact Nat.not_lt.mpr solid
    rw [List.cons_append, stringTail, if_neg quote, if_neg backslash, if_neg high, ih others]
    rfl

/-- The scanner takes a string up to its closing quote, however it is spelled. -/
theorem stringTail_of_spells {cs text : List Char} (h : SpellsString cs text) (rest : List UInt8) :
    stringTail (encoded text ++ ascii '"' :: rest) = .ok (encoded cs, rest) := by
  induction h with
  | nil => rw [encoded_nil, List.nil_append, stringTail, if_pos rfl]
  | @cons c cs text texts first later ih =>
    rw [encoded_append, List.append_assoc, show encoded (c :: cs) = encoded [c] ++ encoded cs from
      encoded_append [c] cs]
    cases first with
    | plain solid quote backslash =>
      exact stringTail_plain (plainByte_of_mem solid quote backslash) ih
    | escape escape =>
      have taken := escape_of_spells escape (encoded texts ++ ascii '"' :: rest)
      rw [encoded_cons (by decide), List.cons_append, stringTail, if_neg (by decide), if_pos rfl]
      split
      · rename_i e refused
        rw [taken] at refused
        cases refused
      · rename_i bytes rest' found
        rw [taken] at found
        cases found
        rw [ih]

end ProtoVM.Json
