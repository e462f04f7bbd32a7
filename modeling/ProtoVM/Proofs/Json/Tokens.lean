import Mathlib
import ProtoVM.Json.Scan

/-!
# Tokens of JSON text

A scanner works on the UTF-8 bytes of a text (`encoded`). Here is what the scanners take of blanks,
marks, words and decimal numbers that stand at the front of a text.
-/

namespace ProtoVM.Json

/-! ## Bytes of a text -/

/-- The UTF-8 bytes of some characters. -/
def encoded (cs : List Char) : List UInt8 := cs.flatMap String.utf8EncodeChar

/-- A character of a single byte. -/
def IsAscii (c : Char) : Prop := c.toNat < 128

instance (c : Char) : Decidable (IsAscii c) := inferInstanceAs (Decidable (c.toNat < 128))

theorem toUTF8_eq_encoded (s : String) : s.toUTF8.data.toList = encoded s.toList := by
  rw [String.toUTF8_eq_toByteArray, ← String.utf8Encode_toList, List.utf8Encode]
  simp [encoded]

@[simp] theorem encoded_nil : encoded [] = [] := rfl

@[simp] theorem encoded_append (cs ds : List Char) :
    encoded (cs ++ ds) = encoded cs ++ encoded ds :=
  List.flatMap_append

theorem utf8EncodeChar_of_isAscii {c : Char} (h : IsAscii c) :
    String.utf8EncodeChar c = [ascii c] := by
  have small : c.val.toNat ≤ 127 := Nat.le_of_lt_succ h
  rw [String.utf8EncodeChar]
  exact if_pos small

theorem encoded_cons {c : Char} (h : IsAscii c) (cs : List Char) :
    encoded (c :: cs) = ascii c :: encoded cs := by
  rw [encoded, List.flatMap_cons, utf8EncodeChar_of_isAscii h]
  rfl

theorem encoded_of_isAscii {cs : List Char} (h : ∀ c ∈ cs, IsAscii c) :
    encoded cs = cs.map ascii := by
  induction cs with
  | nil => rfl
  | cons c cs ih =>
    obtain ⟨first, later⟩ := List.forall_mem_cons.mp h
    rw [encoded_cons first, ih later, List.map_cons]

theorem toNat_ascii {c : Char} (h : IsAscii c) : (ascii c).toNat = c.toNat :=
  UInt8.toNat_ofNat_of_lt' (Nat.lt_trans h (by decide))

/-- Different characters have different bytes. -/
theorem ascii_ne {c d : Char} (hc : IsAscii c) (hd : IsAscii d) (h : c ≠ d) :
    ascii c ≠ ascii d := by
  intro same
  apply h
  rw [← Char.toNat_inj, ← toNat_ascii hc, ← toNat_ascii hd, same]

/-! ## Scanners one after the other -/

section

variable {α β : Type} {scan : Scan α} {next : α → Scan β} {input rest : List UInt8}

theorem bind_of_ok {a : α} (h : scan input = .ok (a, rest)) :
    (scan >>= next) input = next a rest := by
  show (scan input).bind (fun (a, rest) => next a rest) = _
  rw [h]
  rfl

theorem bind_of_error {e : Problem} (h : scan input = .error e) :
    (scan >>= next) input = .error e := by
  show (scan input).bind (fun (a, rest) => next a rest) = _
  rw [h]
  rfl

end

/-! ## Blanks and marks -/

/-- Any number of blanks. -/
def Blanks (cs : List Char) : Prop := ∀ c ∈ cs, c = ' ' ∨ c = '\n' ∨ c = '\r' ∨ c = '\t'

theorem isBlank_of_mem {b : List Char} (blank : Blanks b) : ∀ x ∈ encoded b, isBlank x := by
  have blanks (c : Char) (h : c ∈ b) : IsAscii c ∧ isBlank (ascii c) := by
    rcases blank c h with rfl | rfl | rfl | rfl <;> decide
  rw [encoded_of_isAscii fun c h => (blanks c h).1]
  intro x mem
  obtain ⟨c, hc, rfl⟩ := List.mem_map.mp mem
  exact (blanks c hc).2

/-- Blanks are skipped up to a byte that is none. -/
theorem peek_blanks {b : List Char} (blank : Blanks b) {x : UInt8} (solid : isBlank x = false)
    (rest : List UInt8) : peek (encoded b ++ x :: rest) = .ok (some x, x :: rest) := by
  have skipped : (encoded b ++ x :: rest).dropWhile isBlank = x :: rest := by
    rw [List.dropWhile_append_of_pos (isBlank_of_mem blank),
      List.dropWhile_cons_of_neg (by simp [solid])]
  rw [peek]
  simp only [skipped]
  rfl

theorem peek_word {b : List Char} (blank : Blanks b) {c : Char} (solid : isBlank (ascii c) = false)
    (cs : List Char) (rest : List UInt8) :
    peek (encoded b ++ ((c :: cs).map ascii ++ rest)) =
      .ok (some (ascii c), (c :: cs).map ascii ++ rest) :=
  peek_blanks blank solid (cs.map ascii ++ rest)

theorem peek_solid {x : UInt8} (solid : isBlank x = false) (rest : List UInt8) :
    peek (x :: rest) = .ok (some x, x :: rest) := by
  have blank : Blanks [] := by simp [Blanks]
  exact peek_blanks blank solid rest

theorem skip_cons (x : UInt8) (rest : List UInt8) : skip (x :: rest) = .ok ((), rest) := rfl

theorem accept_same (c : Char) (rest : List UInt8) :
    accept c (ascii c :: rest) = .ok (true, rest) := if_pos rfl

theorem accept_other {c : Char} {x : UInt8} (other : x ≠ ascii c) (rest : List UInt8) :
    accept c (x :: rest) = .ok (false, x :: rest) := by
  refine if_neg fun same => other ?_
  exact Option.some.inj same

theorem word_same (cs : List Char) (rest : List UInt8) :
    word cs (cs.map ascii ++ rest) = .ok ((), rest) := by
  induction cs with
  | nil => rfl
  | cons c cs ih =>
    rw [word, List.map_cons, List.cons_append, bind_of_ok (accept_same c _)]
    exact ih

/-! ## Decimal numbers -/

/-- A byte that ends a whole number: no digit, no point, and no exponent. -/
structure EndsNumber (x : UInt8) : Prop where
  digit : isDigit x = false
  point : x ≠ ascii '.'
  exponent : x ≠ ascii 'e' ∧ x ≠ ascii 'E'

instance (x : UInt8) : Decidable (EndsNumber x) :=
  decidable_of_iff (isDigit x = false ∧ x ≠ ascii '.' ∧ x ≠ ascii 'e' ∧ x ≠ ascii 'E')
    ⟨fun h => ⟨h.1, h.2.1, h.2.2⟩, fun h => ⟨h.digit, h.point, h.exponent⟩⟩

/-- The digits of a number. -/
def decimal (n : Nat) : List Char := (toString n).toList

theorem decimal_eq (n : Nat) : decimal n = Nat.toDigits 10 n := by simp [decimal]

theorem isDigit_of_mem_decimal {n : Nat} {c : Char} (mem : c ∈ decimal n) : c.isDigit := by
  rw [decimal_eq] at mem
  exact Nat.isDigit_of_mem_toDigits (by decide) (by decide) mem

theorem bounds_of_isDigit {c : Char} (h : c.isDigit) : 48 ≤ c.toNat ∧ c.toNat ≤ 57 :=
  Char.isDigit_iff_toNat.mp h

theorem encoded_of_isDigit {cs : List Char} (digits : ∀ c ∈ cs, c.isDigit) :
    encoded cs = cs.map ascii := by
  refine encoded_of_isAscii fun c mem => ?_
  have := bounds_of_isDigit (digits c mem)
  unfold IsAscii
  omega

/-- The byte of a digit is a digit. -/
theorem isDigit_ascii {c : Char} (h : c.isDigit) : isDigit (ascii c) := by
  have bounds := bounds_of_isDigit h
  have byte : (ascii c).toNat = c.toNat := toNat_ascii (by unfold IsAscii; omega)
  simp only [isDigit, Bool.and_eq_true, decide_eq_true_eq, UInt8.le_iff_toNat_le, byte]
  exact bounds

theorem isBlank_of_isDigit {x : UInt8} (digit : isDigit x) : isBlank x = false := by
  rw [Bool.eq_false_iff]
  intro blank
  simp only [isBlank, Bool.or_eq_true, beq_iff_eq] at blank
  rcases blank with ((rfl | rfl) | rfl) | rfl <;> exact absurd digit (by decide)

theorem decimal_ne_nil (n : Nat) : decimal n ≠ [] := by
  rw [decimal_eq]
  exact Nat.toDigits_ne_nil

/-- Only zero starts with a zero. -/
theorem eq_zero_of_head?_decimal {n : Nat} (h : (decimal n).head? = some '0') : n = 0 := by
  induction n using Nat.strongRecOn with
  | ind n ih =>
    rw [decimal_eq, Nat.toDigits_eq_if (by decide)] at h
    by_cases small : n < 10
    · rw [if_pos small] at h
      interval_cases n
      all_goals first | rfl | cases h
    · rw [if_neg small, ← decimal_eq, List.head?_append_of_ne_nil _ (decimal_ne_nil _)] at h
      have := ih (n / 10) (by omega) h
      omega

theorem head?_decimal_of_ascii {n : Nat}
    (h : ((decimal n).map ascii).head? = some (ascii '0')) : (decimal n).head? = some '0' := by
  cases digits : decimal n with
  | nil => exact absurd digits (decimal_ne_nil n)
  | cons c cs =>
    rw [digits] at h
    have bounds := bounds_of_isDigit (isDigit_of_mem_decimal (n := n) (c := c) (by simp [digits]))
    by_contra other
    refine ascii_ne ?_ (by decide) (fun same => other ?_) (Option.some.inj h)
    · unfold IsAscii
      omega
    · rw [same]
      rfl

/-- Digits are absorbed as long as the number that they stand for has 64 bits. -/
theorem absorb_digits {cs : List Char} (digits : ∀ c ∈ cs, c.isDigit) (start : Nat)
    (small : Nat.ofDigitChars 10 cs start < UInt64.size) :
    absorb start (cs.map ascii) = (Nat.ofDigitChars 10 cs start, []) := by
  induction cs generalizing start with
  | nil => rfl
  | cons c cs ih =>
    obtain ⟨digit, later⟩ := List.forall_mem_cons.mp digits
    have bounds := bounds_of_isDigit digit
    have byte : (ascii c).toNat = c.toNat := toNat_ascii (by unfold IsAscii; omega)
    have next : start * 10 + ((ascii c).toNat - 0x30) = 10 * start + (c.toNat - '0'.toNat) := by
      rw [byte, Nat.mul_comm]
      rfl
    rw [Nat.ofDigitChars_cons] at small ⊢
    -- the digits behind it only make the number larger
    have fits : 10 * start + (c.toNat - '0'.toNat) < UInt64.size := by
      refine Nat.lt_of_le_of_lt ?_ small
      rw [Nat.ofDigitChars_eq_ofDigitChars_zero]
      have := Nat.le_mul_of_pos_left (10 * start + (c.toNat - '0'.toNat))
        (Nat.pow_pos (n := cs.length) (show 0 < 10 by decide))
      omega
    rw [List.map_cons, absorb]
    simp only [next, if_pos fits]
    exact ih later _ small

/-- A whole number of 64 bits is taken up to a byte that ends it. -/
theorem number_decimal {n : Nat} (small : n < UInt64.size) {x : UInt8} (ends : EndsNumber x)
    (rest : List UInt8) :
    number false (encoded (decimal n) ++ x :: rest) = .ok (.natural n, x :: rest) := by
  have digits : ∀ c ∈ decimal n, c.isDigit := fun c => isDigit_of_mem_decimal
  have bytes : ∀ b ∈ (decimal n).map ascii, isDigit b := by
    intro b mem
    obtain ⟨c, hc, rfl⟩ := List.mem_map.mp mem
    exact isDigit_ascii (digits c hc)
  have found : Json.digits ((decimal n).map ascii ++ x :: rest) =
      .ok ((decimal n).map ascii, x :: rest) := by
    simp [Json.digits, List.takeWhile_append_of_pos bytes, List.dropWhile_append_of_pos bytes,
      ends.digit]
  have whole : someDigits ((decimal n).map ascii ++ x :: rest) =
      .ok ((decimal n).map ascii, x :: rest) := by
    rw [someDigits, bind_of_ok found, if_neg (by simp [decimal_ne_nil])]
    rfl
  have point := accept_other ends.point rest
  have power : Json.exponent (x :: rest) = .ok (none, x :: rest) := by
    have letter : acceptExponent (x :: rest) = .ok (false, x :: rest) := by
      rw [acceptExponent, bind_of_ok (accept_other ends.exponent.1 rest)]
      exact accept_other ends.exponent.2 rest
    rw [Json.exponent, bind_of_ok letter]
    rfl
  have absorbed : absorb 0 ((decimal n).map ascii) = (n, []) := by
    have value : Nat.ofDigitChars 10 (decimal n) 0 = n := by
      rw [decimal_eq]
      exact Nat.ofDigitChars_toDigits (by decide) (by decide)
    have taken := absorb_digits digits 0 (by rwa [value])
    rwa [value] at taken
  have leading : ¬ ((decide (((decimal n).map ascii).head? = some (ascii '0')) &&
      decide (((decimal n).map ascii).length ≠ 1)) = true) := by
    rw [Bool.and_eq_true, decide_eq_true_eq, decide_eq_true_eq]
    rintro ⟨zero, several⟩
    have first := head?_decimal_of_ascii zero
    rw [eq_zero_of_head?_decimal first] at several
    exact several rfl
  have none_found : (pure none : Scan (Option (List UInt8))) (x :: rest) = .ok (none, x :: rest) :=
    rfl
  rw [encoded_of_isDigit digits, number, bind_of_ok whole, if_neg leading]
  dsimp only
  rw [bind_of_ok point, if_neg (by decide), bind_of_ok none_found, bind_of_ok power]
  simp only [absorbed]
  rfl

end ProtoVM.Json
