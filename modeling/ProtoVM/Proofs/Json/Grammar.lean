import Mathlib
import ProtoVM.Json.Library
import ProtoVM.Proofs.Json.Strings

/-!
# Objects of JSON text

The grammar of JSON: an object lists members, each of them a name and a value, with blanks anywhere
between the tokens. The members are told apart here, with their names as they are meant and their
values as they are written.
-/

namespace ProtoVM.Json

/-! ## Members -/

/-- A member of an object: its name, and its value as it is written. -/
structure Member where
  name : String
  value : List Char

/-- The name in quotes, a colon and the value, with blanks before each of them. -/
inductive SpellsMember (m : Member) : List Char → Prop where
  | spelled {b b' b'' text : List Char} (before : Blanks b)
    (name : SpellsString m.name.toList text) (between : Blanks b') (after : Blanks b'') :
    SpellsMember m (b ++ '"' :: text ++ '"' :: b' ++ ':' :: b'' ++ m.value)

/-- An item of a list with blanks before it. -/
inductive SpellsItem (value : List Char) : List Char → Prop where
  | spelled {b : List Char} (before : Blanks b) : SpellsItem value (b ++ value)

/-- Items one after the other, with a comma before each but the first one, and blanks before the
commas and at the end. -/
inductive Lists {ι : Type} (Spells : ι → List Char → Prop) :
    (first : Bool) → List ι → List Char → Prop where
  | none {first : Bool} {b : List Char} (blank : Blanks b) : Lists Spells first [] b
  | first {i : ι} {is : List ι} {text later : List Char} (item : Spells i text)
    (more : Lists Spells false is later) : Lists Spells true (i :: is) (text ++ later)
  | next {b : List Char} {i : ι} {is : List ι} {text later : List Char} (blank : Blanks b)
    (item : Spells i text) (more : Lists Spells false is later) :
    Lists Spells false (i :: is) (b ++ ',' :: text ++ later)

/-- The members in braces, with blanks around them. -/
inductive SpellsObject (ms : List Member) : List Char → Prop where
  | spelled {b b' text : List Char} (before : Blanks b) (members : Lists SpellsMember true ms text)
    (after : Blanks b') : SpellsObject ms (b ++ '\x7b' :: text ++ '\x7d' :: b')

/-! ## Values -/

/-- Some digits. -/
structure Digits (cs : List Char) : Prop where
  some : cs ≠ []
  digits : ∀ c ∈ cs, c.isDigit

/-- A number: a sign, a whole part without leading zeros, a fraction and an exponent. -/
structure IsNumber (sign whole fraction exponent : List Char) : Prop where
  signed : sign = [] ∨ sign = ['-']
  digits : Digits whole
  leading : whole.head? = some '0' → whole = ['0']
  pointed : fraction = [] ∨ ∃ ds, Digits ds ∧ fraction = '.' :: ds
  powered : exponent = [] ∨ ∃ e ∈ ['e', 'E'], ∃ s ∈ [[], ['+'], ['-']], ∃ ds,
    Digits ds ∧ exponent = e :: s ++ ds

/-- A value as it is written. -/
inductive IsValue : List Char → Prop where
  | word {text : List Char} (mem : text ∈ ["true".toList, "false".toList, "null".toList]) :
    IsValue text
  | number {sign whole fraction exponent : List Char}
    (number : IsNumber sign whole fraction exponent) :
    IsValue (sign ++ whole ++ fraction ++ exponent)
  | string {cs text : List Char} (spelled : SpellsString cs text) : IsValue ('"' :: text ++ ['"'])
  | list {items : List (List Char)} {text : List Char} (listed : Lists SpellsItem true items text)
    (values : ∀ value ∈ items, IsValue value) : IsValue ('[' :: text ++ [']'])
  | object {ms : List Member} {text : List Char} (listed : Lists SpellsMember true ms text)
    (values : ∀ m ∈ ms, IsValue m.value) : IsValue ('\x7b' :: text ++ ['\x7d'])

theorem blanks_nil : Blanks [] := by simp [Blanks]

theorem digits_decimal (n : Nat) : Digits (decimal n) :=
  ⟨decimal_ne_nil n, fun _ => isDigit_of_mem_decimal⟩

theorem isNumber_decimal (n : Nat) : IsNumber [] (decimal n) [] [] where
  signed := .inl rfl
  digits := digits_decimal n
  leading zero := by
    rw [eq_zero_of_head?_decimal zero]
    rfl
  pointed := .inl rfl
  powered := .inl rfl

/-- Truth values and sizes are written as values. -/
theorem isValue_text (s : Scalar) : IsValue s.text := by
  obtain ⟨kind, value⟩ := s
  cases kind with
  | flag =>
    cases value with
    | true => exact .word (by decide)
    | false => exact .word (by decide)
  | size =>
    have written := IsValue.number (isNumber_decimal (UInt64.toNat value))
    rw [List.nil_append, List.append_nil, List.append_nil] at written
    exact written

/-! ## Entries -/

/-- An entry as it is written. -/
def Entry.member (e : Entry) : Member := ⟨e.1, e.2.text⟩

end ProtoVM.Json
