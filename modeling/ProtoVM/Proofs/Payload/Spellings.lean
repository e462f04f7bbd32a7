import ProtoVM.Payload.Reader

/-!
# Spellings

Which bytes are a payload of a unit is told field by field: each field has its spellings, and only
a `true` has more than one. Every reader takes exactly the spellings of what it answers (`Reads`),
so reading in order takes exactly what is spelled in order.
-/

namespace ProtoVM.Payload

/-! ## The format -/

/-- The length of the content in four bytes, and the content. -/
def Prefixed (content bytes : List UInt8) : Prop :=
  content.length < UInt32.size ∧ bytes = littleEndian 4 content.length ++ content

/-- The UTF-8 bytes of the text behind their length. -/
def SpellsString (s : String) (bytes : List UInt8) : Prop := Prefixed (utf8 s) bytes

/-- A tag byte and the value. Any nonzero byte spells `true`. -/
inductive SpellsConstant : Constant → List UInt8 → Prop where
  | int (i : Int64) : SpellsConstant (.int i) (0 :: littleEndian 8 i.toUInt64.toNat)
  | float (x : Binary64) : SpellsConstant (.float x) (1 :: littleEndian 8 x.bits.toNat)
  | str {s : String} {bytes : List UInt8} (text : SpellsString s bytes) :
    SpellsConstant (.str s) (2 :: bytes)
  | bool (value : UInt8) : SpellsConstant (.bool (value ≠ 0)) [3, value]
  | undefined : SpellsConstant .undefined [4]

/-- Spellings of the items one after the other. -/
inductive SpellsAll {α : Type} (Spells : α → List UInt8 → Prop) : List α → List UInt8 → Prop where
  | nil : SpellsAll Spells [] []
  | cons {a : α} {items : List α} {xs ys : List UInt8} (first : Spells a xs)
    (later : SpellsAll Spells items ys) : SpellsAll Spells (a :: items) (xs ++ ys)

/-- The count of the items in four bytes, and the items. -/
def SpellsList {α : Type} (Spells : α → List UInt8 → Prop) (items : List α) (bytes : List UInt8) :
    Prop :=
  items.length < UInt32.size ∧
    ∃ spelled, SpellsAll Spells items spelled ∧ bytes = littleEndian 4 items.length ++ spelled

/-- The name, the parameters, the constants and the code, with nothing left over. -/
def SpellsFields (u : CodeUnit) (bytes : List UInt8) : Prop :=
  ∃ name parameters constants code, SpellsString u.name name ∧
    SpellsList SpellsString u.parameters parameters ∧
    SpellsList SpellsConstant u.constants constants ∧ Prefixed u.code code ∧
    bytes = name ++ parameters ++ constants ++ code

/-! ## Readers that accept exactly the spellings of what they answer -/

/-- Whatever follows the bytes, the reader takes all of them and answers `a`. -/
def Takes {α : Type} (r : Reader α) (bytes : List UInt8) (a : α) : Prop :=
  ∀ rest, r (bytes ++ rest) = .ok (a, rest)

theorem takes_pure {α : Type} (a : α) : Takes (pure a) [] a := fun _ => rfl

theorem takes_bind {α β : Type} {r : Reader α} {f : α → Reader β} {xs ys : List UInt8} {a : α}
    {b : β} (first : Takes r xs a) (second : Takes (f a) ys b) : Takes (r >>= f) (xs ++ ys) b := by
  intro rest
  show (r (xs ++ ys ++ rest)).bind (fun (a, input) => f a input) = .ok (b, rest)
  rw [List.append_assoc, first (ys ++ rest)]
  exact second rest

/-- The reader takes a spelling of its answer, all of it and nothing behind it, and takes every
spelling. -/
structure Reads {α : Type} (r : Reader α) (Spells : α → List UInt8 → Prop) : Prop where
  takes : ∀ {a bytes}, Spells a bytes → Takes r bytes a
  spelled : ∀ {input a rest}, r input = .ok (a, rest) →
    ∃ bytes, Spells a bytes ∧ input = bytes ++ rest

section

variable {α β : Type} {r : Reader α} {Spells : α → List UInt8 → Prop}

theorem Reads.of_iff {Spells' : α → List UInt8 → Prop} (reads : Reads r Spells)
    (same : ∀ a bytes, Spells' a bytes ↔ Spells a bytes) : Reads r Spells' where
  takes := fun h => reads.takes ((same _ _).mp h)
  spelled := fun h => by
    obtain ⟨bytes, spells, split⟩ := reads.spelled h
    exact ⟨bytes, (same _ _).mpr spells, split⟩

theorem reads_pure (a : α) : Reads (pure a) fun b bytes => b = a ∧ bytes = [] where
  takes := by
    rintro b bytes ⟨rfl, rfl⟩
    exact takes_pure b
  spelled := by
    intro input b rest h
    cases h
    exact ⟨[], ⟨rfl, rfl⟩, rfl⟩

theorem reads_throw (e : LoadError) : Reads (throw e : Reader α) fun _ _ => False where
  takes := False.elim
  spelled := fun h => by cases h

theorem Reads.unless (reads : Reads r Spells) (refused : Prop) [Decidable refused] (e : LoadError) :
    Reads (if refused then throw e else r) fun a bytes => ¬ refused ∧ Spells a bytes := by
  by_cases h : refused
  · rw [if_pos h]
    exact (reads_throw e).of_iff fun a bytes => ⟨fun spelled => spelled.1 h, False.elim⟩
  · rw [if_neg h]
    exact reads.of_iff fun a bytes => ⟨And.right, fun spelled => ⟨h, spelled⟩⟩

/-- What is read first is spelled first. -/
theorem Reads.bind {f : α → Reader β} {Spells' : α → β → List UInt8 → Prop} (first : Reads r Spells)
    (second : ∀ a bytes, Spells a bytes → Reads (f a) (Spells' a)) :
    Reads (r >>= f) fun b bytes =>
      ∃ a xs ys, Spells a xs ∧ Spells' a b ys ∧ bytes = xs ++ ys where
  takes := by
    rintro b bytes ⟨a, xs, ys, hxs, hys, rfl⟩
    exact takes_bind (first.takes hxs) ((second a xs hxs).takes hys)
  spelled := by
    intro input b rest h
    change (r input).bind (fun (a, input) => f a input) = .ok (b, rest) at h
    cases answer : r input with
    | error e =>
      rw [answer] at h
      cases h
    | ok answer' =>
      obtain ⟨a, left⟩ := answer'
      rw [answer] at h
      obtain ⟨xs, hxs, rfl⟩ := first.spelled answer
      obtain ⟨ys, hys, rfl⟩ := (second a xs hxs).spelled h
      exact ⟨xs ++ ys, ⟨a, xs, ys, hxs, hys, rfl⟩, (List.append_assoc _ _ _).symm⟩

theorem Reads.map (f : α → β) (reads : Reads r Spells) :
    Reads (f <$> r) fun b bytes => ∃ a, Spells a bytes ∧ b = f a := by
  have bound : Reads (r >>= fun a => pure (f a)) _ := reads.bind fun a _ _ => reads_pure (f a)
  refine bound.of_iff fun b bytes => ⟨?_, ?_⟩
  · rintro ⟨a, spells, rfl⟩
    exact ⟨a, bytes, [], spells, ⟨rfl, rfl⟩, (List.append_nil _).symm⟩
  · rintro ⟨a, xs, ys, spells, ⟨rfl, rfl⟩, rfl⟩
    rw [List.append_nil]
    exact ⟨a, spells, rfl⟩

end

/-! ## Bytes and numbers -/

theorem takes_takeBytes (bytes : List UInt8) : Takes (takeBytes bytes.length) bytes bytes := by
  intro rest
  simp [takeBytes]

theorem reads_takeBytes (count : Nat) :
    Reads (takeBytes count) fun content bytes => content = bytes ∧ bytes.length = count where
  takes := by
    rintro content bytes ⟨rfl, rfl⟩
    exact takes_takeBytes content
  spelled := by
    intro input content rest h
    rw [takeBytes] at h
    split at h
    · rename_i complete
      cases h
      exact ⟨input.take count, ⟨rfl, complete⟩, (List.take_append_drop count input).symm⟩
    · cases h

theorem ofLittleEndian_littleEndian (width value : Nat) (h : value < 1 <<< (8 * width)) :
    ofLittleEndian (littleEndian width value) = value := by
  induction width generalizing value with
  | zero =>
    have : value = 0 := by simpa using h
    rw [this]
    rfl
  | succ width ih =>
    have hrest : value / 256 < 1 <<< (8 * width) := by
      rw [Nat.mul_succ, Nat.shiftLeft_add, Nat.shiftLeft_eq _ 8] at h
      exact Nat.div_lt_of_lt_mul (by rwa [Nat.mul_comm])
    have hlow : (UInt8.ofNat value).toNat = value % 256 := UInt8.toNat_ofNat'
    show (UInt8.ofNat value).toNat + 256 * ofLittleEndian (littleEndian width (value / 256)) = value
    rw [ih _ hrest, hlow]
    exact Nat.mod_add_div value 256

theorem ofLittleEndian_lt (bytes : List UInt8) :
    ofLittleEndian bytes < 1 <<< (8 * bytes.length) := by
  induction bytes with
  | nil => decide
  | cons b bytes ih =>
    have low := b.toNat_lt
    rw [List.length_cons, Nat.mul_succ, Nat.shiftLeft_add, Nat.shiftLeft_eq _ 8]
    show b.toNat + 256 * ofLittleEndian bytes < _
    omega

theorem littleEndian_ofLittleEndian (bytes : List UInt8) :
    littleEndian bytes.length (ofLittleEndian bytes) = bytes := by
  induction bytes with
  | nil => rfl
  | cons b bytes ih =>
    have low := b.toNat_lt
    have digit : UInt8.ofNat (b.toNat + 256 * ofLittleEndian bytes) = b := by
      apply UInt8.toNat_inj.mp
      rw [UInt8.toNat_ofNat']
      omega
    have higher : (b.toNat + 256 * ofLittleEndian bytes) / 256 = ofLittleEndian bytes := by omega
    show UInt8.ofNat (b.toNat + 256 * ofLittleEndian bytes) ::
      littleEndian bytes.length ((b.toNat + 256 * ofLittleEndian bytes) / 256) = b :: bytes
    rw [digit, higher, ih]

theorem reads_takeNumber (width : Nat) :
    Reads (takeNumber width) fun value bytes =>
      value < 1 <<< (8 * width) ∧ bytes = littleEndian width value := by
  refine ((reads_takeBytes width).map ofLittleEndian).of_iff fun value bytes => ⟨?_, ?_⟩
  · rintro ⟨small, rfl⟩
    exact ⟨_, ⟨rfl, length_littleEndian width value⟩,
      (ofLittleEndian_littleEndian width value small).symm⟩
  · rintro ⟨content, ⟨rfl, rfl⟩, rfl⟩
    exact ⟨ofLittleEndian_lt content, (littleEndian_ofLittleEndian content).symm⟩

theorem reads_readBytes : Reads readBytes Prefixed := by
  refine ((reads_takeNumber 4).bind fun length _ _ => reads_takeBytes length).of_iff
    fun content bytes => ⟨?_, ?_⟩
  · rintro ⟨small, rfl⟩
    exact ⟨content.length, _, content, ⟨small, rfl⟩, ⟨rfl, rfl⟩, rfl⟩
  · rintro ⟨length, xs, ys, ⟨small, rfl⟩, ⟨rfl, rfl⟩, rfl⟩
    exact ⟨small, rfl⟩

/-! ## Texts and lists -/

@[simp] theorem ofUtf8?_utf8 (s : String) : ofUtf8? (utf8 s) = some s := by
  show String.fromUTF8? s.toByteArray = some s
  rw [String.fromUTF8?, dif_pos s.isValidUTF8]
  rfl

theorem utf8_of_ofUtf8? {bytes : List UInt8} {s : String} (h : ofUtf8? bytes = some s) :
    utf8 s = bytes := by
  rw [ofUtf8?, String.fromUTF8?] at h
  split at h
  · cases h
    rfl
  · cases h

/-- The text of bytes that were read, if they are UTF-8. -/
theorem reads_text (content : List UInt8) : Reads (match ofUtf8? content with
    | some s => return s
    | none => throw .invalidUtf8) fun s bytes => utf8 s = content ∧ bytes = [] := by
  cases found : ofUtf8? content with
  | some t =>
    refine (reads_pure t).of_iff fun s bytes => and_congr_left fun _ => ⟨?_, ?_⟩
    · rintro rfl
      rw [ofUtf8?_utf8] at found
      exact Option.some.inj found
    · rintro rfl
      exact utf8_of_ofUtf8? found
  | none =>
    refine (reads_throw _).of_iff fun s bytes => ⟨?_, False.elim⟩
    rintro ⟨rfl, -⟩
    rw [ofUtf8?_utf8] at found
    cases found

theorem reads_readString : Reads readString SpellsString := by
  refine (reads_readBytes.bind fun content _ _ => reads_text content).of_iff
    fun s bytes => ⟨?_, ?_⟩
  · intro spelled
    exact ⟨utf8 s, bytes, [], spelled, ⟨rfl, rfl⟩, (List.append_nil _).symm⟩
  · rintro ⟨content, xs, ys, spelled, ⟨rfl, rfl⟩, rfl⟩
    rwa [List.append_nil]

theorem reads_takeMany {α : Type} {item : Reader α} {Spells : α → List UInt8 → Prop}
    (reads : Reads item Spells) (count : Nat) :
    Reads (takeMany item count) fun items bytes =>
      items.length = count ∧ SpellsAll Spells items bytes := by
  induction count with
  | zero =>
    refine (reads_pure []).of_iff fun items bytes => ⟨?_, ?_⟩
    · rintro ⟨none, spelled⟩
      cases spelled with
      | nil => exact ⟨rfl, rfl⟩
      | cons => cases none
    · rintro ⟨rfl, rfl⟩
      exact ⟨rfl, .nil⟩
  | succ count ih =>
    refine (reads.bind fun a _ _ => ih.map (a :: ·)).of_iff fun items bytes => ⟨?_, ?_⟩
    · rintro ⟨length, spelled⟩
      cases spelled with
      | nil => cases length
      | cons first later =>
        exact ⟨_, _, _, first, ⟨_, ⟨Nat.succ.inj length, later⟩, rfl⟩, rfl⟩
    · rintro ⟨a, xs, ys, first, ⟨items, ⟨rfl, later⟩, rfl⟩, rfl⟩
      exact ⟨rfl, .cons first later⟩

theorem reads_readList {α : Type} {item : Reader α} {Spells : α → List UInt8 → Prop}
    (reads : Reads item Spells) : Reads (readList item) (SpellsList Spells) := by
  refine ((reads_takeNumber 4).bind fun count _ _ => reads_takeMany reads count).of_iff
    fun items bytes => ⟨?_, ?_⟩
  · rintro ⟨small, spelled, all, rfl⟩
    exact ⟨items.length, _, spelled, ⟨small, rfl⟩, ⟨rfl, all⟩, rfl⟩
  · rintro ⟨count, xs, ys, ⟨small, rfl⟩, ⟨rfl, all⟩, rfl⟩
    exact ⟨small, ys, all, rfl⟩

/-! ## Constants -/

/-- The tag selects how the rest is spelled. -/
theorem spellsConstant_cons_iff {c : Constant} {tag : UInt8} {ys : List UInt8} :
    SpellsConstant c (tag :: ys) ↔
      (tag = 0 ∧ ∃ i, c = .int i ∧ ys = littleEndian 8 i.toUInt64.toNat) ∨
      (tag = 1 ∧ ∃ x, c = .float x ∧ ys = littleEndian 8 x.bits.toNat) ∨
      (tag = 2 ∧ ∃ s, c = .str s ∧ SpellsString s ys) ∨
      (tag = 3 ∧ ∃ value : UInt8, c = .bool (value ≠ 0) ∧ ys = [value]) ∨
      (tag = 4 ∧ c = .undefined ∧ ys = []) := by
  constructor
  · intro h
    cases h with
    | int i => exact .inl ⟨rfl, i, rfl, rfl⟩
    | float x => exact .inr (.inl ⟨rfl, x, rfl, rfl⟩)
    | str text => exact .inr (.inr (.inl ⟨rfl, _, rfl, text⟩))
    | bool value => exact .inr (.inr (.inr (.inl ⟨rfl, value, rfl, rfl⟩)))
    | undefined => exact .inr (.inr (.inr (.inr ⟨rfl, rfl, rfl⟩)))
  · rintro (⟨rfl, i, rfl, rfl⟩ | ⟨rfl, x, rfl, rfl⟩ | ⟨rfl, s, rfl, text⟩ | ⟨rfl, value, rfl, rfl⟩ |
      ⟨rfl, rfl, rfl⟩)
    · exact .int i
    · exact .float x
    · exact .str text
    · exact .bool value
    · exact .undefined

/-- A number of eight bytes, turned into a constant. -/
theorem reads_word (ofWord : UInt64 → Constant) :
    Reads ((fun n => ofWord (UInt64.ofNat n)) <$> takeNumber 8) fun c bytes =>
      ∃ word : UInt64, c = ofWord word ∧ bytes = littleEndian 8 word.toNat := by
  refine ((reads_takeNumber 8).map _).of_iff fun c bytes => ⟨?_, ?_⟩
  · rintro ⟨word, rfl, rfl⟩
    exact ⟨word.toNat, ⟨word.toNat_lt, rfl⟩, by rw [UInt64.ofNat_toNat]⟩
  · rintro ⟨n, ⟨small, rfl⟩, rfl⟩
    exact ⟨UInt64.ofNat n, rfl, by rw [UInt64.toNat_ofNat_of_lt' small]⟩

theorem reads_truth : Reads ((fun n => Constant.bool (n ≠ 0)) <$> takeNumber 1) fun c bytes =>
    ∃ value : UInt8, c = .bool (value ≠ 0) ∧ bytes = [value] := by
  refine ((reads_takeNumber 1).map _).of_iff fun c bytes => ⟨?_, ?_⟩
  · rintro ⟨value, rfl, rfl⟩
    refine ⟨value.toNat, ⟨value.toNat_lt, ?_⟩, ?_⟩
    · rw [littleEndian, littleEndian, UInt8.ofNat_toNat]
    · simp [← UInt8.toNat_inj]
  · rintro ⟨n, ⟨small, rfl⟩, rfl⟩
    refine ⟨UInt8.ofNat n, ?_, rfl⟩
    have value : (UInt8.ofNat n).toNat = n := UInt8.toNat_ofNat_of_lt' small
    simp [← UInt8.toNat_inj, value]

theorem not_spellsConstant_of_lt {c : Constant} {tag : Nat} {ys : List UInt8} (small : tag < 256)
    (unknown : 4 < tag) : ¬ SpellsConstant c (UInt8.ofNat tag :: ys) := by
  have value : (UInt8.ofNat tag).toNat = tag := UInt8.toNat_ofNat_of_lt' small
  have other (n : UInt8) (known : n.toNat ≤ 4) : UInt8.ofNat tag ≠ n := by
    rintro rfl
    omega
  rw [spellsConstant_cons_iff]
  rintro (⟨h, -⟩ | ⟨h, -⟩ | ⟨h, -⟩ | ⟨h, -⟩ | ⟨h, -⟩) <;> exact other _ (by decide) h

/-- What follows the tag of a constant is read by its tag. -/
theorem reads_readConstant : Reads readConstant SpellsConstant := by
  have tagged : Reads readConstant fun c bytes => ∃ tag xs ys,
      (tag < 1 <<< (8 * 1) ∧ xs = littleEndian 1 tag) ∧ SpellsConstant c (UInt8.ofNat tag :: ys) ∧
        bytes = xs ++ ys := by
    refine (reads_takeNumber 1).bind ?_
    rintro tag xs ⟨small, rfl⟩
    match tag with
    | 0 =>
      refine (reads_word fun word => .int word.toInt64).of_iff fun c ys => ?_
      have int : SpellsConstant c (0 :: ys) ↔
          ∃ i, c = .int i ∧ ys = littleEndian 8 i.toUInt64.toNat := by
        simp [spellsConstant_cons_iff]
      refine int.trans ⟨?_, ?_⟩
      · rintro ⟨i, rfl, rfl⟩
        exact ⟨i.toUInt64, by rw [Int64.toInt64_toUInt64], rfl⟩
      · rintro ⟨word, rfl, rfl⟩
        exact ⟨word.toInt64, rfl, by rw [UInt64.toUInt64_toInt64]⟩
    | 1 =>
      refine (reads_word fun word => .float ⟨word⟩).of_iff fun c ys => ?_
      have float : SpellsConstant c (1 :: ys) ↔
          ∃ x, c = .float x ∧ ys = littleEndian 8 x.bits.toNat := by
        simp [spellsConstant_cons_iff]
      refine float.trans ⟨?_, ?_⟩
      · rintro ⟨x, rfl, rfl⟩
        exact ⟨x.bits, rfl, rfl⟩
      · rintro ⟨word, rfl, rfl⟩
        exact ⟨⟨word⟩, rfl, rfl⟩
    | 2 =>
      refine (reads_readString.map Constant.str).of_iff fun c ys => ?_
      have str : SpellsConstant c (2 :: ys) ↔ ∃ s, c = .str s ∧ SpellsString s ys := by
        simp [spellsConstant_cons_iff]
      exact str.trans (exists_congr fun s => and_comm)
    | 3 =>
      refine reads_truth.of_iff fun c ys => ?_
      show SpellsConstant c (3 :: ys) ↔ _
      simp [spellsConstant_cons_iff]
    | 4 =>
      refine (reads_pure Constant.undefined).of_iff fun c ys => ?_
      show SpellsConstant c (4 :: ys) ↔ _
      simp [spellsConstant_cons_iff]
    | tag + 5 =>
      have unknown : 4 < tag + 5 := Nat.lt_add_left tag (by decide)
      exact (reads_throw _).of_iff fun c ys => ⟨not_spellsConstant_of_lt small unknown, False.elim⟩
  refine tagged.of_iff fun c bytes => ⟨?_, ?_⟩
  · intro spelled
    have head : ∃ tag : UInt8, ∃ ys, bytes = tag :: ys := by
      cases spelled <;> exact ⟨_, _, rfl⟩
    obtain ⟨tag, ys, rfl⟩ := head
    have byte : [tag] = littleEndian 1 tag.toNat := by
      rw [littleEndian, littleEndian, UInt8.ofNat_toNat]
    exact ⟨tag.toNat, [tag], ys, ⟨tag.toNat_lt, byte⟩, by rwa [UInt8.ofNat_toNat], rfl⟩
  · rintro ⟨tag, xs, ys, ⟨small, rfl⟩, spelled, rfl⟩
    exact spelled

/-! ## Payloads -/

theorem reads_readFields : Reads readFields SpellsFields := by
  have code (name : String) (parameters : List String) (constants : List Constant) :
      Reads (CodeUnit.mk name parameters constants <$> readBytes) fun u bytes =>
        ∃ code, Prefixed code bytes ∧ u = ⟨name, parameters, constants, code⟩ :=
    reads_readBytes.map _
  have constants (name : String) (parameters : List String) :=
    (reads_readList reads_readConstant).bind fun constants _ _ => code name parameters constants
  have parameters (name : String) :=
    (reads_readList reads_readString).bind fun parameters _ _ => constants name parameters
  have fields := reads_readString.bind fun name _ _ => parameters name
  refine Reads.of_iff (r := readFields) fields fun u bytes => ⟨?_, ?_⟩
  · rintro ⟨name, parameters, constants, code, hname, hparameters, hconstants, hcode, rfl⟩
    refine ⟨_, name, _, hname, ⟨_, parameters, _, hparameters,
      ⟨_, constants, code, hconstants, ⟨_, hcode, rfl⟩, rfl⟩, rfl⟩, ?_⟩
    rw [List.append_assoc, List.append_assoc]
  · rintro ⟨_, name, _, hname, ⟨_, parameters, _, hparameters,
      ⟨_, constants, code, hconstants, ⟨_, hcode, rfl⟩, rfl⟩, rfl⟩, rfl⟩
    refine ⟨name, parameters, constants, code, hname, hparameters, hconstants, hcode, ?_⟩
    rw [List.append_assoc, List.append_assoc]

theorem reads_version : Reads (takeNumber 2 >>= fun version =>
      if version ≠ formatVersion then throw (.unsupportedVersion version) else pure ())
    fun _ bytes => bytes = littleEndian 2 formatVersion := by
  refine ((reads_takeNumber 2).bind fun version _ _ =>
    (reads_pure ()).unless (version ≠ formatVersion) _).of_iff fun _ bytes => ⟨?_, ?_⟩
  · rintro rfl
    exact ⟨formatVersion, _, [], ⟨by decide, rfl⟩, ⟨by simp, rfl, rfl⟩, rfl⟩
  · rintro ⟨version, _, _, ⟨-, rfl⟩, ⟨known, -, rfl⟩, rfl⟩
    rw [Classical.not_not.mp known, List.append_nil]

theorem reads_readHeader :
    Reads readHeader fun _ bytes => bytes = magic ++ littleEndian 2 formatVersion := by
  have header := (reads_takeBytes magic.length).bind fun found _ _ =>
    reads_version.unless (found ≠ magic) .badMagic
  refine Reads.of_iff (r := readHeader) header fun _ bytes => ⟨?_, ?_⟩
  · rintro rfl
    exact ⟨magic, magic, _, ⟨rfl, rfl⟩, ⟨by simp, rfl⟩, rfl⟩
  · rintro ⟨found, _, _, ⟨rfl, -⟩, ⟨isMagic, rfl⟩, rfl⟩
    rw [Classical.not_not.mp isMagic]

theorem splitTrailer_eq_ok_iff {d : Digest} {payload body checksum : List UInt8} {verify : Bool} :
    d.splitTrailer payload verify = .ok (body, checksum) ↔ payload = body ++ checksum ∧
      checksum.length = checksumLength ∧ (verify → checksum = d.hash body) := by
  rw [Digest.splitTrailer]
  constructor
  · intro h
    split at h
    · cases h
    · rename_i long
      dsimp only at h
      split at h
      · cases h
      · rename_i verified
        cases h
        refine ⟨(List.take_append_drop _ payload).symm, ?_, ?_⟩
        · rw [List.length_drop]
          omega
        · intro on
          refine Decidable.byContradiction fun different => verified ?_
          rw [on, Bool.true_and]
          exact decide_eq_true (Ne.symm different)
  · rintro ⟨rfl, length, verified⟩
    have long : ¬ (body ++ checksum).length < checksumLength := by
      rw [List.length_append]
      omega
    have size : (body ++ checksum).length - checksumLength = body.length := by
      rw [List.length_append]
      omega
    have agrees : ¬ (verify && d.hash body ≠ checksum) := by
      intro refused
      obtain ⟨on, different⟩ := (Bool.and_eq_true _ _).mp refused
      exact of_decide_eq_true different (verified on).symm
    rw [if_neg long]
    simp only [size, List.take_left, List.drop_left, if_neg agrees]

/-- The header and the digest cannot overlap in a payload that is accepted, since the fields lie
between them. -/
theorem readUnit_eq_ok_iff {d : Digest} {payload checksum : List UInt8} {verify : Bool}
    {u : CodeUnit} :
    d.readUnit payload verify = .ok (u, checksum) ↔
      ∃ fields, payload = magic ++ [1, 0] ++ fields ++ checksum ∧ SpellsFields u fields ∧
        checksum.length = checksumLength ∧
        (verify → checksum = d.hash (magic ++ [1, 0] ++ fields)) := by
  constructor
  · intro h
    obtain ⟨⟨_, _⟩, header, h⟩ := exists_of_bind_eq_ok h
    obtain ⟨⟨body, trailer⟩, split, h⟩ := exists_of_bind_eq_ok h
    obtain ⟨⟨front, fields⟩, fronted, h⟩ := exists_of_bind_eq_ok h
    obtain ⟨⟨unit, rest⟩, unitRead, h⟩ := exists_of_bind_eq_ok h
    cases rest with
    | cons b rest => cases h
    | nil =>
      cases h
      obtain ⟨rfl, length, verified⟩ := splitTrailer_eq_ok_iff.mp split
      obtain ⟨_, ⟨rfl, size⟩, rfl⟩ := (reads_takeBytes _).spelled fronted
      obtain ⟨bytes, spells, rfl⟩ := reads_readFields.spelled unitRead
      obtain ⟨_, rfl, same⟩ := reads_readHeader.spelled header
      rw [List.append_assoc] at same
      obtain rfl : front = magic ++ [1, 0] := (List.append_inj same size).1
      rw [List.append_nil] at verified ⊢
      exact ⟨bytes, rfl, spells, length, verified⟩
  · rintro ⟨fields, rfl, spells, length, verified⟩
    have header : readHeader (magic ++ [1, 0] ++ (fields ++ checksum)) =
        .ok ((), fields ++ checksum) := reads_readHeader.takes rfl _
    have split : d.splitTrailer (magic ++ [1, 0] ++ fields ++ checksum) verify =
        .ok (magic ++ [1, 0] ++ fields, checksum) :=
      splitTrailer_eq_ok_iff.mpr ⟨rfl, length, verified⟩
    have body : takeBytes (magic.length + 2) (magic ++ [1, 0] ++ fields) =
        .ok (magic ++ [1, 0], fields) := (reads_takeBytes 6).takes ⟨rfl, rfl⟩ fields
    have unit : readFields fields = .ok (u, []) := by
      have := reads_readFields.takes spells []
      rwa [List.append_nil] at this
    rw [← List.append_assoc] at header
    simp only [Digest.readUnit, header, split, body, unit, bind, Except.bind]
    rfl

theorem decode_eq_ok_iff_readUnit {d : Digest} {payload : List UInt8} {verify : Bool}
    {u : CodeUnit} :
    d.decode payload verify = .ok u ↔
      u.check = .ok () ∧ ∃ checksum, d.readUnit payload verify = .ok (u, checksum) := by
  constructor
  · intro h
    obtain ⟨⟨unit, checksum⟩, read, h⟩ := exists_of_bind_eq_ok h
    obtain ⟨⟨⟩, checked, same⟩ := exists_of_bind_eq_ok h
    cases same
    exact ⟨checked, checksum, read⟩
  · rintro ⟨checked, checksum, read⟩
    simp only [Digest.decode, read, checked, bind, Except.bind]
    rfl

/-- What the unit of a payload is does not depend on whether the digest is verified. -/
theorem decode_unverified {payload : List UInt8} {verify : Bool} {u : CodeUnit}
    (decoded : decode payload verify = .ok u) : decode payload false = .ok u := by
  obtain ⟨checked, checksum, read⟩ := decode_eq_ok_iff_readUnit.mp decoded
  obtain ⟨fields, rfl, spells, length, -⟩ := readUnit_eq_ok_iff.mp read
  refine decode_eq_ok_iff_readUnit.mpr ⟨checked, checksum, ?_⟩
  exact readUnit_eq_ok_iff.mpr ⟨fields, rfl, spells, length, fun verified => by cases verified⟩

end ProtoVM.Payload
