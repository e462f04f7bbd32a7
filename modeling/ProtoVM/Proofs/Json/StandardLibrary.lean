import Mathlib
import ProtoVM.Json.StandardLibrary
import ProtoVM.Proofs.Json.Records

/-!
# The library that the program runs with

It conforms: what is relied on of a library holds of it.
-/

namespace ProtoVM.Json

/-! ## Values -/

theorem scanFlag_of_blanks {b : List Char} (blank : Blanks b) (flag : Bool) (rest : List UInt8) :
    scanFlag (encoded b ++ (encoded (Scalar.text ⟨.flag, flag⟩) ++ rest)) = .ok (flag, rest) := by
  have letters : encoded (Scalar.text ⟨.flag, flag⟩) = (Scalar.text ⟨.flag, flag⟩).map ascii :=
    encoded_of_isAscii (by cases flag <;> simp [Scalar.text, IsAscii])
  have taken := word_same (Scalar.text ⟨.flag, flag⟩) rest
  rw [letters, scanFlag]
  cases flag with
  | true =>
    rw [Scalar.text] at taken ⊢
    rw [bind_of_ok (peek_word blank (by decide) _ rest)]
    dsimp only
    rw [if_pos rfl, bind_of_ok taken]
    rfl
  | false =>
    rw [Scalar.text] at taken ⊢
    rw [bind_of_ok (peek_word blank (by decide) _ rest)]
    dsimp only
    rw [if_neg (by decide), if_pos rfl, bind_of_ok taken]
    rfl

theorem scanSize_of_blanks {b : List Char} (blank : Blanks b) (n : UInt64) {x : UInt8}
    (ends : EndsNumber x) (rest : List UInt8) :
    scanSize (encoded b ++ (encoded (Scalar.text ⟨.size, n⟩) ++ x :: rest)) =
      .ok (n, x :: rest) := by
  have number := number_decimal n.toNat_lt ends rest
  show scanSize (encoded b ++ (encoded (decimal n.toNat) ++ x :: rest)) = _
  obtain ⟨d, ds, digits⟩ := List.exists_cons_of_ne_nil (decimal_ne_nil n.toNat)
  have digit : d.isDigit := isDigit_of_mem_decimal (n := n.toNat) (by simp [digits])
  have solid : isBlank (ascii d) = false := isBlank_of_isDigit (isDigit_ascii digit)
  rw [encoded_of_isDigit fun c => isDigit_of_mem_decimal, digits] at number ⊢
  rw [scanSize, bind_of_ok (peek_word blank solid ds (x :: rest))]
  dsimp only
  rw [if_pos (isDigit_ascii digit), bind_of_ok number]
  simp only [UInt64.ofNat_toNat]
  rfl

theorem scanValue_text {b : List Char} (blank : Blanks b) (s : Scalar) {x : UInt8}
    (ends : EndsNumber x) (rest : List UInt8) :
    scanValue s.kind (encoded b ++ (encoded s.text ++ x :: rest)) = .ok (s.value, x :: rest) := by
  obtain ⟨kind, value⟩ := s
  cases kind with
  | flag => exact scanFlag_of_blanks blank value (x :: rest)
  | size => exact scanSize_of_blanks blank value ends rest

/-! ## Names -/

/-- A name is taken, however it is spelled. -/
theorem scanName_of_spells {name : String} {text : List Char}
    (spells : SpellsString name.toList text) (rest : List UInt8) :
    scanName (ascii '"' :: (encoded text ++ ascii '"' :: rest)) = .ok (name, rest) := by
  have string : Json.string (encoded text ++ ascii '"' :: rest) = _ :=
    stringTail_of_spells spells rest
  have bytes : (encoded name.toList).toByteArray = name.toByteArray := by
    apply ByteArray.ext
    rw [List.data_toByteArray, ← toUTF8_eq_encoded, Array.toArray_toList, String.toUTF8]
  rw [scanName, bind_of_ok (accept_same '"' _), if_neg (by decide)]
  dsimp only
  rw [bind_of_ok string, bytes, String.fromUTF8?, dif_pos name.isValidUTF8]
  rfl

theorem scanColon_of_blanks {b : List Char} (blank : Blanks b) (rest : List UInt8) :
    scanColon (encoded b ++ ascii ':' :: rest) = .ok ((), rest) := by
  have colon := peek_blanks blank (show isBlank (ascii ':') = false by decide) rest
  rw [scanColon, bind_of_ok colon]
  dsimp only
  rw [if_pos rfl, skip_cons]

/-! ## Members -/

/-- The bytes behind the blanks before a member. -/
def memberBytes (m : Member) (text b b' : List Char) (rest : List UInt8) : List UInt8 :=
  ascii '"' :: (encoded text ++ ascii '"' :: (encoded b ++ ascii ':' ::
    (encoded b' ++ (encoded m.value ++ rest))))

theorem encoded_member {m : Member} {cs : List Char} (h : SpellsMember m cs) :
    ∃ text b b' b'', SpellsString m.name.toList text ∧ Blanks b ∧ Blanks b' ∧ Blanks b'' ∧
      ∀ rest, encoded cs ++ rest = encoded b ++ memberBytes m text b' b'' rest := by
  cases h with
  | @spelled b b' b'' text before name between after =>
    refine ⟨text, b, b', b'', name, before, between, after, fun rest => ?_⟩
    have quote : IsAscii '"' := by decide
    have colon : IsAscii ':' := by decide
    simp only [encoded_append, encoded_cons quote, encoded_cons colon, List.append_assoc,
      List.cons_append, memberBytes]

/-- Before a member the scanner finds that one follows, and stands at its name. -/
theorem scanSeparator_member {first : Bool} {m : Member} {ms : List Member} {cs : List Char}
    (h : Lists SpellsMember first (m :: ms) cs) :
    ∃ text b b' later, SpellsString m.name.toList text ∧ Blanks b ∧ Blanks b' ∧
      Lists SpellsMember false ms later ∧ ∀ rest,
        scanSeparator '\x7d' first (encoded cs ++ rest) =
          .ok (true, memberBytes m text b b' (encoded later ++ rest)) := by
  have solid : isBlank (ascii '"') = false := by decide
  have quote (text b b' : List Char) (rest : List UInt8) {b0 : List Char} (blank : Blanks b0) :
      peek (encoded b0 ++ memberBytes m text b b' rest) =
        .ok (some (ascii '"'), memberBytes m text b b' rest) := peek_blanks blank solid _
  cases h with
  | first member more =>
    obtain ⟨text, b0, b, b', name, blank0, blank, blank', bytes⟩ := encoded_member member
    refine ⟨text, b, b', _, name, blank, blank', more, fun rest => ?_⟩
    rw [encoded_append, List.append_assoc, bytes, scanSeparator, bind_of_ok (quote _ _ _ _ blank0)]
    dsimp only
    rw [if_neg (by decide), if_pos rfl]
    rfl
  | next before member more =>
    obtain ⟨text, b0, b, b', name, blank0, blank, blank', bytes⟩ := encoded_member member
    refine ⟨text, b, b', _, name, blank, blank', more, fun rest => ?_⟩
    have comma : isBlank (ascii ',') = false := by decide
    rw [List.append_assoc, List.cons_append, encoded_append, encoded_cons (by decide),
      List.append_assoc, List.cons_append, scanSeparator, bind_of_ok (peek_blanks before comma _)]
    dsimp only
    rw [if_neg (by decide), if_neg (by decide), if_pos rfl, bind_of_ok (skip_cons _ _),
      encoded_append, List.append_assoc, bytes, bind_of_ok (quote _ _ _ _ blank0)]
    dsimp only
    rw [if_neg (by decide)]
    rfl

/-- Behind the last member the scanner finds that none follows. -/
theorem scanSeparator_none {first : Bool} {cs : List Char} (h : Lists SpellsMember first [] cs)
    (rest : List UInt8) : scanSeparator '\x7d' first (encoded cs ++ ascii '\x7d' :: rest) =
      .ok (false, ascii '\x7d' :: rest) := by
  cases h with
  | none blank =>
    have closing := peek_blanks blank (show isBlank (ascii '\x7d') = false by decide) rest
    rw [scanSeparator, bind_of_ok closing]
    dsimp only
    rw [if_pos rfl]
    rfl

/-- What follows a value ends a number. -/
theorem exists_endsNumber {ms : List Member} {cs : List Char} (h : Lists SpellsMember false ms cs)
    (rest : List UInt8) :
    ∃ x tail, encoded cs ++ ascii '\x7d' :: rest = x :: tail ∧ EndsNumber x := by
  have blanks {b : List Char} (blank : Blanks b) {y : UInt8} (ends : EndsNumber y)
      (tail : List UInt8) : ∃ x tail', encoded b ++ y :: tail = x :: tail' ∧ EndsNumber x := by
    cases b with
    | nil => exact ⟨y, tail, rfl, ends⟩
    | cons c b =>
      have white := blank c (by simp)
      have ascii_c : IsAscii c := by
        rcases white with rfl | rfl | rfl | rfl <;> decide
      have ends_c : EndsNumber (ascii c) := by
        rcases white with rfl | rfl | rfl | rfl <;> decide
      exact ⟨ascii c, encoded b ++ y :: tail, by rw [encoded_cons ascii_c]; rfl, ends_c⟩
  cases h with
  | none blank => exact blanks blank (by decide) rest
  | @next b m ms text later blank member more =>
    rw [List.append_assoc, List.cons_append, encoded_append, encoded_cons (by decide),
      List.append_assoc]
    exact blanks blank (by decide) _

/-! ## Objects -/

section

variable {α : Type}

theorem scanMembers_none {first : Bool} {cs : List Char} (h : Lists SpellsMember first [] cs)
    {v : Members α} {a : α} (ended : v.ended = some a) (rest : List UInt8) :
    scanMembers v first (encoded cs ++ ascii '\x7d' :: rest) = .ok (a, ascii '\x7d' :: rest) := by
  obtain ⟨named, result⟩ := v
  obtain rfl : result = some a := ended
  rw [scanMembers, bind_of_ok (scanSeparator_none h rest)]
  rfl

/-- A member that is asked for is taken, and the scanner goes on behind it. -/
theorem scanMembers_cons {v : Members α} {name : String} {kind : Kind}
    {next : kind.Value → Members α} (asks : v.named name = .ask kind next) (value : kind.Value)
    {first : Bool} {ms : List Member} {cs : List Char}
    (h : Lists SpellsMember first (Entry.member (name, ⟨kind, value⟩) :: ms) cs) :
    ∃ later, Lists SpellsMember false ms later ∧ ∀ rest,
      scanMembers v first (encoded cs ++ ascii '\x7d' :: rest) =
        scanMembers (next value) false (encoded later ++ ascii '\x7d' :: rest) := by
  obtain ⟨text, b, b', later, spelled, blank, blank', more, separator⟩ := scanSeparator_member h
  refine ⟨later, more, fun rest => ?_⟩
  obtain ⟨x, tail, follows, ends⟩ := exists_endsNumber more rest
  have taken := scanValue_text blank' ⟨kind, value⟩ ends tail
  obtain ⟨named, ended⟩ := v
  replace asks : named name = .ask kind next := asks
  rw [scanMembers, bind_of_ok (separator _), if_pos rfl, follows, memberBytes,
    bind_of_ok (scanName_of_spells spelled _)]
  show scanDemanded (named name) _ = _
  rw [asks, scanDemanded, bind_of_ok (scanColon_of_blanks blank _)]
  exact bind_of_ok taken

/-- A member that is refused ends the scan, whatever its value. -/
theorem scanMembers_refused {v : Members α} {m : Member}
    (refused : v.named m.name = .refuse) {first : Bool} {ms : List Member} {cs : List Char}
    (h : Lists SpellsMember first (m :: ms) cs) (rest : List UInt8) :
    scanMembers v first (encoded cs ++ rest) = .error .unsuitable := by
  obtain ⟨text, b, b', later, spelled, blank, blank', more, separator⟩ := scanSeparator_member h
  obtain ⟨named, ended⟩ := v
  replace refused : named m.name = .refuse := refused
  rw [scanMembers, bind_of_ok (separator _), if_pos rfl, memberBytes,
    bind_of_ok (scanName_of_spells spelled _)]
  show scanDemanded (named m.name) _ = _
  rw [refused, scanDemanded]
  rfl

/-- Members that are asked for are taken one after the other. -/
theorem scanMembers_takes {v later : Members α} {es : List Entry} (taken : v.Takes es later)
    {first : Bool} {ms : List Member} {cs : List Char}
    (h : Lists SpellsMember first (es.map Entry.member ++ ms) cs) :
    ∃ first' cs', Lists SpellsMember first' ms cs' ∧ ∀ rest,
      scanMembers v first (encoded cs ++ ascii '\x7d' :: rest) =
        scanMembers later first' (encoded cs' ++ ascii '\x7d' :: rest) := by
  induction taken generalizing first cs with
  | nil => exact ⟨first, cs, h, fun _ => rfl⟩
  | @cons v later name kind next value es asks more ih =>
    obtain ⟨cs', others, step⟩ := scanMembers_cons asks value h
    obtain ⟨first'', cs'', rests, steps⟩ := ih others
    exact ⟨first'', cs'', rests, fun rest => (step rest).trans (steps rest)⟩

/-- The result for an object is what the scanner of members makes of it. -/
theorem read_of_spells (visitor : Visitor α) {ms : List Member} {text : String}
    (h : SpellsObject ms text.toList) : ∃ inner rest, Lists SpellsMember true ms inner ∧
      (∀ a, scanMembers visitor.members true (encoded inner ++ ascii '\x7d' :: rest) =
        .ok (a, ascii '\x7d' :: rest) → read visitor text = .ok a) ∧
      ∀ e, scanMembers visitor.members true (encoded inner ++ ascii '\x7d' :: rest) = .error e →
        read visitor text = .error e := by
  have openBrace : IsAscii '\x7b' := by decide
  have closeBrace : IsAscii '\x7d' := by decide
  generalize text_eq : text.toList = cs at h
  cases h with
  | @spelled b b' inner before members after =>
    have bytes : text.toUTF8.data.toList = encoded b ++ ascii '\x7b' ::
        (encoded inner ++ ascii '\x7d' :: encoded b') := by
      rw [toUTF8_eq_encoded, text_eq]
      simp only [encoded_append, encoded_cons openBrace, encoded_cons closeBrace, List.append_assoc,
        List.cons_append]
    have seen := peek_blanks before (show isBlank (ascii '\x7b') = false by decide)
      (encoded inner ++ ascii '\x7d' :: encoded b')
    have opened : scan visitor text.toUTF8.data.toList =
        (scanMembers visitor.members true >>= fun a => scanClose '\x7d' >>= fun _ => pure a)
          (encoded inner ++ ascii '\x7d' :: encoded b') := by
      rw [bytes, scan, bind_of_ok seen]
      dsimp only
      rw [if_pos rfl, bind_of_ok (skip_cons _ _)]
    refine ⟨inner, encoded b', members, fun a taken => ?_, fun e refused => ?_⟩
    · have closed : scanClose '\x7d' (ascii '\x7d' :: encoded b') = .ok ((), encoded b') := by
        rw [scanClose, bind_of_ok (peek_solid (by decide) (encoded b'))]
        dsimp only
        rw [if_pos rfl, skip_cons]
      have blank : (encoded b').all isBlank := List.all_eq_true.mpr (isBlank_of_mem after)
      have scanned : scan visitor text.toUTF8.data.toList = .ok (a, encoded b') := by
        rw [opened, bind_of_ok taken, bind_of_ok closed]
        rfl
      rw [read, scanned]
      exact if_pos blank
    · have scanned : scan visitor text.toUTF8.data.toList = .error e := by
        rw [opened, bind_of_error refused]
      rw [read, scanned]
      rfl

end

theorem readsObjects_library : library.ReadsObjects where
  taken visitor es later a text taken ended spelled := by
    obtain ⟨inner, rest, members, accepts, -⟩ := read_of_spells visitor spelled
    rw [← List.append_nil (es.map Entry.member)] at members
    obtain ⟨first, cs, none, scanned⟩ := scanMembers_takes taken members
    exact accepts a ((scanned rest).trans (scanMembers_none none ended rest))
  refused visitor es later m ms text taken refused _ spelled := by
    obtain ⟨inner, rest, members, -, refuses⟩ := read_of_spells visitor spelled
    obtain ⟨first, cs, others, scanned⟩ := scanMembers_takes taken members
    exact refuses _ ((scanned rest).trans (scanMembers_refused refused others _))

/-! ## Writing -/

/-- A control character by its number. -/
theorem spellsUnit_digits {n : Nat} (small : n < 0x20) :
    SpellsUnit n ['0', '0', Nat.digitChar (n / 16), Nat.digitChar (n % 16)] := by
  have digit : ∀ i < 16, (Nat.digitChar i, i) ∈ hexDigits := by decide
  have spelled : SpellsUnit (((0 * 16 + 0) * 16 + n / 16) * 16 + n % 16)
      ['0', '0', Nat.digitChar (n / 16), Nat.digitChar (n % 16)] :=
    .digits (by decide) (by decide) (digit _ (by omega)) (digit _ (by omega))
  have value : ((0 * 16 + 0) * 16 + n / 16) * 16 + n % 16 = n := by omega
  rwa [value] at spelled

/-- The writer spells every character. -/
theorem spellsChar_escaped (c : Char) : SpellsChar c (escaped c) := by
  have letter {l : Char} (mem : (l, c) ∈ escapeLetters) : SpellsChar c ['\\', l] :=
    .escape (.letter mem)
  rw [escaped]
  split_ifs with mark backspace feed line carriage tab control
  · rcases mark with rfl | rfl <;> exact letter (by decide)
  · subst backspace
    exact letter (by decide)
  · subst feed
    exact letter (by decide)
  · subst line
    exact letter (by decide)
  · subst carriage
    exact letter (by decide)
  · subst tab
    exact letter (by decide)
  · exact .escape (.unit (spellsUnit_digits control))
  · obtain ⟨quote, backslash⟩ := not_or.mp mark
    exact .plain (Nat.le_of_not_lt control) quote backslash

theorem spellsString_escaped (cs : List Char) : SpellsString cs (cs.flatMap escaped) := by
  induction cs with
  | nil => exact .nil
  | cons c cs ih =>
    rw [List.flatMap_cons]
    exact .cons (spellsChar_escaped c) ih

theorem spellsMember_writeEntry (e : Entry) : SpellsMember e.member (writeEntry e) := by
  have spelled : SpellsMember e.member _ :=
    .spelled blanks_nil (spellsString_escaped _) blanks_nil blanks_nil
  simpa [writeEntry, Entry.member] using spelled

theorem lists_writeEntries (es : List Entry) :
    Lists SpellsMember true (es.map Entry.member) (writeEntries es) := by
  have behind (es : List Entry) : Lists SpellsMember false (es.map Entry.member)
      (es.flatMap fun e => ',' :: writeEntry e) := by
    induction es with
    | nil => exact .none blanks_nil
    | cons e es ih => exact .next blanks_nil (spellsMember_writeEntry e) ih
  cases es with
  | nil => exact .none blanks_nil
  | cons e es => exact .first (spellsMember_writeEntry e) (behind es)

theorem writesObjects_library : library.WritesObjects := by
  intro es
  have object := SpellsObject.spelled blanks_nil (lists_writeEntries es) blanks_nil
  show SpellsObject _ (write es).toList
  rw [write, String.toList_ofList]
  exact object

/-! ## Derived readers -/

namespace Record

variable {α : Type} {left : List (Field α)} {a : α}

theorem mem_without {f : Field α} {name : String} :
    f ∈ without left name ↔ f ∈ left ∧ f.name ≠ name := by
  simp [without]

/-- The field of a name that is left is asked for. -/
theorem named_members_of_find? {f : Field α} {name : String}
    (found : left.find? (·.name = name) = some f) :
    (members left a).named name =
      .ask f.kind fun v => members (without left name) (f.set a v) := by
  rw [members, Members.named]
  split
  · rename_i missed
    rw [found] at missed
    cases missed
  · rename_i g same
    rw [found] at same
    cases same
    rfl

/-- No other member is taken. -/
theorem named_members_of_not_mem {name : String} (other : ∀ f ∈ left, f.name ≠ name) :
    (members left a).named name = .refuse := by
  have missed : left.find? (·.name = name) = none := by simpa using other
  rw [members, Members.named]
  split
  · rfl
  · rename_i g found
    rw [missed] at found
    cases found

theorem ended_members : (members left a).ended = some a := by rw [members, Members.ended]

/-- After some entries were taken: the other fields are left, and the entries are in place. -/
structure Took (record : Record α) (es : List Entry) (left : List (Field α)) (a : α) : Prop where
  left : ∀ f, f ∈ left ↔ f ∈ record.fields ∧ f.name ∉ names es
  filled : record.Filled es a

variable {record : Record α} {es : List Entry}

theorem took_nil : record.Took [] record.fields record.default where
  left f := by simp [names]
  filled f _ := .inr ⟨List.not_mem_nil, rfl⟩

theorem Took.concat {f : Field α} (took : record.Took es left a) (mem : f ∈ left)
    (value : f.kind.Value) :
    record.Took (es ++ [(f.name, ⟨f.kind, value⟩)]) (without left f.name) (f.set a value) where
  left g := by
    rw [mem_without, took.left]
    simp [names, and_assoc]
  filled g hg := by
    have hf := ((took.left f).mp mem).1
    by_cases same : g.name = f.name
    · obtain rfl := record.eq_of_name hg hf same
      left
      rw [Field.entry, record.get_set g hg]
      exact List.mem_append_right _ List.mem_cons_self
    · have kept := record.get_set_of_ne g hg f hf same a value
      have entry : g.entry (f.set a value) = g.entry a := Field.entry_eq_iff.mpr kept
      rw [entry, kept]
      refine (took.filled g hg).imp (List.mem_append_left _) fun missing => ⟨?_, missing.2⟩
      simpa [names, same] using missing.1

/-- What was taken stays in place while further entries are taken. -/
theorem took_of_takes {before : List Entry} {later : Members α} (took : record.Took before left a)
    (taken : (members left a).Takes es later) :
    ∃ left' a', later = members left' a' ∧ record.Took (before ++ es) left' a' := by
  generalize start : members left a = v at taken
  induction taken generalizing before left a with
  | nil => exact ⟨left, a, start.symm, by rwa [List.append_nil]⟩
  | @cons v later name kind next value es asks more ih =>
    subst start
    cases found : left.find? (·.name = name) with
    | none =>
      rw [named_members_of_not_mem (by simpa using found)] at asks
      cases asks
    | some f =>
      obtain rfl : f.name = name := by simpa using List.find?_some found
      rw [named_members_of_find? found] at asks
      cases asks
      obtain ⟨left', a', same, took'⟩ :=
        ih (took.concat (List.mem_of_find?_eq_some found) value) rfl
      exact ⟨left', a', same, by simpa using took'⟩

end Record

theorem derivesRecords_library : library.DerivesRecords := by
  have reached {α : Type} (record : Record α) {es : List Entry} {later : Members α}
      (taken : (library.visitor record).members.Takes es later) :
      ∃ left a, later = Record.members left a ∧ record.Took es left a :=
    Record.took_of_takes record.took_nil taken
  constructor
  case asks =>
    intro α record es later taken f hf fresh
    obtain ⟨left, a, rfl, took⟩ := reached record taken
    have present : f ∈ left := (took.left f).mpr ⟨hf, fresh⟩
    cases found : left.find? (·.name = f.name) with
    | none => simpa using List.find?_eq_none.mp found f present
    | some g =>
      have hg := ((took.left g).mp (List.mem_of_find?_eq_some found)).1
      obtain rfl := record.eq_of_name hg hf (by simpa using List.find?_some found)
      exact ⟨_, Record.named_members_of_find? found⟩
  case repeated =>
    intro α record es later taken name listed
    obtain ⟨left, a, rfl, took⟩ := reached record taken
    refine Record.named_members_of_not_mem fun f hf same => ?_
    exact ((took.left f).mp hf).2 (same ▸ listed)
  case unknown =>
    intro α record es later taken name other
    obtain ⟨left, a, rfl, took⟩ := reached record taken
    exact Record.named_members_of_not_mem fun f hf => other f ((took.left f).mp hf).1
  case ended =>
    intro α record es later taken
    obtain ⟨left, a, rfl, took⟩ := reached record taken
    exact ⟨a, Record.ended_members, took.filled⟩
  case entries =>
    intro α record a
    rfl

end ProtoVM.Json
