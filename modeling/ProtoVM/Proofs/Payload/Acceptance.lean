import ProtoVM.Proofs.Payload.RoundTrip

/-!
# Accepted payloads

The reader accepts exactly the payloads of units that pass the code check. So what it accepts is
what the writer would have written for the unit, up to the bytes that stand for `true` and a digest
that was not verified.
-/

namespace ProtoVM.Payload

/-! ## Spellings and what is written -/

/-- The first bytes are the second ones, up to bytes above 1 at some of the given places. -/
structure Loosens (place : Nat → Prop) (xs ys : List UInt8) : Prop where
  length : ys.length = xs.length
  differ : ∀ i, xs[i]? ≠ ys[i]? → place i ∧ ∃ b, xs[i]? = some b ∧ 1 < b

theorem Loosens.mono {place place' : Nat → Prop} {xs ys : List UInt8} (h : Loosens place xs ys)
    (sub : ∀ i, place i → place' i) : Loosens place' xs ys where
  length := h.length
  differ := fun i ne => (h.differ i ne).imp_left (sub i)

theorem loosens_refl (xs : List UInt8) : Loosens (fun _ => False) xs xs where
  length := rfl
  differ := fun _ ne => absurd rfl ne

theorem Loosens.append {place place' : Nat → Prop} {xs ys xs' ys' : List UInt8}
    (front : Loosens place xs ys) (back : Loosens place' xs' ys') :
    Loosens (fun i => place i ∨ ∃ j, place' j ∧ i = ys.length + j) (xs ++ xs') (ys ++ ys') where
  length := by rw [List.length_append, List.length_append, front.length, back.length]
  differ := by
    intro i ne
    by_cases inFront : i < xs.length
    · have inFront' : i < ys.length := by rwa [front.length]
      rw [List.getElem?_append_left inFront, List.getElem?_append_left inFront'] at ne
      rw [List.getElem?_append_left inFront]
      exact (front.differ i ne).imp_left .inl
    · have behind : xs.length ≤ i := Nat.le_of_not_lt inFront
      rw [List.getElem?_append_right behind,
        List.getElem?_append_right (by rwa [front.length]), front.length] at ne
      rw [List.getElem?_append_right behind]
      refine (back.differ _ ne).imp_left fun found => .inr ⟨_, found, ?_⟩
      rw [front.length]
      omega

/-- Only a `true` is spelled in other bytes than those that are written. -/
theorem loosens_of_spellsConstant {c : Constant} {bytes : List UInt8}
    (spelled : SpellsConstant c bytes) :
    Loosens (fun i => (∃ b, c = .bool b) ∧ i = 1) bytes (writeConstant c) := by
  cases spelled with
  | int i => exact (loosens_refl _).mono fun _ => False.elim
  | float x => exact (loosens_refl _).mono fun _ => False.elim
  | undefined => exact (loosens_refl _).mono fun _ => False.elim
  | str text =>
    obtain ⟨-, rfl⟩ := text
    exact (loosens_refl _).mono fun _ => False.elim
  | bool value =>
    refine ⟨rfl, fun i ne => ?_⟩
    match i with
    | 0 => exact absurd rfl ne
    | 1 =>
      refine ⟨⟨⟨_, rfl⟩, rfl⟩, value, rfl, ?_⟩
      -- zero and one are written as they are
      have notZero : value ≠ 0 := by
        rintro rfl
        exact ne rfl
      have notOne : value ≠ 1 := by
        rintro rfl
        exact ne rfl
      rw [Ne, ← UInt8.toNat_inj] at notZero notOne
      rw [UInt8.lt_iff_toNat_lt]
      have : (0 : UInt8).toNat = 0 ∧ (1 : UInt8).toNat = 1 := ⟨rfl, rfl⟩
      omega
    | i + 2 => exact absurd rfl ne

/-- Where the values of the Bool constants stand in the spelled constants. -/
def BoolValue (constants : List Constant) (offset : Nat) : Prop :=
  ∃ before b after, constants = before ++ .bool b :: after ∧
    offset = (before.flatMap writeConstant).length + 1

theorem loosens_of_spellsAll {constants : List Constant} {bytes : List UInt8}
    (spelled : SpellsAll SpellsConstant constants bytes) :
    Loosens (BoolValue constants) bytes (constants.flatMap writeConstant) := by
  induction spelled with
  | nil => exact (loosens_refl []).mono fun _ => False.elim
  | @cons c constants xs ys first later ih =>
    refine ((loosens_of_spellsConstant first).append ih).mono fun i place => ?_
    rcases place with ⟨⟨b, rfl⟩, rfl⟩ | ⟨j, ⟨before, b, after, rfl, rfl⟩, rfl⟩
    · exact ⟨[], b, constants, rfl, rfl⟩
    · refine ⟨c :: before, b, after, rfl, ?_⟩
      rw [List.flatMap_cons, List.length_append]
      omega

theorem eq_flatMap_of_spellsAll {texts : List String} {bytes : List UInt8}
    (spelled : SpellsAll SpellsString texts bytes) : bytes = texts.flatMap writeString := by
  induction spelled with
  | nil => rfl
  | cons first later ih => rw [List.flatMap_cons, ← ih, first.2, writeString, writeBytes]

/-- The place of the value of a Bool constant in a payload of the unit. -/
def BoolValueAt (u : CodeUnit) (offset : Nat) : Prop :=
  ∃ place, BoolValue u.constants place ∧
    offset = (magic ++ [1, 0] ++ writeString u.name ++ writeList writeString u.parameters ++
      littleEndian 4 u.constants.length).length + place

theorem loosens_of_spellsFields {u : CodeUnit} {fields : List UInt8}
    (spelled : SpellsFields u fields) :
    Loosens (BoolValueAt u) (magic ++ [1, 0] ++ fields) (writeBody u) := by
  obtain ⟨_, _, _, _, ⟨-, rfl⟩, ⟨-, parameters, hparameters, rfl⟩, ⟨-, constants, hconstants, rfl⟩,
    ⟨-, rfl⟩, rfl⟩ := spelled
  obtain rfl := eq_flatMap_of_spellsAll hparameters
  have front := loosens_refl (magic ++ [1, 0] ++ writeString u.name ++
    writeList writeString u.parameters ++ littleEndian 4 u.constants.length)
  have loose := (front.append (loosens_of_spellsAll hconstants)).append
    (loosens_refl (writeBytes u.code))
  have written : magic ++ [1, 0] ++ writeString u.name ++ writeList writeString u.parameters ++
      littleEndian 4 u.constants.length ++ u.constants.flatMap writeConstant ++ writeBytes u.code =
      writeBody u := by
    simp only [writeBody, writeFields, writeList, List.append_assoc]
    rfl
  have read : magic ++ [1, 0] ++ writeString u.name ++ writeList writeString u.parameters ++
      littleEndian 4 u.constants.length ++ constants ++ writeBytes u.code =
      magic ++ [1, 0] ++ (writeString u.name ++ writeList writeString u.parameters ++
        (littleEndian 4 u.constants.length ++ constants) ++ writeBytes u.code) := by
    simp only [List.append_assoc]
  rw [written, read] at loose
  refine loose.mono fun i place => ?_
  rcases place with (⟨⟨⟩⟩ | place) | ⟨j, ⟨⟩, -⟩
  exact place

/-- Reading accepts exactly the payloads of the units that pass the code check: magic, version,
fields and digest follow each other, with nothing left over, and the digest is right if it is to be
verified. Any payload that is accepted has the length of the one that is written for its unit, and
agrees with it up to values of Bool constants above 1 and the digest; with a verified digest and
without such values it is that one. -/
theorem decode_eq_ok_iff (d : Digest) (payload : List UInt8) (verify : Bool) (u : CodeUnit) :
    (d.decode payload verify = .ok u ↔
      ∃ fields checksum, payload = magic ++ [1, 0] ++ fields ++ checksum ∧ SpellsFields u fields ∧
        checksum.length = 32 ∧ u.check = .ok () ∧
        (verify → checksum = d.hash (magic ++ [1, 0] ++ fields))) ∧
    (d.decode payload verify = .ok u →
      (d.encode u).length = payload.length ∧
      (∀ i < payload.length - 32, payload[i]? ≠ (d.encode u)[i]? →
        BoolValueAt u i ∧ ∃ b, payload[i]? = some b ∧ 1 < b) ∧
      (verify → (∀ i b, BoolValueAt u i → payload[i]? = some b → b ≤ 1) →
        d.encode u = payload)) := by
  have accepted : d.decode payload verify = .ok u ↔
      ∃ fields checksum, payload = magic ++ [1, 0] ++ fields ++ checksum ∧ SpellsFields u fields ∧
        checksum.length = 32 ∧ u.check = .ok () ∧
        (verify → checksum = d.hash (magic ++ [1, 0] ++ fields)) := by
    rw [decode_eq_ok_iff_readUnit]
    constructor
    · rintro ⟨checked, checksum, read⟩
      obtain ⟨fields, split, spells, length, verified⟩ := readUnit_eq_ok_iff.mp read
      exact ⟨fields, checksum, split, spells, length, checked, verified⟩
    · rintro ⟨fields, checksum, split, spells, length, checked, verified⟩
      exact ⟨checked, checksum, readUnit_eq_ok_iff.mpr ⟨fields, split, spells, length, verified⟩⟩
  refine ⟨accepted, fun decoded => ?_⟩
  obtain ⟨fields, checksum, rfl, spells, length, -, verified⟩ := accepted.mp decoded
  have loose := loosens_of_spellsFields spells
  have body (i : Nat) (inside : i < (magic ++ [1, 0] ++ fields).length) :
      (magic ++ [1, 0] ++ fields ++ checksum)[i]? = (magic ++ [1, 0] ++ fields)[i]? ∧
        (d.encode u)[i]? = (writeBody u)[i]? :=
    ⟨List.getElem?_append_left inside, List.getElem?_append_left (by rwa [loose.length])⟩
  have total : (magic ++ [1, 0] ++ fields ++ checksum).length =
      (magic ++ [1, 0] ++ fields).length + 32 := by
    rw [List.length_append, length]
  refine ⟨?_, ?_, ?_⟩
  · rw [length_encode, loose.length, total]
    rfl
  · intro i inside differ
    rw [total, Nat.add_sub_cancel] at inside
    obtain ⟨first, second⟩ := body i inside
    rw [first, second] at differ
    rw [first]
    exact loose.differ i differ
  · intro on strict
    have same : magic ++ [1, 0] ++ fields = writeBody u := by
      refine List.ext_getElem? fun i => Decidable.byContradiction fun differ => ?_
      obtain ⟨place, b, found, above⟩ := loose.differ i differ
      have inside := (List.getElem?_eq_some_iff.mp found).1
      have below := strict i b place ((body i inside).1.trans found)
      exact absurd above (UInt8.not_lt.mpr below)
    rw [verified on, same]
    rfl

/-- A unit whose only constant is `true`. -/
def oneTruth : CodeUnit := ⟨"t", [], [.bool true], Code.instruction .ret []⟩

/-- The payload of the unit in which 7 stands for `true`. -/
def looseTruth : List UInt8 :=
  let body := magic ++ [1, 0] ++ ([1, 0, 0, 0, 0x74] ++ [0, 0, 0, 0] ++ [1, 0, 0, 0, 3, 7] ++
    [1, 0, 0, 0, 21])
  body ++ Sha256.hash body

theorem decode_looseTruth :
    decode looseTruth true = .ok oneTruth ∧ encode oneTruth ≠ looseTruth := by
  have seven : SpellsAll SpellsConstant [.bool true] [3, 7] :=
    SpellsAll.cons (SpellsConstant.bool 7) SpellsAll.nil
  have spelled : SpellsFields oneTruth ([1, 0, 0, 0, 0x74] ++ [0, 0, 0, 0] ++ [1, 0, 0, 0, 3, 7] ++
      [1, 0, 0, 0, 21]) :=
    ⟨_, _, _, _, ⟨by decide, by decide⟩, ⟨by decide, [], .nil, rfl⟩,
      ⟨by decide, [3, 7], seven, rfl⟩, ⟨by decide, rfl⟩, rfl⟩
  have accepted : oneTruth.check = .ok () := by cbv
  constructor
  · exact (decode_eq_ok_iff sha256 looseTruth true oneTruth).1.mpr
      ⟨_, _, rfl, spelled, Sha256.length_hash _, accepted, fun _ => rfl⟩
  · intro same
    have byte : (encode oneTruth)[20]? = looseTruth[20]? := by rw [same]
    revert byte
    decide

end ProtoVM.Payload
