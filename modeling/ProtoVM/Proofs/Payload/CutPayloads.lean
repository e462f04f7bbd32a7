import ProtoVM.Proofs.Payload.ReaderLaws

/-!
# Payloads that were cut off or carried on

The fields of a unit say themselves where they end. So a payload that was read can neither be cut
off nor carried on: every reader asks for the bytes that are missing (`Starves`), and what comes
after the payload is left over, even though the digest is cut from the end and takes other bytes.
-/

namespace ProtoVM.Payload

/-! ## Readers that ask for what is missing -/

/-- Of bytes that the reader takes as a whole, it can not do without the last one. -/
def Starves {α : Type} (r : Reader α) : Prop :=
  ∀ input a, r input = .ok (a, []) → ∀ cut, cut <+: input → cut ≠ input → r cut = .error .truncated

section

variable {α β : Type} {r : Reader α} {Spells : α → List UInt8 → Prop}

theorem starves_pure (a : α) : Starves (pure a) := by
  intro input b taken cut front short
  have rest : input = [] := congrArg Prod.snd (Except.ok.inj taken)
  subst rest
  exact absurd (List.prefix_nil.mp front) short

theorem starves_throw (e : LoadError) : Starves (throw e : Reader α) := by
  intro input b taken
  cases taken

/-- The bytes end in the first part, or else in the second one. -/
theorem Starves.bind {f : α → Reader β} (reads : Reads r Spells) (first : Starves r)
    (second : ∀ a, Starves (f a)) : Starves (r >>= f) := by
  intro input b taken cut front short
  change (r input).bind (fun (a, left) => f a left) = .ok (b, []) at taken
  show (r cut).bind (fun (a, left) => f a left) = .error .truncated
  cases answer : r input with
  | error e => simp [answer, Except.bind] at taken
  | ok answer' =>
    obtain ⟨a, left⟩ := answer'
    simp only [answer, Except.bind] at taken
    obtain ⟨xs, spelled, rfl⟩ := reads.spelled answer
    have whole : r xs = .ok (a, []) := by simpa using reads.takes spelled []
    rcases List.prefix_or_prefix_of_prefix front (List.prefix_append xs left) with
      within | ⟨ys, rfl⟩
    · by_cases all : cut = xs
      · subst all
        have missing : [] ≠ left := by
          rintro rfl
          simp at short
        simp [whole, Except.bind, second a left b taken [] List.nil_prefix missing]
      · simp [first xs a whole cut within all, Except.bind]
    · have later : ys <+: left := (List.prefix_append_right_inj xs).mp front
      have missing : ys ≠ left := by
        rintro rfl
        exact short rfl
      simp [reads.takes spelled ys, Except.bind, second a left b taken ys later missing]

end

theorem takeBytes_of_length_lt {count : Nat} {input : List UInt8} (few : input.length < count) :
    takeBytes count input = .error .truncated := by
  simp only [takeBytes, List.length_take]
  rw [if_neg (by omega)]

theorem starves_takeBytes (count : Nat) : Starves (takeBytes count) := by
  intro input a taken cut front short
  obtain ⟨bytes, ⟨-, rfl⟩, split⟩ := (reads_takeBytes count).spelled taken
  obtain rfl : input = bytes := by simpa using split
  apply takeBytes_of_length_lt
  have different : cut.length ≠ input.length := fun same => short (front.eq_of_length same)
  have := front.length_le
  omega

theorem starves : ReaderLaw Starves where
  takeBytes := starves_takeBytes
  pure := starves_pure
  throw := fun _ => starves_throw _
  bind := Starves.bind

/-! ## Payloads -/

section

variable {d : Digest} {payload fields checksum : List UInt8} {u : CodeUnit}

/-- Between the header and a digest that is not looked at, the fields are read. -/
theorem readUnit_append (fields : List UInt8) (length : checksum.length = checksumLength) :
    d.readUnit (magic ++ [1, 0] ++ fields ++ checksum) false =
      (readFields fields).bind fun (unit, rest) =>
        if rest ≠ [] then .error (.trailingBytes rest.length) else .ok (unit, checksum) := by
  have header : readHeader (magic ++ [1, 0] ++ (fields ++ checksum)) =
      .ok ((), fields ++ checksum) := reads_readHeader.takes rfl _
  have split : d.splitTrailer (magic ++ [1, 0] ++ fields ++ checksum) false =
      .ok (magic ++ [1, 0] ++ fields, checksum) :=
    splitTrailer_eq_ok_iff.mpr ⟨rfl, length, nofun⟩
  have body : takeBytes (magic.length + 2) (magic ++ [1, 0] ++ fields) =
      .ok (magic ++ [1, 0], fields) := (reads_takeBytes 6).takes ⟨rfl, rfl⟩ fields
  rw [← List.append_assoc] at header
  simp only [Digest.readUnit, header, split, body, bind, Except.bind]
  cases readFields fields with
  | error e => rfl
  | ok answer =>
    obtain ⟨unit, rest⟩ := answer
    cases rest <;> rfl

/-- A header with fewer bytes behind it than a digest has. The digest may begin in the header. -/
theorem readUnit_of_length_lt {rest : List UInt8} (few : rest.length < checksumLength) :
    d.readUnit (magic ++ [1, 0] ++ rest) false = .error .truncated := by
  have header : readHeader (magic ++ [1, 0] ++ rest) = .ok ((), rest) :=
    reads_readHeader.takes rfl rest
  have length : (magic ++ [1, 0] ++ rest).length = rest.length + 6 := by
    simp [magic]
  simp only [Digest.readUnit, header, bind, Except.bind, Digest.splitTrailer]
  by_cases short : (magic ++ [1, 0] ++ rest).length < checksumLength
  · rw [if_pos short]
  · have body : takeBytes (magic.length + 2) ((magic ++ [1, 0] ++ rest).take
        ((magic ++ [1, 0] ++ rest).length - checksumLength)) = .error .truncated := by
      apply takeBytes_of_length_lt
      rw [List.length_take, length]
      simp only [magic, List.length_cons, List.length_nil]
      omega
    rw [if_neg short, Bool.false_and, if_neg Bool.false_ne_true]
    simp only [body]

/-- Wherever a payload is cut off, its reader asks for more. -/
theorem readUnit_of_isPrefix (read : d.readUnit payload false = .ok (u, checksum))
    {cut : List UInt8} (front : cut <+: payload) (short : cut ≠ payload) :
    d.readUnit cut false = .error .truncated := by
  obtain ⟨fields, rfl, spells, length, -⟩ := readUnit_eq_ok_iff.mp read
  rw [List.append_assoc] at front short
  by_cases headed : magic ++ [1, 0] <+: cut
  · obtain ⟨rest, rfl⟩ := headed
    replace front := (List.prefix_append_right_inj _).mp front
    have shorter : rest.length < fields.length + checksumLength := by
      have := front.length_le
      have : rest.length ≠ (fields ++ checksum).length := fun same =>
        short (by rw [front.eq_of_length same])
      rw [List.length_append] at *
      omega
    by_cases few : rest.length < checksumLength
    · exact readUnit_of_length_lt few
    · -- the digest is cut from the end of what is left, so that the fields are cut off as well
      obtain ⟨left, trailer, rfl, size⟩ : ∃ left trailer, rest = left ++ trailer ∧
          trailer.length = checksumLength :=
        ⟨rest.take (rest.length - checksumLength), rest.drop (rest.length - checksumLength),
          (List.take_append_drop _ rest).symm, by rw [List.length_drop]; omega⟩
      rw [List.length_append] at shorter
      have within : left <+: fields := by
        apply List.prefix_of_prefix_length_le _ (List.prefix_append fields checksum)
        · omega
        · exact (List.prefix_append left trailer).trans front
      have cutFields : left ≠ fields := by
        rintro rfl
        omega
      have whole : readFields fields = .ok (u, []) := by
        simpa using reads_readFields.takes spells []
      rw [← List.append_assoc, readUnit_append left size,
        starves.readFields fields u whole left within cutFields]
      rfl
  · have within : cut <+: magic ++ [1, 0] :=
      (List.prefix_or_prefix_of_prefix front (List.prefix_append _ _)).resolve_right headed
    have cutHeader : cut ≠ magic ++ [1, 0] := by
      rintro rfl
      exact headed List.prefix_rfl
    have whole : readHeader (magic ++ [1, 0]) = .ok ((), []) := reads_readHeader.takes rfl []
    simp [Digest.readUnit, starves.readHeader _ () whole cut within cutHeader, bind, Except.bind]

/-- Whatever a payload is carried on with, as many bytes as that are left over. -/
theorem readUnit_of_append (read : d.readUnit payload false = .ok (u, checksum))
    {extra : List UInt8} (more : extra ≠ []) :
    d.readUnit (payload ++ extra) false = .error (.trailingBytes extra.length) := by
  obtain ⟨fields, rfl, spells, length, -⟩ := readUnit_eq_ok_iff.mp read
  -- the digest is cut from the end, and the first bytes of the old one go to the fields
  obtain ⟨moved, trailer, same, size⟩ : ∃ moved trailer, checksum ++ extra = moved ++ trailer ∧
      moved.length = extra.length :=
    ⟨(checksum ++ extra).take extra.length, (checksum ++ extra).drop extra.length,
      (List.take_append_drop _ _).symm, by simp⟩
  have digest : trailer.length = checksumLength := by
    have total := congrArg List.length same
    rw [List.length_append, List.length_append] at total
    omega
  have left_over : moved ≠ [] := by
    rintro rfl
    exact more (List.length_eq_zero_iff.mp size.symm)
  have joined : magic ++ [1, 0] ++ fields ++ checksum ++ extra =
      magic ++ [1, 0] ++ (fields ++ moved) ++ trailer := by
    rw [List.append_assoc _ checksum, same]
    simp only [List.append_assoc]
  rw [joined, readUnit_append _ digest, reads_readFields.takes spells moved, ← size]
  exact if_pos left_over

/-- Verifying the digest adds one way to fail, and takes away no other. -/
theorem readUnit_verified (d : Digest) (payload : List UInt8) :
    d.readUnit payload true = d.readUnit payload false ∨
      d.readUnit payload true = .error .checksumMismatch := by
  have split : d.splitTrailer payload true = d.splitTrailer payload false ∨
      d.splitTrailer payload true = .error .checksumMismatch := by
    simp only [Digest.splitTrailer]
    by_cases short : payload.length < checksumLength
    · simp [short]
    · simp only [if_neg short]
      split
      · exact .inr rfl
      · exact .inl rfl
  simp only [Digest.readUnit, bind, Except.bind]
  cases readHeader payload with
  | error e => exact .inl rfl
  | ok answer =>
    rcases split with same | wrong
    · exact .inl (by rw [same])
    · exact .inr (by rw [wrong])

end

/-- What comes of bytes that the reader can not read: the error, or a wrong digest where the digest
is looked at first. -/
structure Refuses (d : Digest) (payload : List UInt8) (e : LoadError) : Prop where
  summarized : d.inspect payload = .error e
  unverified : d.decode payload false = .error e
  verified : d.decode payload true = .error e ∨ d.decode payload true = .error .checksumMismatch

theorem decode_of_readUnit_eq_error {d : Digest} {payload : List UInt8} {verify : Bool}
    {e : LoadError}
    (failed : d.readUnit payload verify = .error e) :
    d.decode payload verify = .error e := by
  simp [Digest.decode, failed, bind, Except.bind]

theorem refuses_of_readUnit {d : Digest} {payload : List UInt8} {e : LoadError}
    (failed : d.readUnit payload false = .error e) : Refuses d payload e where
  summarized := by simp [Digest.inspect, failed, bind, Except.bind]
  unverified := decode_of_readUnit_eq_error failed
  verified := by
    rcases readUnit_verified d payload with same | wrong
    · exact .inl (decode_of_readUnit_eq_error (same.trans failed))
    · exact .inr (decode_of_readUnit_eq_error wrong)

/-- A payload that can be summarized says where it ends: whatever it is cut off to is truncated,
and whatever it is carried on with is left over. -/
theorem refuses_cut_and_extended {d : Digest} {payload : List UInt8} {summary : Summary}
    (inspected : d.inspect payload = .ok summary) :
    (∀ cut, cut <+: payload → cut ≠ payload → Refuses d cut .truncated) ∧
    (∀ extra, extra ≠ [] → Refuses d (payload ++ extra) (.trailingBytes extra.length)) := by
  obtain ⟨⟨u, checksum⟩, read, -⟩ := exists_of_bind_eq_ok inspected
  constructor
  · intro cut front short
    exact refuses_of_readUnit (readUnit_of_isPrefix read front short)
  · intro extra more
    exact refuses_of_readUnit (readUnit_of_append read more)

/-- The payload of a unit without a name, with a truth value as its constant and a blank digest. -/
def oneFlag : List UInt8 :=
  magic ++ [1, 0] ++ ([0, 0, 0, 0] ++ [0, 0, 0, 0] ++ [1, 0, 0, 0, 3, 9] ++ [0, 0, 0, 0]) ++
    List.replicate 32 0

/-- Cut off so far that the digest begins in the header, and carried on by two bytes. -/
theorem refuses_cut_and_extended_oneFlag :
    (inspect oneFlag).isOk ∧ Refuses sha256 (oneFlag.take 35) .truncated ∧
      Refuses sha256 (oneFlag ++ [0, 0]) (.trailingBytes 2) := by
  have summarized : (inspect oneFlag).isOk := by decide +kernel
  obtain ⟨summary, inspected⟩ : ∃ summary, inspect oneFlag = .ok summary := by
    cases answer : inspect oneFlag with
    | ok summary => exact ⟨summary, rfl⟩
    | error e => simp [answer, Except.isOk, Except.toBool] at summarized
  have laws := refuses_cut_and_extended inspected
  exact ⟨summarized, laws.1 _ (List.take_prefix 35 oneFlag) (by decide), laws.2 [0, 0] (by decide)⟩

end ProtoVM.Payload
