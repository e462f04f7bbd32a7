import ProtoVM.Proofs.Payload.Spellings

/-!
# Laws of readers

All readers are put together from taking bytes, one after the other, and from failing. So what holds
of these holds of every reader of the fields and of the header (`ReaderLaw`). One such law is about
failures: reading a payload fails for what is wrong with its bytes or with its code, never for what
a loader or a dictionary knows.
-/

namespace ProtoVM

/-- The failure says something of the payload alone. -/
def LoadError.OfPayload : LoadError → Prop
  | duplicateUnit _ => False
  | signatureMismatch _ _ _ => False
  | _ => True

namespace Payload

/-- A property of readers that taking bytes has, and that stays when readers are put together. -/
structure ReaderLaw (P : {α : Type} → Reader α → Prop) : Prop where
  takeBytes : ∀ count, P (takeBytes count)
  pure : ∀ {α : Type} (a : α), P (pure a)
  throw : ∀ {α : Type} {e : LoadError}, e.OfPayload → P (throw e : Reader α)
  bind : ∀ {α β : Type} {r : Reader α} {Spells : α → List UInt8 → Prop} {f : α → Reader β},
    Reads r Spells → P r → (∀ a, P (f a)) → P (r >>= f)

namespace ReaderLaw

variable {P : {α : Type} → Reader α → Prop} (law : ReaderLaw P)
include law

theorem map {α β : Type} {r : Reader α} {Spells : α → List UInt8 → Prop} (f : α → β)
    (reads : Reads r Spells) (holds : P r) : P (f <$> r) :=
  law.bind (f := fun a => Pure.pure (f a)) reads holds fun a => law.pure (f a)

theorem takeNumber (width : Nat) : P (takeNumber width) :=
  law.map _ (reads_takeBytes width) (law.takeBytes width)

theorem readBytes : P readBytes :=
  law.bind (reads_takeNumber 4) (law.takeNumber 4) law.takeBytes

theorem readString : P readString := by
  refine law.bind reads_readBytes law.readBytes fun content => ?_
  cases ofUtf8? content with
  | none => exact law.throw trivial
  | some s => exact law.pure s

theorem readConstant : P readConstant := by
  refine law.bind (reads_takeNumber 1) (law.takeNumber 1) fun tag => ?_
  match tag with
  | 0 => exact law.bind (reads_takeNumber 8) (law.takeNumber 8) fun _ => law.pure _
  | 1 => exact law.bind (reads_takeNumber 8) (law.takeNumber 8) fun _ => law.pure _
  | 2 => exact law.bind reads_readString law.readString fun _ => law.pure _
  | 3 => exact law.bind (reads_takeNumber 1) (law.takeNumber 1) fun _ => law.pure _
  | 4 => exact law.pure _
  | _ + 5 => exact law.throw trivial

section

variable {α : Type} {item : Reader α} {Spells : α → List UInt8 → Prop} (reads : Reads item Spells)
  (holds : P item)
include reads holds

theorem takeMany (count : Nat) : P (takeMany item count) := by
  induction count with
  | zero => exact law.pure []
  | succ count ih =>
    refine law.bind reads holds fun a => ?_
    exact law.map (a :: ·) (reads_takeMany reads count) ih

theorem readList : P (readList item) :=
  law.bind (reads_takeNumber 4) (law.takeNumber 4) (law.takeMany reads holds)

end

theorem readFields : P readFields := by
  refine law.bind reads_readString law.readString fun name => ?_
  refine law.bind (reads_readList reads_readString) (law.readList reads_readString law.readString)
    fun parameters => ?_
  refine law.bind (reads_readList reads_readConstant)
    (law.readList reads_readConstant law.readConstant) fun constants => ?_
  exact law.map _ reads_readBytes law.readBytes

theorem readHeader : P readHeader := by
  refine law.bind (reads_takeBytes _) (law.takeBytes _) fun found => ?_
  have version : P (Payload.takeNumber 2 >>= fun version =>
      if version ≠ formatVersion then MonadExcept.throw (.unsupportedVersion version)
      else Pure.pure ()) := by
    refine law.bind (reads_takeNumber 2) (law.takeNumber 2) fun version => ?_
    split
    · exact law.throw trivial
    · exact law.pure ()
  show P (if found ≠ magic then MonadExcept.throw .badMagic else _)
  split
  · exact law.throw trivial
  · exact version

end ReaderLaw

/-! ## Failures -/

/-- A computation that fails has failed in its first part, or else in the second one. -/
theorem error_or_error_of_bind_eq_error {ε α β : Type} {x : Except ε α} {f : α → Except ε β} {e : ε}
    (h : x >>= f = .error e) : x = .error e ∨ ∃ a, x = .ok a ∧ f a = .error e := by
  cases x with
  | error e' =>
    cases h
    exact .inl rfl
  | ok a => exact .inr ⟨a, rfl, h⟩

/-- Whatever the reader fails for is something of the payload. -/
def FailsOnPayload {α : Type} (r : Reader α) : Prop :=
  ∀ input e, r input = .error e → e.OfPayload

theorem failsOnPayload : ReaderLaw FailsOnPayload where
  takeBytes := by
    intro count input e failed
    simp only [takeBytes] at failed
    split at failed
    · cases failed
    · cases failed
      exact trivial
  pure := by
    intro α a input e failed
    cases failed
  throw := by
    intro α e ofPayload input e' failed
    cases failed
    exact ofPayload
  bind := by
    intro α β r Spells f reads first second input e failed
    rcases error_or_error_of_bind_eq_error failed with failed | ⟨⟨a, left⟩, -, failed⟩
    · exact first input e failed
    · exact second a left e failed

section

variable {d : Digest} {payload : List UInt8} {verify : Bool} {e : LoadError}

theorem ofPayload_of_splitTrailer (failed : d.splitTrailer payload verify = .error e) :
    e.OfPayload := by
  simp only [Digest.splitTrailer] at failed
  split at failed
  · cases failed
    exact trivial
  · split at failed
    · cases failed
      exact trivial
    · cases failed

theorem ofPayload_of_readUnit (failed : d.readUnit payload verify = .error e) : e.OfPayload := by
  rcases error_or_error_of_bind_eq_error failed with failed | ⟨_, -, failed⟩
  · exact failsOnPayload.readHeader payload e failed
  rcases error_or_error_of_bind_eq_error failed with failed | ⟨parts, -, failed⟩
  · exact ofPayload_of_splitTrailer failed
  rcases error_or_error_of_bind_eq_error failed with failed | ⟨taken, -, failed⟩
  · exact failsOnPayload.takeBytes _ parts.1 e failed
  rcases error_or_error_of_bind_eq_error failed with failed | ⟨answer, -, failed⟩
  · exact failsOnPayload.readFields taken.2 e failed
  · by_cases rest : answer.2 ≠ []
    · simp only [if_pos rest] at failed
      cases failed
      exact trivial
    · simp only [if_neg rest] at failed
      cases failed

theorem ofPayload_of_check {u : CodeUnit} (failed : u.check = .error e) : e.OfPayload := by
  simp only [CodeUnit.check] at failed
  split at failed
  · cases failed
    exact trivial
  · split at failed
    · cases failed
      exact trivial
    · cases failed

theorem ofPayload_of_decode (failed : d.decode payload verify = .error e) : e.OfPayload := by
  rcases error_or_error_of_bind_eq_error failed with failed | ⟨answer, -, failed⟩
  · exact ofPayload_of_readUnit failed
  rcases error_or_error_of_bind_eq_error failed with failed | ⟨_, -, failed⟩
  · exact ofPayload_of_check failed
  · cases failed

end

end Payload

end ProtoVM
