import ProtoVM.Proofs.Object.HeapOperations
import ProtoVM.Proofs.Payload.Spellings
import ProtoVM.Session.World

/-!
# Loading

What a loader has found and done when it binds the unit of a payload.
-/

namespace ProtoVM

namespace World

variable {w : World} {l : LoaderId} {loader : Loader} {id : String} {payload : List UInt8}

theorem decode_of_accept {u : CodeUnit} (accepted : w.accept loader id payload = .ok u) :
    Payload.decode payload loader.config.verifyChecksum = .ok u := by
  obtain ⟨_, -, rest⟩ := exists_of_bind_eq_ok accepted
  obtain ⟨unit, decoded, rest⟩ := exists_of_bind_eq_ok rest
  obtain ⟨_, -, same⟩ := exists_of_bind_eq_ok rest
  cases same
  exact decoded

theorem isLoaded_of_checkUnloaded (checked : checkUnloaded loader id = .ok ()) :
    isLoaded loader id = false := by
  rw [checkUnloaded] at checked
  split at checked
  · cases checked
  · exact Bool.eq_false_iff.mpr ‹_›

theorem isLoaded_of_accept {u : CodeUnit} (accepted : w.accept loader id payload = .ok u) :
    isLoaded loader id = false := by
  obtain ⟨_, checked, -⟩ := exists_of_bind_eq_ok accepted
  exact isLoaded_of_checkUnloaded checked

/-- An identifier that the loader has bound is refused before the payload is looked at. -/
theorem accept_of_isLoaded (loaded : isLoaded loader id = true) :
    w.accept loader id payload = .error (.duplicateUnit id) := by
  rw [accept, checkUnloaded, if_pos loaded]
  rfl

theorem isLoaded_of_acceptNative {handle : Handle}
    (accepted : w.acceptNative loader id handle = .ok ()) : isLoaded loader id = false := by
  obtain ⟨_, checked, -⟩ := exists_of_bind_eq_ok accepted
  exact isLoaded_of_checkUnloaded checked

theorem acceptNative_of_isLoaded {handle : Handle} (loaded : isLoaded loader id = true) :
    w.acceptNative loader id handle = .error (.duplicateUnit id) := by
  rw [acceptNative, checkUnloaded, if_pos loaded]
  rfl

/-- When loading succeeds, the payload holds a unit that passes the code check, and the new
function calls it. -/
theorem load_eq_ok {f : ObjectId} (loaded : (w.load l loader id payload).1 = .ok f) :
    ∃ u, Payload.decode payload loader.config.verifyChecksum = .ok u ∧ u.check = .ok () ∧
      (w.load l loader id payload).2.heap.handle f = .interpreted ⟨w.banks.size, id, u, l⟩ := by
  rw [load] at loaded ⊢
  cases accepted : w.accept loader id payload with
  | error e =>
    rw [accepted] at loaded
    cases loaded
  | ok u =>
    rw [accepted] at loaded
    obtain rfl : (w.install l loader id u).1 = f := Except.ok.inj loaded
    have decoded := decode_of_accept accepted
    have checked := (Payload.decode_eq_ok_iff_readUnit.mp decoded).1
    exact ⟨u, decoded, checked, Heap.handle_newFunction ..⟩

end World

end ProtoVM
