import ProtoVM.Object.PropertyCache
import ProtoVM.Proofs.Object.HeapOperations

/-!
# Property caches answer like lookups

What an entry of a cache says of the heap (`Resolution.Holds`) stays true while the heap evolves: a
layout keeps the slot of the key, and an object that had no such key has none as long as its count
of changes is the one that its token was issued at. So an entry whose guards hold gives the value
that a walk along the chain would find. Tokens carry the count in a word of 64 bits; where no count
has left that range, a valid token means that nothing was changed.
-/

namespace ProtoVM

/-- No object has been changed so often that its generation has come round. -/
def Heap.Bounded (h : Heap) : Prop := ∀ o, h.changes o < UInt64.size

theorem Heap.Bounded.of_evolves {h h' : Heap} (ev : h.Evolves h') (bounded : h'.Bounded) :
    h.Bounded := fun o => Nat.lt_of_le_of_lt (ev.changes_le o) (bounded o)

theorem Heap.bounded_of_all {h : Heap}
    (all : h.objects.toList.all (fun object => decide (object.changes < UInt64.size))) :
    h.Bounded := by
  intro o
  cases found : h.get? o with
  | none =>
    rw [changes, found]
    exact Nat.zero_lt_succ _
  | some object =>
    rw [changes, found]
    have mem : object ∈ h.objects.toList := Array.mem_toList_iff.mpr (Array.mem_of_getElem? found)
    exact of_decide_eq_true (List.all_eq_true.mp all object mem)

/-- Unless the owner was changed since the token was issued, it has no such key. -/
structure Token.Excludes (key : String) (h : Heap) (t : Token) : Prop where
  issued : t.issued.toNat ≤ h.changes t.owner
  missing : h.changes t.owner = t.issued.toNat → h.slotOf? t.owner key = none

/-- What an entry says of the heap. -/
def Resolution.Holds (key : String) (h : Heap) : Resolution → Prop
  | own layout slot => ∃ keys, h.layouts.Lists layout keys ∧ keys.idxOf? key = some slot
  | inherited receiver guards holder slot =>
    h.contains receiver ∧ (∃ rest, h.chain receiver = guards.map (·.owner) ++ holder :: rest) ∧
      (∀ t ∈ guards, t.Excludes key h) ∧ h.slotOf? holder key = some slot
  | absent receiver guards =>
    h.contains receiver ∧ h.chain receiver = guards.map (·.owner) ∧ ∀ t ∈ guards, t.Excludes key h

/-! ## The walk along the chain -/

namespace Heap

variable {h h' : Heap} {o : ObjectId} {key : String}

theorem getOwn?_eq (h : Heap) (o : ObjectId) (key : String) :
    h.getOwn? o key = (h.slotOf? o key).bind (h.atSlot? o) := by
  unfold getOwn? slotOf?
  cases found : h.get? o with
  | none => rfl
  | some object =>
    show object.store.get? h.layouts key = (object.store.slotOf? h.layouts key).bind (h.atSlot? o)
    rw [Store.get?]
    congr 1
    funext slot
    rw [atSlot?, found]
    rfl

theorem exists_chain_eq_cons (h : Heap) (o : ObjectId) : ∃ rest, h.chain o = o :: rest := by
  rw [chain]
  cases h.proto? o with
  | none => exact ⟨[], rfl⟩
  | some p =>
    dsimp only
    by_cases older : p < o
    · rw [if_pos older]
      exact ⟨h.chain p, rfl⟩
    · rw [if_neg older]
      exact ⟨[], rfl⟩

/-- The chain of an existing object runs through existing objects. -/
theorem contains_of_mem_chain (present : h.contains o) {p : ObjectId} (mem : p ∈ h.chain o) :
    h.contains p := by
  induction o using Nat.strongRecOn with
  | ind o ih =>
    rw [chain] at mem
    cases proto : h.proto? o with
    | none =>
      rw [proto] at mem
      rw [List.mem_singleton.mp mem]
      exact present
    | some q =>
      simp only [proto] at mem
      by_cases older : q < o
      · rw [if_pos older] at mem
        rcases List.mem_cons.mp mem with rfl | mem
        · exact present
        · have inside : h.contains q := by
            rw [contains, decide_eq_true_iff] at present ⊢
            exact Nat.lt_trans older present
          exact ih q older inside mem
      · rw [if_neg older] at mem
        rw [List.mem_singleton.mp mem]
        exact present

/-- The slot of a key holds a value. -/
theorem exists_atSlot? (sound : h.Sound) {slot : Nat} (found : h.slotOf? o key = some slot) :
    ∃ v, h.atSlot? o slot = some v := by
  obtain ⟨object, ho, hslot⟩ := Option.bind_eq_some_iff.mp found
  obtain ⟨v, hv⟩ := (sound.stores o object ho).atSlot? hslot
  refine ⟨v, ?_⟩
  rw [atSlot?, ho]
  exact hv

/-- A lookup stops at the first object of the chain that has the key. -/
theorem atSlot?_eq_lookup (sound : h.Sound) {passed rest : List ObjectId} {holder : ObjectId}
    {slot : Nat} (chain : h.chain o = passed ++ holder :: rest)
    (missing : ∀ p ∈ passed, h.slotOf? p key = none) (found : h.slotOf? holder key = some slot) :
    h.atSlot? holder slot = some (h.lookup o key) := by
  obtain ⟨v, hv⟩ := exists_atSlot? sound found
  have skipped : passed.findSome? (h.getOwn? · key) = none := by
    rw [List.findSome?_eq_none_iff]
    intro p hp
    rw [getOwn?_eq, missing p hp]
    rfl
  have here : h.getOwn? holder key = some v := by
    rw [getOwn?_eq, found]
    exact hv
  rw [lookup, chain, List.findSome?_append, skipped, List.findSome?_cons, here, hv]
  rfl

/-- A lookup that no object of the chain can answer gives `undefined`. -/
theorem lookup_eq_undefined (missing : ∀ p ∈ h.chain o, h.slotOf? p key = none) :
    h.lookup o key = .undefined := by
  have nowhere : (h.chain o).findSome? (h.getOwn? · key) = none := by
    rw [List.findSome?_eq_none_iff]
    intro p hp
    rw [getOwn?_eq, missing p hp]
    rfl
  rw [lookup, nowhere]
  rfl

/-- The layout of an object fixes the slots of its keys. -/
theorem slotOf?_eq_of_layout? {layout : LayoutId} {keys : List String}
    (same : h.layout? o = some layout) (lists : h.layouts.Lists layout keys) :
    h.slotOf? o key = keys.idxOf? key := by
  obtain ⟨object, ho, hl⟩ := Option.map_eq_some_iff.mp same
  rw [slotOf?, ho]
  show h.layouts.slotOf? object.store.layout key = _
  rw [hl, LayoutTree.slotOf?, lists.keys]

end Heap

/-! ## Entries -/

section

variable {h h' : Heap} {key : String}

theorem Token.Excludes.mono {t : Token} (ev : h.Evolves h') (present : h.contains t.owner)
    (excludes : t.Excludes key h) : t.Excludes key h' where
  issued := Nat.le_trans excludes.issued (ev.changes_le t.owner)
  missing := by
    intro unchanged
    -- the count was at least the issued one before, and is exactly that now
    have before := excludes.issued
    have later := ev.changes_le t.owner
    have same : h.changes t.owner = t.issued.toNat := by omega
    exact ev.slotOf?_eq_none present (unchanged.trans same.symm) (excludes.missing same)

/-- A token that is issued for an object without the key. -/
theorem Heap.excludes_token {o : ObjectId} (missing : h.slotOf? o key = none) :
    (h.token o).Excludes key h where
  issued := by
    show (UInt64.ofNat (h.changes o)).toNat ≤ h.changes o
    rw [UInt64.toNat_ofNat']
    exact Nat.mod_le ..
  missing := fun _ => missing

theorem Token.Excludes.slotOf?_eq_none {t : Token} (bounded : h.Bounded)
    (excludes : t.Excludes key h) (valid : h.isValid t) : h.slotOf? t.owner key = none := by
  apply excludes.missing
  have issued : UInt64.ofNat (h.changes t.owner) = t.issued := by
    rw [Heap.isValid, beq_iff_eq] at valid
    exact valid
  rw [← issued, UInt64.toNat_ofNat_of_lt' (bounded t.owner)]

namespace Resolution

/-- What an entry says stays true. -/
theorem Holds.mono {e : Resolution} (ev : h.Evolves h') (holds : e.Holds key h) :
    e.Holds key h' := by
  -- the tokens of an entry belong to objects of the chain, which all exist
  have guarded {receiver : ObjectId} {guards : List Token} (present : h.contains receiver)
      (onChain : ∀ p ∈ guards.map (·.owner), p ∈ h.chain receiver)
      (excludes : ∀ t ∈ guards, t.Excludes key h) : ∀ t ∈ guards, t.Excludes key h' := by
    intro t ht
    have owner := Heap.contains_of_mem_chain present (onChain _ (List.mem_map_of_mem ht))
    exact (excludes t ht).mono ev owner
  cases e with
  | own layout slot =>
    obtain ⟨keys, lists, found⟩ := holds
    exact ⟨keys, ev.layouts _ _ lists, found⟩
  | inherited receiver guards holder slot =>
    obtain ⟨present, ⟨rest, chain⟩, excludes, found⟩ := holds
    refine ⟨ev.contains present, ⟨rest, by rw [ev.chain_eq present, chain]⟩, ?_, ev.slotOf? found⟩
    apply guarded present ?_ excludes
    intro p hp
    rw [chain]
    exact List.mem_append_left _ hp
  | absent receiver guards =>
    obtain ⟨present, chain, excludes⟩ := holds
    refine ⟨ev.contains present, by rw [ev.chain_eq present, chain], ?_⟩
    apply guarded present ?_ excludes
    intro p hp
    rw [chain]
    exact hp

/-- An entry whose guards hold answers like a lookup. -/
theorem answer?_eq_lookup {e : Resolution} {receiver : ObjectId} {v : Value} (sound : h.Sound)
    (bounded : h.Bounded) (holds : e.Holds key h) (answered : e.answer? h receiver = some v) :
    v = h.lookup receiver key := by
  -- where all guards are valid, no owner has the key
  have passed {guards : List Token} (valid : guards.all h.isValid)
      (excludes : ∀ t ∈ guards, t.Excludes key h) :
      ∀ p ∈ guards.map (·.owner), h.slotOf? p key = none := by
    intro p hp
    obtain ⟨t, ht, rfl⟩ := List.mem_map.mp hp
    exact (excludes t ht).slotOf?_eq_none bounded (List.all_eq_true.mp valid t ht)
  cases e with
  | own layout slot =>
    obtain ⟨keys, lists, found⟩ := holds
    rw [answer?] at answered
    by_cases same : h.layout? receiver = some layout
    · rw [if_pos same] at answered
      have slot : h.slotOf? receiver key = some slot := by
        rw [Heap.slotOf?_eq_of_layout? same lists, found]
      obtain ⟨rest, chain⟩ := h.exists_chain_eq_cons receiver
      have first : h.atSlot? receiver _ = some (h.lookup receiver key) :=
        @Heap.atSlot?_eq_lookup h receiver key sound [] rest receiver _ chain
          (fun _ hp => nomatch hp) slot
      exact Option.some.inj (answered.symm.trans first)
    · rw [if_neg same] at answered
      cases answered
  | inherited cached guards holder slot =>
    obtain ⟨-, ⟨rest, chain⟩, excludes, found⟩ := holds
    rw [answer?] at answered
    by_cases guard : cached = receiver ∧ guards.all h.isValid
    · rw [if_pos guard] at answered
      obtain ⟨rfl, valid⟩ := guard
      have first := Heap.atSlot?_eq_lookup sound chain (passed valid excludes) found
      exact Option.some.inj (answered.symm.trans first)
    · rw [if_neg guard] at answered
      cases answered
  | absent cached guards =>
    obtain ⟨-, chain, excludes⟩ := holds
    rw [answer?] at answered
    by_cases guard : cached = receiver ∧ guards.all h.isValid
    · rw [if_pos guard] at answered
      obtain ⟨rfl, valid⟩ := guard
      cases answered
      refine (Heap.lookup_eq_undefined ?_).symm
      rw [chain]
      exact passed valid excludes
    · rw [if_neg guard] at answered
      cases answered

theorem good_of_answer? {good : Value → Prop} {e : Resolution} {receiver : ObjectId} {v : Value}
    (holds : h.Holds good) (undefined : good .undefined)
    (answered : e.answer? h receiver = some v) : good v := by
  cases e with
  | own layout slot =>
    rw [answer?] at answered
    split at answered
    · exact holds.atSlot? answered
    · cases answered
  | inherited cached guards holder slot =>
    rw [answer?] at answered
    split at answered
    · exact holds.atSlot? answered
    · cases answered
  | absent cached guards =>
    rw [answer?] at answered
    split at answered
    · cases answered
      exact undefined
    · cases answered

end Resolution

end

/-! ## Misses -/

/-- The first element that a `takeWhile` leaves does not satisfy the condition. -/
theorem not_of_drop_takeWhile {α : Type} {p : α → Bool} {x : α} {rest : List α} :
    ∀ {xs : List α}, xs.drop (xs.takeWhile p).length = x :: rest → p x = false := by
  intro xs
  induction xs with
  | nil => intro h; cases h
  | cons y ys ih =>
    intro h
    cases hy : p y with
    | true =>
      rw [List.takeWhile_cons_of_pos hy] at h
      exact ih h
    | false =>
      rw [List.takeWhile_cons_of_neg (by rw [hy]; exact Bool.false_ne_true)] at h
      cases h
      exact hy

namespace Heap

/-- The objects that a lookup passes before it finds the key. -/
def passed (h : Heap) (key : String) (o : ObjectId) : List ObjectId :=
  (h.chain o).takeWhile fun p => (h.slotOf? p key).isNone

variable {h : Heap} {key : String} {o : ObjectId}

theorem slotOf?_of_mem_passed {p : ObjectId} (mem : p ∈ h.passed key o) :
    h.slotOf? p key = none := by
  have all : (h.passed key o).all (fun p => (h.slotOf? p key).isNone) = true :=
    List.all_takeWhile
  exact Option.isNone_iff_eq_none.mp (List.all_eq_true.mp all p mem)

theorem passed_append_drop (h : Heap) (key : String) (o : ObjectId) :
    h.passed key o ++ (h.chain o).drop (h.passed key o).length = h.chain o :=
  List.prefix_iff_eq_append.mp (List.takeWhile_prefix _)

theorem exists_slotOf?_of_drop {holder : ObjectId} {rest : List ObjectId}
    (ahead : (h.chain o).drop (h.passed key o).length = holder :: rest) :
    ∃ slot, h.slotOf? holder key = some slot := by
  rw [passed] at ahead
  have found := not_of_drop_takeWhile ahead
  rwa [Option.isNone_eq_false_iff, Option.isSome_iff_exists] at found

/-- The tokens of the objects that are passed. -/
def guards (h : Heap) (key : String) (o : ObjectId) : List Token := (h.passed key o).map h.token

theorem owners_guards (h : Heap) (key : String) (o : ObjectId) :
    (h.guards key o).map (·.owner) = h.passed key o := by
  rw [guards, List.map_map]
  exact List.map_id _

theorem excludes_of_mem_guards {t : Token} (mem : t ∈ h.guards key o) : t.Excludes key h := by
  obtain ⟨p, hp, rfl⟩ := List.mem_map.mp mem
  exact excludes_token (slotOf?_of_mem_passed hp)

end Heap

namespace PropertyCache

variable {h h' : Heap} {c : PropertyCache} {key : String} {receiver : ObjectId}

theorem resolve_of_absent (ahead : (h.chain receiver).drop (h.passed key receiver).length = []) :
    resolve key h receiver = (.undefined, .absent receiver (h.guards key receiver)) := by
  rw [Heap.passed] at ahead
  simp only [resolve, ahead]
  rfl

theorem resolve_of_own {holder : ObjectId} {rest : List ObjectId} {slot : Nat}
    (ahead : (h.chain receiver).drop (h.passed key receiver).length = holder :: rest)
    (found : h.slotOf? holder key = some slot) (first : h.passed key receiver = []) :
    resolve key h receiver = ((h.atSlot? holder slot).getD .undefined,
      .own ((h.layout? receiver).getD LayoutTree.root) slot) := by
  rw [Heap.passed] at ahead first
  rw [first] at ahead
  simp only [resolve, first, ahead, found]
  rfl

theorem resolve_of_inherited {holder : ObjectId} {rest : List ObjectId} {slot : Nat}
    (ahead : (h.chain receiver).drop (h.passed key receiver).length = holder :: rest)
    (found : h.slotOf? holder key = some slot) (later : h.passed key receiver ≠ []) :
    resolve key h receiver = ((h.atSlot? holder slot).getD .undefined,
      .inherited receiver (h.guards key receiver) holder slot) := by
  rw [Heap.passed] at ahead
  cases passed : h.passed key receiver with
  | nil => exact absurd passed later
  | cons p ps =>
    rw [Heap.guards, passed]
    rw [Heap.passed] at passed
    rw [passed] at ahead
    simp only [resolve, passed, ahead, found]
    rfl

/-- A miss is resolved like a lookup, and the entry that it leaves holds. -/
theorem resolve_spec (sound : h.Sound) (present : h.contains receiver) :
    (resolve key h receiver).1 = h.lookup receiver key ∧
      (resolve key h receiver).2.Holds key h := by
  have chain := h.passed_append_drop key receiver
  have missing : ∀ p ∈ h.passed key receiver, h.slotOf? p key = none := fun p hp =>
    Heap.slotOf?_of_mem_passed hp
  have excludes : ∀ t ∈ h.guards key receiver, t.Excludes key h := fun t ht =>
    Heap.excludes_of_mem_guards ht
  cases ahead : (h.chain receiver).drop (h.passed key receiver).length with
  | nil =>
    rw [ahead, List.append_nil] at chain
    rw [resolve_of_absent ahead]
    refine ⟨(Heap.lookup_eq_undefined ?_).symm, present, ?_, excludes⟩
    · rw [← chain]
      exact missing
    · rw [Heap.owners_guards, chain]
  | cons holder rest =>
    obtain ⟨slot, found⟩ := Heap.exists_slotOf?_of_drop ahead
    rw [ahead] at chain
    have value : h.atSlot? holder slot = some (h.lookup receiver key) :=
      Heap.atSlot?_eq_lookup sound chain.symm missing found
    by_cases first : h.passed key receiver = []
    · rw [resolve_of_own ahead found first]
      refine ⟨by rw [value]; rfl, ?_⟩
      -- the chain begins with the receiver, so that it is the holder
      obtain ⟨rest', start⟩ := h.exists_chain_eq_cons receiver
      rw [first, List.nil_append, start] at chain
      obtain rfl : holder = receiver := (List.cons.inj chain).1
      obtain ⟨object, ho, hslot⟩ := Option.bind_eq_some_iff.mp found
      obtain ⟨keys, lists, -⟩ := sound.stores holder object ho
      have layout : h.layout? holder = some object.store.layout := by
        rw [Heap.layout?, ho]
        rfl
      refine ⟨keys, ?_, ?_⟩
      · rw [layout]
        exact lists
      · rw [← Heap.slotOf?_eq_of_layout? layout lists, found]
    · rw [resolve_of_inherited ahead found first]
      refine ⟨by rw [value]; rfl, present, ⟨rest, ?_⟩, excludes, found⟩
      rw [Heap.owners_guards, chain]

/-! ## Caches -/

/-- What the cache remembers, if anything, is true of the heap. -/
def Sound (h : Heap) (c : PropertyCache) : Prop := ∀ e, c.entry = some e → e.Holds c.key h

theorem sound_new (h : Heap) (key : String) : (new key).Sound h := fun _ found => nomatch found

theorem sound_reset (h : Heap) (c : PropertyCache) : c.reset.Sound h := fun _ found => nomatch found

theorem Sound.mono (ev : h.Evolves h') (sound : c.Sound h) : c.Sound h' := by
  intro e he
  exact (sound e he).mono ev

theorem key_lookup (c : PropertyCache) (h : Heap) (receiver : ObjectId) :
    (c.lookup h receiver).2.key = c.key := by
  rw [lookup]
  cases c.entry.bind (·.answer? h receiver) with
  | none => rfl
  | some v => rfl

/-- Using a cache keeps it sound: a hit keeps its entry, and a miss leaves one that holds. -/
theorem sound_lookup (cache : c.Sound h) (sound : h.Sound) (present : h.contains receiver) :
    (c.lookup h receiver).2.Sound h := by
  intro e he
  rw [key_lookup]
  rw [lookup] at he
  cases answered : c.entry.bind (·.answer? h receiver) with
  | some v =>
    rw [answered] at he
    exact cache e he
  | none =>
    rw [answered] at he
    cases he
    exact (resolve_spec sound present).2

theorem good_resolve {good : Value → Prop} (holds : h.Holds good) (undefined : good .undefined)
    (key : String) (receiver : ObjectId) : good (resolve key h receiver).1 := by
  have value (holder : ObjectId) (slot : Nat) :
      good ((h.atSlot? holder slot).getD .undefined) := by
    cases found : h.atSlot? holder slot with
    | none => exact undefined
    | some v => exact holds.atSlot? found
  rw [resolve]
  dsimp only
  split
  · exact undefined
  · split
    · exact value _ _
    · exact value _ _

/-- What a cache gives is what some object holds, or `undefined`. -/
theorem good_lookup {good : Value → Prop} (c : PropertyCache) (holds : h.Holds good)
    (undefined : good .undefined) (receiver : ObjectId) : good (c.lookup h receiver).1 := by
  rw [lookup]
  cases answered : c.entry.bind (·.answer? h receiver) with
  | some v =>
    obtain ⟨e, -, he⟩ := Option.bind_eq_some_iff.mp answered
    exact Resolution.good_of_answer? holds undefined he
  | none => exact good_resolve holds undefined c.key receiver

/-- A sound cache answers like a lookup, from memory or not. -/
theorem lookup_eq (cache : c.Sound h) (sound : h.Sound) (bounded : h.Bounded)
    (present : h.contains receiver) : (c.lookup h receiver).1 = h.lookup receiver c.key := by
  rw [lookup]
  cases answered : c.entry.bind (·.answer? h receiver) with
  | some v =>
    obtain ⟨e, entry, he⟩ := Option.bind_eq_some_iff.mp answered
    exact Resolution.answer?_eq_lookup sound bounded (cache e entry) he
  | none => exact (resolve_spec sound present).1

end PropertyCache

end ProtoVM
