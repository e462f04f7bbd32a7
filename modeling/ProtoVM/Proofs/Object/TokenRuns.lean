import ProtoVM.Proofs.Object.PropertyCaches

/-!
# Runs with tokens

Tokens are issued, copied and invalidated while keys of their owners are set, in any order. What
ends the life of the tokens of an object is a key that is set on it, or one of them that is
invalidated while it is valid; each of these is counted once, and nothing else is. The count only
grows. So as long as it has not come round, a token is valid exactly if none of these happened since
it was issued.
-/

namespace ProtoVM

/-! ## Counts of changes -/

namespace Heap

variable (h : Heap) (o p : ObjectId)

theorem size_invalidate (t : Token) : (h.invalidate t).size = h.size := by
  unfold invalidate
  split
  · exact size_advance h t.owner
  · rfl

theorem size_invalidateAll (ts : List Token) : (h.invalidateAll ts).size = h.size := by
  induction ts generalizing h with
  | nil => rfl
  | cons t ts ih => exact (ih (h.invalidate t)).trans (h.size_invalidate t)

variable {h o p} in
/-- An object that is counted up, if it is there. -/
theorem changes_of_get? {h' : Heap} {f : Object → Object} (get : h'.get? o = (h.get? o).map f)
    (counts : ∀ object, (f object).changes =
      if p = o then object.changes + 1 else object.changes) :
    h'.changes o = if p = o ∧ h.contains o then h.changes o + 1 else h.changes o := by
  unfold changes
  rw [get]
  cases found : h.get? o with
  | none =>
    have missing : ¬ h.contains o := by simp [contains_iff, found]
    simp [missing]
  | some object =>
    have present : h.contains o := contains_of_get? found
    simp [counts, present]

theorem changes_set (key : String) (value : Value) :
    (h.set p key value).changes o =
      if p = o ∧ h.contains o then h.changes o + 1 else h.changes o := by
  apply changes_of_get? (get?_set o)
  intro object
  by_cases same : p = o
  · simp [same]
  · simp [same, Ne.symm same]

theorem changes_advance :
    (h.advance p).changes o =
      if p = o ∧ h.contains o then h.changes o + 1 else h.changes o := by
  apply changes_of_get? (get?_advance o)
  intro object
  by_cases same : p = o
  · simp [same]
  · simp [same, Ne.symm same]

theorem changes_invalidate (t : Token) :
    (h.invalidate t).changes o =
      if (t.owner = o ∧ h.isValid t) ∧ h.contains o then h.changes o + 1 else h.changes o := by
  unfold invalidate
  by_cases valid : h.isValid t
  · simp [valid, changes_advance]
  · simp [valid]

/-- One of the tokens that are invalidated in turn belongs to the object and is valid when its turn
comes. -/
def Strikes (ts : List Token) : Prop :=
  ∃ earlier t later, ts = earlier ++ t :: later ∧ t.owner = o ∧ (h.invalidateAll earlier).isValid t

theorem not_strikes_nil : ¬ h.Strikes o [] := by
  rintro ⟨earlier, t, later, split, -⟩
  simp at split

theorem strikes_cons (t : Token) (ts : List Token) :
    h.Strikes o (t :: ts) ↔ (t.owner = o ∧ h.isValid t) ∨ (h.invalidate t).Strikes o ts := by
  constructor
  · rintro ⟨earlier, s, later, split, owner, valid⟩
    cases earlier with
    | nil =>
      obtain ⟨rfl, rfl⟩ := List.cons.inj split
      exact .inl ⟨owner, valid⟩
    | cons first earlier =>
      obtain ⟨rfl, rfl⟩ := List.cons.inj split
      exact .inr ⟨earlier, s, later, rfl, owner, valid⟩
  · intro cases
    rcases cases with ⟨owner, valid⟩ | ⟨earlier, s, later, rfl, owner, valid⟩
    · exact ⟨[], t, ts, rfl, owner, valid⟩
    · exact ⟨t :: earlier, s, later, rfl, owner, valid⟩

theorem changes_le_invalidateAll (ts : List Token) :
    h.changes o ≤ (h.invalidateAll ts).changes o := by
  induction ts generalizing h with
  | nil => exact Nat.le_refl _
  | cons t ts ih =>
    have first := h.changes_invalidate o t
    have rest := ih (h.invalidate t)
    change _ ≤ ((h.invalidate t).invalidateAll ts).changes o
    split at first <;> omega

/-- A group of tokens leaves the count of an object exactly if it strikes none of its tokens. -/
theorem changes_invalidateAll_eq_iff (present : h.contains o) (ts : List Token) :
    (h.invalidateAll ts).changes o = h.changes o ↔ ¬ h.Strikes o ts := by
  induction ts generalizing h with
  | nil => simp [not_strikes_nil, invalidateAll]
  | cons t ts ih =>
    have kept : (h.invalidate t).contains o := by simpa [contains, size_invalidate] using present
    have first := h.changes_invalidate o t
    have rest := (h.invalidate t).changes_le_invalidateAll o ts
    have later := ih (h.invalidate t) kept
    change ((h.invalidate t).invalidateAll ts).changes o = _ ↔ _
    rw [strikes_cons]
    by_cases struck : t.owner = o ∧ h.isValid t
    · rw [if_pos ⟨struck, present⟩] at first
      refine iff_of_false (by omega) ?_
      exact not_not_intro (.inl struck)
    · rw [if_neg fun both => struck both.1] at first
      rw [or_iff_right struck, ← first]
      exact later

/-- Only the owners of the tokens are counted. -/
theorem changes_invalidateAll_of_ne {ts : List Token} (others : ∀ t ∈ ts, t.owner ≠ o) :
    (h.invalidateAll ts).changes o = h.changes o := by
  induction ts generalizing h with
  | nil => rfl
  | cons t ts ih =>
    have first := h.changes_invalidate o t
    have rest := ih (h.invalidate t) fun s hs => others s (List.mem_cons_of_mem t hs)
    have other := others t List.mem_cons_self
    simp only [other, false_and, if_false] at first
    exact rest.trans first

/-- Tokens that are all stale are not invalidated once more. -/
theorem invalidateAll_of_stale {ts : List Token} (stale : ∀ t ∈ ts, ¬ h.isValid t) :
    h.invalidateAll ts = h := by
  induction ts with
  | nil => rfl
  | cons t ts ih =>
    have unchanged : h.invalidate t = h := if_neg (stale t List.mem_cons_self)
    change (h.invalidate t).invalidateAll ts = h
    rw [unchanged]
    exact ih fun s hs => stale s (List.mem_cons_of_mem t hs)

/-- A token of an earlier time is valid if the count is still the same, and otherwise not until the
count has come round. -/
theorem isValid_token_iff {h h' : Heap} {o : ObjectId} (le : h.changes o ≤ h'.changes o)
    (few : h'.changes o < h.changes o + UInt64.size) :
    h'.isValid (h.token o) ↔ h'.changes o = h.changes o := by
  have same : h'.isValid (h.token o) ↔
      h'.changes o % UInt64.size = h.changes o % UInt64.size := by
    unfold isValid token generation
    rw [beq_iff_eq, ← UInt64.toNat_inj, UInt64.toNat_ofNat', UInt64.toNat_ofNat']
  rw [same]
  unfold UInt64.size at few ⊢
  omega

end Heap

/-! ## Steps -/

/-- A step that hands out or uses tokens, or sets a key. Tokens are named by the order in which
they were handed out. -/
inductive TokenStep where
  | set (o : ObjectId) (key : String) (value : Value)
  | issue (o : ObjectId)
  | copy (i : Nat)
  | invalidate (i : Nat)
  | invalidateAll (is : List Nat)

/-- A heap with the tokens that were handed out. -/
structure TokenHoldings where
  heap : Heap
  held : List Token

namespace TokenHoldings

/-- The tokens of the given numbers. -/
def named (s : TokenHoldings) (is : List Nat) : List Token := is.filterMap (s.held[·]?)

/-- Takes a step. The number of a token that was not handed out does nothing. -/
def step (s : TokenHoldings) : TokenStep → TokenHoldings
  | .set o key value => { s with heap := s.heap.set o key value }
  | .issue o => { s with held := s.held ++ [s.heap.token o] }
  | .copy i => { s with held := s.held ++ s.named [i] }
  | .invalidate i => { s with heap := (s.held[i]?).elim s.heap s.heap.invalidate }
  | .invalidateAll is => { s with heap := s.heap.invalidateAll (s.named is) }

def run (s : TokenHoldings) (steps : List TokenStep) : TokenHoldings := steps.foldl step s

/-- The step ends the validity of the tokens of an object: it sets a key of the object, or it
invalidates one of them that is valid. -/
def Ends (s : TokenHoldings) (o : ObjectId) : TokenStep → Prop
  | .set p _ _ => p = o
  | .issue _ => False
  | .copy _ => False
  | .invalidate i => ∃ t, s.held[i]? = some t ∧ t.owner = o ∧ s.heap.isValid t
  | .invalidateAll is => s.heap.Strikes o (s.named is)

/-- The step is about the object and its tokens alone. -/
def Concerns (s : TokenHoldings) (o : ObjectId) : TokenStep → Prop
  | .set p _ _ => p = o
  | .issue p => p = o
  | .copy i => ∀ t, s.held[i]? = some t → t.owner = o
  | .invalidate i => ∀ t, s.held[i]? = some t → t.owner = o
  | .invalidateAll is => ∀ t ∈ s.named is, t.owner = o

variable (s : TokenHoldings) (o : ObjectId)

/-- One token is a group of one. -/
theorem step_invalidate (i : Nat) : s.step (.invalidate i) = s.step (.invalidateAll [i]) := by
  cases found : s.held[i]? <;> simp [step, named, found, Heap.invalidateAll]

theorem ends_invalidate (i : Nat) : s.Ends o (.invalidate i) ↔ s.Ends o (.invalidateAll [i]) := by
  cases found : s.held[i]? with
  | none => simp [Ends, named, found, Heap.not_strikes_nil]
  | some t => simp [Ends, named, found, Heap.strikes_cons, Heap.not_strikes_nil]

theorem size_step (a : TokenStep) : (s.step a).heap.size = s.heap.size := by
  cases a with
  | set p key value => exact s.heap.size_set p key value
  | issue p => rfl
  | copy i => rfl
  | invalidate i =>
    rw [step_invalidate]
    exact s.heap.size_invalidateAll (s.named [i])
  | invalidateAll is => exact s.heap.size_invalidateAll (s.named is)

theorem contains_step (a : TokenStep) : (s.step a).heap.contains o = s.heap.contains o := by
  simp [Heap.contains, size_step]

theorem changes_le_step (a : TokenStep) : s.heap.changes o ≤ (s.step a).heap.changes o := by
  cases a with
  | set p key value =>
    have count := s.heap.changes_set o p key value
    simp only [step]
    split at count <;> omega
  | issue p => exact Nat.le_refl _
  | copy i => exact Nat.le_refl _
  | invalidate i =>
    rw [step_invalidate]
    exact s.heap.changes_le_invalidateAll o (s.named [i])
  | invalidateAll is => exact s.heap.changes_le_invalidateAll o (s.named is)

/-- Exactly the steps that end the validity of the tokens of an object are counted. -/
theorem changes_step_eq_iff (present : s.heap.contains o) (a : TokenStep) :
    (s.step a).heap.changes o = s.heap.changes o ↔ ¬ s.Ends o a := by
  cases a with
  | set p key value =>
    have count := s.heap.changes_set o p key value
    by_cases same : p = o
    · rw [if_pos ⟨same, present⟩] at count
      refine iff_of_false ?_ (not_not_intro same)
      simp only [step]
      omega
    · rw [if_neg fun both => same both.1] at count
      exact iff_of_true count same
  | issue p => simp [step, Ends]
  | copy i => simp [step, Ends]
  | invalidate i =>
    rw [step_invalidate, ends_invalidate]
    exact s.heap.changes_invalidateAll_eq_iff o present (s.named [i])
  | invalidateAll is => exact s.heap.changes_invalidateAll_eq_iff o present (s.named is)

/-- A step about another object is not counted. -/
theorem changes_step_of_concerns {a : TokenStep} {p : ObjectId} (concerns : s.Concerns p a)
    (other : p ≠ o) : (s.step a).heap.changes o = s.heap.changes o := by
  have group {is : List Nat} (owned : ∀ t ∈ s.named is, t.owner = p) :
      (s.heap.invalidateAll (s.named is)).changes o = s.heap.changes o := by
    apply Heap.changes_invalidateAll_of_ne
    intro t ht
    rw [owned t ht]
    exact other
  cases a with
  | set q key value =>
    obtain rfl : q = p := concerns
    simp [step, Heap.changes_set, other]
  | issue q => rfl
  | copy i => rfl
  | invalidate i =>
    rw [step_invalidate]
    apply group
    intro t ht
    obtain ⟨j, mem, found⟩ := List.mem_filterMap.mp ht
    obtain rfl := List.mem_singleton.mp mem
    exact concerns t found
  | invalidateAll is => exact group concerns

/-- A step hands out at most a token that it issues. -/
theorem mem_held_step {a : TokenStep} {t : Token} (held : t ∈ (s.step a).held) :
    t ∈ s.held ∨ ∃ o, a = .issue o ∧ t = s.heap.token o := by
  cases a with
  | issue p =>
    rcases List.mem_append.mp held with old | new
    · exact .inl old
    · exact .inr ⟨p, rfl, List.mem_singleton.mp new⟩
  | copy i =>
    rcases List.mem_append.mp held with old | new
    · exact .inl old
    · obtain ⟨j, -, found⟩ := List.mem_filterMap.mp new
      exact .inl (List.mem_of_getElem? found)
  | _ => exact .inl held

/-! ## Runs -/

theorem run_append (earlier later : List TokenStep) :
    s.run (earlier ++ later) = (s.run earlier).run later := List.foldl_append

theorem contains_run (steps : List TokenStep) :
    (s.run steps).heap.contains o = s.heap.contains o := by
  induction steps generalizing s with
  | nil => rfl
  | cons a steps ih => exact (ih (s.step a)).trans (s.contains_step o a)

theorem changes_le_run (steps : List TokenStep) :
    s.heap.changes o ≤ (s.run steps).heap.changes o := by
  induction steps generalizing s with
  | nil => exact Nat.le_refl _
  | cons a steps ih => exact Nat.le_trans (s.changes_le_step o a) (ih (s.step a))

/-- No step of the run ends the validity of the tokens of the object. -/
def Spared (steps : List TokenStep) : Prop :=
  ∀ between a later, steps = between ++ a :: later → ¬ (s.run between).Ends o a

theorem spared_cons (a : TokenStep) (steps : List TokenStep) :
    s.Spared o (a :: steps) ↔ ¬ s.Ends o a ∧ (s.step a).Spared o steps := by
  constructor
  · intro spared
    refine ⟨spared [] a steps rfl, ?_⟩
    intro between b later split
    exact spared (a :: between) b later (congrArg (a :: ·) split)
  · rintro ⟨first, rest⟩ between b later split
    cases between with
    | nil =>
      obtain ⟨rfl, -⟩ := List.cons.inj split
      exact first
    | cons c between =>
      obtain ⟨rfl, tail⟩ := List.cons.inj split
      exact rest between b later tail

/-- A run leaves the count of an object exactly if it spares its tokens. -/
theorem changes_run_eq_iff (present : s.heap.contains o) (steps : List TokenStep) :
    (s.run steps).heap.changes o = s.heap.changes o ↔ s.Spared o steps := by
  induction steps generalizing s with
  | nil => simp [run, Spared]
  | cons a steps ih =>
    have kept : (s.step a).heap.contains o := by rw [contains_step, present]
    have first := s.changes_step_eq_iff o present a
    have rest := ih (s.step a) kept
    -- the count never falls, so that it is the same at the end only if it is never raised
    have le_first := s.changes_le_step o a
    have le_rest := (s.step a).changes_le_run o steps
    change ((s.step a).run steps).heap.changes o = _ ↔ _
    rw [spared_cons, ← first, ← rest]
    omega

/-- Every token that is handed out in a run is issued by one of its steps; copies are no others. -/
theorem mem_held_run {steps : List TokenStep} {t : Token} (held : t ∈ (s.run steps).held) :
    t ∈ s.held ∨ ∃ before o after, steps = before ++ .issue o :: after ∧
      t = (s.run before).heap.token o := by
  induction steps generalizing s with
  | nil => exact .inl held
  | cons a steps ih =>
    rcases ih (s.step a) held with old | ⟨before, o, after, rfl, issued⟩
    · rcases s.mem_held_step old with older | ⟨o, rfl, issued⟩
      · exact .inl older
      · exact .inr ⟨[], o, steps, rfl, issued⟩
    · exact .inr ⟨a :: before, o, after, rfl, issued⟩

section

variable {s : TokenHoldings} {o : ObjectId}

/-- A token that is issued now is valid after a run exactly if the run spares it. -/
theorem isValid_run_iff (present : s.heap.contains o) {steps : List TokenStep}
    (few : (s.run steps).heap.changes o < s.heap.changes o + UInt64.size) :
    (s.run steps).heap.isValid (s.heap.token o) ↔ s.Spared o steps := by
  rw [Heap.isValid_token_iff (s.changes_le_run o steps) few]
  exact s.changes_run_eq_iff o present steps

/-- A token that is issued now and is stale after some steps stays so. -/
theorem isValid_of_isValid_run {earlier later : List TokenStep}
    (few : (s.run (earlier ++ later)).heap.changes o < s.heap.changes o + UInt64.size)
    (valid : (s.run (earlier ++ later)).heap.isValid (s.heap.token o)) :
    (s.run earlier).heap.isValid (s.heap.token o) := by
  have first := s.changes_le_run o earlier
  have rest := (s.run earlier).changes_le_run o later
  rw [← run_append] at rest
  rw [Heap.isValid_token_iff (by omega) few] at valid
  rw [Heap.isValid_token_iff first (by omega)]
  omega

theorem step_of_stale {is : List Nat} (stale : ∀ t ∈ s.named is, ¬ s.heap.isValid t) :
    s.step (.invalidateAll is) = s := by
  simp only [step, Heap.invalidateAll_of_stale _ stale]

end

/-- A heap of which no tokens were handed out. -/
def start (h : Heap) : TokenHoldings := ⟨h, []⟩

/-- What holds of the tokens of a run. -/
structure Follows (h : Heap) (steps : List TokenStep) : Prop where
  /-- Every token that is held was issued by some step. -/
  issued : ∀ t ∈ ((start h).run steps).held, ∃ before o after,
    steps = before ++ .issue o :: after ∧ t = ((start h).run before).heap.token o
  /-- It is valid exactly if the tokens of its owner were spared since. -/
  valid_iff : ∀ before o after, steps = before ++ .issue o :: after → h.contains o →
    (((start h).run steps).heap.isValid (((start h).run before).heap.token o) ↔
      ((start h).run (before ++ [.issue o])).Spared o after)
  /-- A token that was stale at some time is stale. -/
  stale : ∀ earlier later, steps = earlier ++ later → ∀ t ∈ ((start h).run earlier).held,
    ¬ ((start h).run earlier).heap.isValid t → ¬ ((start h).run steps).heap.isValid t
  /-- Invalidating stale tokens changes nothing. -/
  unchanged : ∀ is,
    (∀ t ∈ ((start h).run steps).named is, ¬ ((start h).run steps).heap.isValid t) →
      ((start h).run steps).step (.invalidateAll is) = (start h).run steps ∧
      ∀ i ∈ is, ((start h).run steps).step (.invalidate i) = (start h).run steps
  /-- A token is valid when it is issued. -/
  fresh : ∀ o, ((start h).run steps).heap.isValid (((start h).run steps).heap.token o)
  /-- A step about one object leaves the tokens of the others as they are. -/
  apart : ∀ o a, ((start h).run steps).Concerns o a → ∀ t : Token, t.owner ≠ o →
    (((start h).run steps).step a).heap.isValid t = ((start h).run steps).heap.isValid t

/-- Tokens follow the changes of their owners through every run in which no count comes round. -/
theorem follows_run (h : Heap) (steps : List TokenStep)
    (few : ∀ o, ((start h).run steps).heap.changes o < h.changes o + UInt64.size) :
    Follows h steps := by
  -- no count comes round between two points of the run either
  have few_between (before : List TokenStep) (o : ObjectId) (after : List TokenStep)
      (split : steps = before ++ after) :
      (((start h).run before).run after).heap.changes o <
        ((start h).run before).heap.changes o + UInt64.size := by
    have bound := few o
    have grown : h.changes o ≤ ((start h).run before).heap.changes o :=
      (start h).changes_le_run o before
    rw [split, run_append] at bound
    omega
  constructor
  case issued =>
    intro t held
    rcases (start h).mem_held_run held with old | issued
    · cases old
    · exact issued
  case valid_iff =>
    rintro before o after rfl present
    have split : before ++ .issue o :: after = (before ++ [.issue o]) ++ after := by simp
    have kept : ((start h).run (before ++ [.issue o])).heap.contains o := by
      rw [contains_run]
      exact present
    have same : ((start h).run (before ++ [.issue o])).heap = ((start h).run before).heap := by
      rw [run_append]
      rfl
    rw [split, run_append, ← same]
    exact isValid_run_iff kept (few_between _ o after split)
  case stale =>
    rintro earlier later rfl t held stale valid
    rcases (start h).mem_held_run held with old | ⟨before, o, after, rfl, rfl⟩
    · cases old
    · apply stale
      rw [run_append]
      rw [List.append_assoc, run_append] at valid
      exact isValid_of_isValid_run (few_between before o _ (List.append_assoc ..)) valid
  case unchanged =>
    intro is stale
    refine ⟨step_of_stale stale, ?_⟩
    intro i mem
    rw [step_invalidate]
    apply step_of_stale
    intro t ht
    obtain ⟨j, single, found⟩ := List.mem_filterMap.mp ht
    obtain rfl := List.mem_singleton.mp single
    exact stale t (List.mem_filterMap.mpr ⟨j, mem, found⟩)
  case fresh => exact fun o => by simp [Heap.isValid, Heap.token]
  case apart =>
    intro o a concerns t other
    unfold Heap.isValid Heap.generation
    rw [changes_step_of_concerns _ t.owner concerns (Ne.symm other)]

def twoObjects : Heap := ((Heap.empty.newObject none).2.newObject none).2

/-- The first token of an object is copied and grows stale when a key is set. Invalidating the copy
spares the next token of the object. The other object is asked for a second token as well. -/
def copiedTokens : List TokenStep :=
  [.issue 0, .issue 1, .copy 0, .set 0 "x" .undefined, .issue 0, .invalidateAll [0, 2],
    .invalidate 1, .issue 1]

theorem follows_run_copied :
    (∀ o, ((start twoObjects).run copiedTokens).heap.changes o <
        twoObjects.changes o + UInt64.size) ∧
      Follows twoObjects copiedTokens ∧
      ((start twoObjects).run copiedTokens).held.map
        ((start twoObjects).run copiedTokens).heap.isValid = [false, false, false, true, true] := by
  have few (o : ObjectId) : ((start twoObjects).run copiedTokens).heap.changes o <
      twoObjects.changes o + UInt64.size := by
    have bounded : ((start twoObjects).run copiedTokens).heap.Bounded :=
      Heap.bounded_of_all (by decide)
    have bound := bounded o
    omega
  exact ⟨few, follows_run twoObjects copiedTokens few, by decide⟩

end TokenHoldings

end ProtoVM
