import Mathlib
import ProtoVM.Proofs.Machine.Alterations
import ProtoVM.Proofs.Machine.CachedLookups
import ProtoVM.Proofs.Object.CacheHits
import ProtoVM.Proofs.Session.CachePlaces

/-!
# Histories of property caches

Whether a lookup through a cache is a hit is told by the history of the session: by the latest miss
since the cache was reset (`Machine.LatestMiss`), the heap at that moment, and the steps after it
that altered objects.
-/

namespace ProtoVM

variable {allowed : Action → Prop} {w : World} {place : CachePlace}

/-! ## Uses -/

/-- The object of which the instruction at the current offset reads a property. -/
def Activation.reads? (a : Activation) (h : Heap) : Option ObjectId :=
  if a.opcode? = some .getProperty then (a.readTarget h).toOption.map (·.2.1) else none

/-- What an instruction does with the cache at a place. -/
def Activation.use? (a : Activation) (h : Heap) (place : CachePlace) : Option CacheUse :=
  if place = .site a.unit.index a.ip then (a.reads? h).map .lookup else none

namespace Machine

/-- What the next step does with the cache at a place. -/
def use? (m : Machine) (place : CachePlace) : Option CacheUse :=
  match m.control with
  | .code a => a.use? m.world.heap place
  | .native (.perform action _) =>
    if action.mentions.all m.world.heap.contains then action.use? m.world.heap place else none
  | _ => none

end Machine

theorem Action.mem_mentions_of_use? {action : Action} {h : Heap} {r : ObjectId}
    (looks : action.use? h place = some (.lookup r)) : r ∈ action.mentions := by
  cases action with
  | cachedLookup c o =>
    simp only [use?, Option.ite_none_right_eq_some] at looks
    obtain ⟨-, ⟨⟩⟩ := looks
    exact List.mem_singleton_self r
  | unitCachedLookup o offset s =>
    simp only [use?, Option.ite_none_right_eq_some] at looks
    obtain ⟨-, ⟨⟩⟩ := looks
    exact List.mem_cons_of_mem _ (List.mem_singleton_self r)
  | resetCache | resetUnitCache =>
    simp only [use?, Option.ite_none_right_eq_some] at looks
    obtain ⟨-, ⟨⟩⟩ := looks
  | _ => cases looks

/-- The caches of a sound session say what is true. -/
theorem World.Sound.cacheAt? (sound : w.Sound allowed) {cache : PropertyCache}
    (found : w.cacheAt? place = some cache) : cache.Sound w.heap := by
  cases place with
  | host c => exact sound.caches cache (Array.mem_of_getElem? found)
  | site index offset =>
    obtain ⟨bank, hbank, hcache⟩ := Option.bind_eq_some_iff.mp found
    obtain ⟨before, after, rfl, -⟩ := List.lookup_eq_some_iff.mp hcache
    have mem : (offset, cache) ∈ before ++ (offset, cache) :: after := by simp
    exact sound.banks _ (Array.mem_of_getElem? hbank) _ mem

/-! ### Instructions -/

namespace Activation

/-- An instruction reads a property of an object that exists. -/
theorem contains_of_reads? {a : Activation} (sound : w.Sound allowed) (live : a.Live w)
    {o : ObjectId} (reads : a.reads? w.heap = some o) : w.heap.contains o := by
  rw [reads?, Option.ite_none_right_eq_some] at reads
  obtain ⟨-, reads⟩ := reads
  have supplied : Supplied (w.heap.closed ·) a .cached w .getProperty :=
    supplied_of_leads sound live (.refl sound) nofun
  have taken := yields_readTarget (decodes_trivial a .getProperty) supplied rfl
  cases found : a.readTarget w.heap with
  | error i => simp [found, Except.toOption] at reads
  | ok r =>
    obtain rfl : r.2.1 = o := by simpa [found, Except.toOption] using reads
    rw [found] at taken
    exact taken.1

theorem turns_readProperty (a : Activation) (w : World) (o : ObjectId) (key : String)
    (place : CachePlace) :
    w.Turns (a.readProperty .cached w o key).2 place
      (if place = .site a.unit.index a.ip then some (.lookup o) else none) := by
  cases found : w.unitCache? a.unit a.ip with
  | some cache =>
    simp only [readProperty, found]
    exact World.turns_setUnitCache found (some (.lookup o)) place
  | none =>
    have missing : w.cacheAt? (.site a.unit.index a.ip) = none := found
    simp only [readProperty, found]
    by_cases here : place = .site a.unit.index a.ip
    · subst here
      exact .inl (by simp [missing])
    · rw [if_neg here]
      exact .of_cacheAt?_eq rfl

/-- An instruction looks up through its own cache if it reads a property, and uses no other. -/
theorem turns_step (a : Activation) (w : World) (place : CachePlace) :
    w.Turns (a.step .cached w).2 place (a.use? w.heap place) := by
  cases here : a.opcode? with
  | none =>
    have unused : a.use? w.heap place = none := by simp [use?, reads?, here]
    rw [snd_step_of_none here, unused]
    exact .of_cacheAt?_eq rfl
  | some op =>
    have unused (other : op ≠ .getProperty) : a.use? w.heap place = none := by
      simp [use?, reads?, here, other]
    rw [step_eq_execute here]
    cases op with
    | getProperty =>
      rw [execute, use?, reads?, if_pos here]
      cases found : a.readTarget w.heap with
      | error i => simpa [Except.toOption] using World.Turns.of_cacheAt?_eq rfl
      | ok r => exact turns_readProperty a w r.2.1 r.1 place
    | setName =>
      rw [execute, unused (by simp)]
      cases a.binding <;> exact .of_eq rfl rfl place
    | setGlobal =>
      rw [execute, unused (by simp)]
      cases a.binding <;> exact .of_eq rfl rfl place
    | setProperty =>
      rw [execute, unused (by simp)]
      cases a.writeTarget w.heap <;> exact .of_eq rfl rfl place
    | newObject =>
      rw [execute, unused (by simp)]
      cases a.protoTarget w.heap <;> exact .of_eq rfl rfl place
    | _ =>
      rw [unused (by simp)]
      exact .of_eq rfl rfl place

end Activation

/-! ### Steps -/

namespace Machine

variable {m : Machine}

theorem turns_step_code (a : Activation) (waiting : List Waiting) (w : World)
    (place : CachePlace) :
    w.Turns (step .cached ⟨.code a, waiting, w⟩).world place (a.use? w.heap place) := by
  have turns := a.turns_step w place
  have same : (step .cached ⟨.code a, waiting, w⟩).world.cacheAt? place =
      (a.step .cached w).2.cacheAt? place := by
    rw [step]
    obtain ⟨effect, w'⟩ := a.step .cached w
    cases effect <;> exact World.cacheAt?_of_eq rfl rfl place
  unfold World.Turns
  rw [same]
  exact turns

/-- A step uses the cache at a place as it says, and no step uses a cache in any other way. -/
theorem turns_step (m : Machine) (place : CachePlace) :
    m.world.Turns (m.step .cached).world place (m.use? place) := by
  obtain ⟨control, waiting, w⟩ := m
  cases control with
  | invoke callee receiver args =>
    have started := started_invoke w callee receiver args
    rw [step]
    generalize invoke w callee receiver args = result at started
    cases started with
    | refused i => exact .of_cacheAt?_eq rfl
    | native entry handle => exact .of_cacheAt?_eq rfl
    | code unit loader handle found closed =>
      apply World.Turns.of_cacheAt?_eq
      exact World.cacheAt?_enter w unit.loader loader place
  | code a => exact turns_step_code a waiting w place
  | native p =>
    cases p with
    | done result => exact .of_cacheAt?_eq rfl
    | call callee receiver args next => exact .of_cacheAt?_eq rfl
    | perform action next =>
      rw [step, use?]
      dsimp only
      rw [snd_resume, World.perform]
      split
      · exact World.turns_act w action place
      · exact .of_cacheAt?_eq rfl
    | newFunction name spec next =>
      rw [step]
      dsimp only
      rw [snd_resume]
      exact World.turns_newFunction w name spec place
    | defineNative l id name spec next =>
      rw [step]
      dsimp only
      rw [snd_resume]
      exact World.turns_define w l id name spec place
  | deliver result =>
    cases waiting with
    | nil => exact .of_cacheAt?_eq rfl
    | cons first waiting =>
      cases first with
      | code a =>
        rw [step]
        split <;> exact .of_eq rfl rfl place
      | native next =>
        cases result with
        | ok v => exact .of_cacheAt?_eq rfl
        | error i => cases i <;> exact .of_cacheAt?_eq rfl

/-- A cache is used for objects that exist. -/
theorem contains_of_use? (sound : m.Sound allowed) {r : ObjectId}
    (looks : m.use? place = some (.lookup r)) : m.world.heap.contains r := by
  obtain ⟨control, waiting, w⟩ := m
  obtain ⟨world, live, -⟩ := sound
  cases control with
  | code a =>
    simp only [use?, Activation.use?, Option.ite_none_right_eq_some] at looks
    obtain ⟨-, looks⟩ := looks
    obtain ⟨o, reads, same⟩ := Option.map_eq_some_iff.mp looks
    obtain rfl : o = r := CacheUse.lookup.inj same
    exact Activation.contains_of_reads? world live reads
  | native p =>
    cases p with
    | perform action next =>
      simp only [use?, Option.ite_none_right_eq_some] at looks
      obtain ⟨mentioned, looks⟩ := looks
      exact List.all_eq_true.mp mentioned r (Action.mem_mentions_of_use? looks)
    | _ => cases looks
  | _ => cases looks

/-! ## Histories -/

/-- The next step looks up through the cache at a place, and that is a miss. -/
def Misses (m : Machine) (place : CachePlace) (r : ObjectId) : Prop :=
  m.use? place = some (.lookup r) ∧
    ∃ cache, m.world.cacheAt? place = some cache ∧ cache.Misses m.world.heap r

/-- The object on which the next step looks up through the cache at a place. -/
def looksUp (m : Machine) (place : CachePlace) : List ObjectId :=
  match m.world.cacheAt? place, m.use? place with
  | some _, some (.lookup r) => [r]
  | _, _ => []

/-- The objects on which a run looks up through the cache at a place, first to last. -/
def lookups (m : Machine) (place : CachePlace) : Nat → List ObjectId
  | 0 => []
  | n + 1 => m.lookups place n ++ (m.steps .cached n).looksUp place

/-- The latest miss of a run, since which the cache was not reset. -/
structure LatestMiss (m : Machine) (place : CachePlace) (n i : Nat) (r : ObjectId) : Prop where
  before : i < n
  misses : (m.steps .cached i).Misses place r
  since : ∀ j, i < j → j < n →
    (m.steps .cached j).use? place ≠ some .reset ∧ ∀ s, ¬ (m.steps .cached j).Misses place s

section

variable {n i j : Nat} {r s : ObjectId}

theorem LatestMiss.unique (h : m.LatestMiss place n i r) (h' : m.LatestMiss place n j s) :
    i = j ∧ r = s := by
  rcases Nat.lt_trichotomy i j with earlier | rfl | later
  · exact absurd h'.misses ((h.since j earlier h'.before).2 s)
  · have same := h.misses.1.symm.trans h'.misses.1
    simp only [Option.some.injEq, CacheUse.lookup.injEq] at same
    exact ⟨rfl, same⟩
  · exact absurd h.misses ((h'.since i later h.before).2 r)

theorem latestMiss_of_misses (misses : (m.steps .cached n).Misses place r) :
    m.LatestMiss place (n + 1) n r where
  before := Nat.lt_succ_self n
  misses := misses
  since := by omega

theorem not_latestMiss_of_reset (reset : (m.steps .cached n).use? place = some .reset) :
    ¬ m.LatestMiss place (n + 1) i r := by
  intro latest
  rcases Nat.lt_succ_iff_lt_or_eq.mp latest.before with earlier | rfl
  · exact (latest.since n earlier (Nat.lt_succ_self n)).1 reset
  · have looks := latest.misses.1
    simp [reset] at looks

/-- A step that is no miss and no reset leaves the latest miss. -/
theorem latestMiss_succ_iff (kept : (m.steps .cached n).use? place ≠ some .reset)
    (hit : ∀ s, ¬ (m.steps .cached n).Misses place s) :
    m.LatestMiss place (n + 1) i r ↔ m.LatestMiss place n i r := by
  constructor
  · intro latest
    rcases Nat.lt_succ_iff_lt_or_eq.mp latest.before with earlier | rfl
    · exact ⟨earlier, latest.misses, fun j after inside => latest.since j after (by omega)⟩
    · exact absurd latest.misses (hit r)
  · intro latest
    refine ⟨by have := latest.before; omega, latest.misses, fun j after inside => ?_⟩
    rcases Nat.lt_succ_iff_lt_or_eq.mp inside with earlier | rfl
    · exact latest.since j after earlier
    · exact ⟨kept, hit⟩

end

/-- What a cache has counted and remembers at a moment of a run. -/
structure Recalls (m : Machine) (place : CachePlace) (n : Nat) (cache : PropertyCache) : Prop where
  counts : cache.hits + cache.misses = (m.lookups place n).length
  blank : cache.entry = none → ∀ i r, ¬ m.LatestMiss place n i r
  entry : ∀ e, cache.entry = some e → ∃ i r, m.LatestMiss place n i r ∧
    e = (PropertyCache.resolve cache.key (m.steps .cached i).world.heap r).2

/-- Where no cache is at a moment of a run, none was used. -/
structure Unused (m : Machine) (place : CachePlace) (n : Nat) : Prop where
  lookups : m.lookups place n = []
  misses : ∀ i < n, ∀ r, ¬ (m.steps .cached i).Misses place r

theorem unused_succ {n : Nat} (unused : m.Unused place n)
    (missing : (m.steps .cached n).world.cacheAt? place = none) : m.Unused place (n + 1) where
  lookups := by simp [lookups, unused.lookups, looksUp, missing]
  misses := by
    rw [Nat.forall_lt_succ_right]
    refine ⟨unused.misses, ?_⟩
    rintro r ⟨-, cache, found, -⟩
    simp [missing] at found

theorem recalls_new {n : Nat} (unused : m.Unused place n) (key : String) :
    m.Recalls place n (.new key) where
  counts := by simp [unused.lookups, PropertyCache.new]
  blank := fun _ i r latest => unused.misses i latest.before r latest.misses
  entry := by simp [PropertyCache.new]

/-- A step that is no miss and no reset leaves what the cache remembers. -/
theorem recalls_of_same {n : Nat} {cache : PropertyCache} (recalls : m.Recalls place n cache)
    (kept : (m.steps .cached n).use? place ≠ some .reset)
    (hit : ∀ s, ¬ (m.steps .cached n).Misses place s) {hits misses : Nat}
    (counts : hits + misses = (m.lookups place (n + 1)).length) :
    m.Recalls place (n + 1) { cache with hits, misses } where
  counts := counts
  blank := by
    intro blank i r
    rw [latestMiss_succ_iff kept hit]
    exact recalls.blank blank i r
  entry := by
    intro e entry
    obtain ⟨i, r, latest, rest⟩ := recalls.entry e entry
    exact ⟨i, r, (latestMiss_succ_iff kept hit).mpr latest, rest⟩

/-- Using a cache is counted, and a miss is remembered. -/
theorem recalls_succ {n : Nat} {cache : PropertyCache} (recalls : m.Recalls place n cache)
    (found : (m.steps .cached n).world.cacheAt? place = some cache) :
    m.Recalls place (n + 1)
      (cache.after (m.steps .cached n).world.heap ((m.steps .cached n).use? place)) := by
  have counts := recalls.counts
  have missed (s : ObjectId) : (m.steps .cached n).Misses place s ↔
      (m.steps .cached n).use? place = some (.lookup s) ∧
        cache.Misses (m.steps .cached n).world.heap s := by
    simp [Misses, found]
  cases use : (m.steps .cached n).use? place with
  | none =>
    apply recalls_of_same recalls (by simp [use]) (by simp [missed, use])
    simpa [lookups, looksUp, found, use] using counts
  | some used =>
    cases used with
    | reset =>
      rw [PropertyCache.after, PropertyCache.reset]
      refine ⟨?_, fun _ i r => not_latestMiss_of_reset use, by simp⟩
      simpa [lookups, looksUp, found, use] using counts
    | lookup r =>
      have counted : cache.hits + cache.misses + 1 = (m.lookups place (n + 1)).length := by
        simpa [lookups, looksUp, found, use] using counts
      rw [PropertyCache.after]
      rcases cache.lookup_cases (m.steps .cached n).world.heap r with
        ⟨-, hit, -, after⟩ | ⟨-, miss, -, after⟩
      · rw [after]
        apply recalls_of_same recalls (by simp [use]) (by simpa [missed, use] using hit)
        omega
      · have latest : m.LatestMiss place (n + 1) n r :=
          latestMiss_of_misses ((missed r).mpr ⟨use, miss⟩)
        rw [after]
        refine ⟨by dsimp only; omega, by simp, ?_⟩
        rintro e ⟨⟩
        exact ⟨n, r, latest, rfl⟩

/-- Whatever a run does, a cache has counted the lookups that were made through it, and it remembers
the latest miss. -/
theorem recalls_steps (missing : m.world.cacheAt? place = none) (n : Nat) :
    ((m.steps .cached n).world.cacheAt? place = none → m.Unused place n) ∧
      ∀ cache, (m.steps .cached n).world.cacheAt? place = some cache →
        m.Recalls place n cache := by
  induction n with
  | zero =>
    refine ⟨fun _ => ⟨rfl, by simp⟩, fun cache found => ?_⟩
    simp [steps, missing] at found
  | succ n ih =>
    have turns := (m.steps .cached n).turns_step place
    rw [steps_succ_eq]
    cases before : (m.steps .cached n).world.cacheAt? place with
    | none =>
      have unused := unused_succ (ih.1 before) before
      refine ⟨fun _ => unused, fun cache found => ?_⟩
      rcases turns with same | ⟨-, key, made⟩
      · simp [same, before] at found
      · obtain rfl : .new key = cache := Option.some.inj (made.symm.trans found)
        exact recalls_new unused key
    | some old =>
      have after : ((m.steps .cached n).step .cached).world.cacheAt? place =
          some (old.after (m.steps .cached n).world.heap ((m.steps .cached n).use? place)) := by
        rcases turns with same | ⟨none, -⟩
        · rw [same, before]
          rfl
        · simp [before] at none
      refine ⟨fun none => by simp [after] at none, fun cache found => ?_⟩
      obtain rfl := Option.some.inj (after.symm.trans found)
      exact recalls_succ (ih.2 old before) before

/-- What was found on an object at a moment of a run still tells what is found on an object later:
if the first has the key itself, the other one has its layout; if it has not, they are the same,
and none of the objects that were passed was altered since. -/
def Lasts (m : Machine) (key : String) (n i : Nat) (r₀ r : ObjectId) : Prop :=
  if key ∈ (m.steps .cached i).world.heap.keys r₀ then
    (m.steps .cached n).world.heap.layout? r = (m.steps .cached i).world.heap.layout? r₀
  else
    r = r₀ ∧ ∀ o ∈ (m.steps .cached i).world.heap.passed key r₀, ∀ j, i < j → j < n →
      ¬ (m.steps .cached j).Alters o

/-- Using a cache alters no object. -/
theorem not_alters_of_use? {use : CacheUse} (uses : m.use? place = some use) (o : ObjectId) :
    ¬ m.Alters o := by
  obtain ⟨control, waiting, w⟩ := m
  cases control with
  | code a =>
    simp only [use?, Activation.use?, Activation.reads?] at uses
    by_cases here : a.opcode? = some .getProperty
    · simp [Alters, Activation.sets?, Activation.target?, here]
    · simp [here] at uses
  | native p =>
    cases p with
    | perform action next =>
      cases action with
      | cachedLookup c r => simp [Alters, Action.Alters]
      | resetCache c => simp [Alters, Action.Alters]
      | unitCachedLookup o offset r => simp [Alters, Action.Alters]
      | resetUnitCache o offset => simp [Alters, Action.Alters]
      | _ => simp [use?, Action.use?] at uses
    | _ => simp [Alters]
  | _ => simp [Alters]

/-- The count of an object is the one at the time of a miss exactly if no later step altered it. -/
theorem changes_since_iff (sound : m.Sound allowed) {n i : Nat} {r o : ObjectId} (before : i < n)
    (misses : (m.steps .cached i).Misses place r)
    (present : (m.steps .cached i).world.heap.contains o) :
    (m.steps .cached n).world.heap.changes o = (m.steps .cached i).world.heap.changes o ↔
      ∀ j, i < j → j < n → ¬ (m.steps .cached j).Alters o := by
  obtain ⟨k, rfl⟩ := Nat.exists_eq_add_of_lt before
  have run := changes_steps_eq_iff (leads_steps sound .cached i).sound present .cached (k + 1)
  rw [← steps_add, ← Nat.add_assoc] at run
  rw [run]
  constructor
  · intro spared j after inside
    obtain ⟨d, rfl⟩ := Nat.exists_eq_add_of_lt after
    rw [Nat.add_assoc, steps_add]
    exact spared (d + 1) (by omega)
  · intro spared j inside
    cases j with
    | zero => exact not_alters_of_use? misses.1 o
    | succ j =>
      rw [← steps_add]
      exact spared (i + (j + 1)) (by omega) (by omega)

/-- The entry that the latest miss has left answers exactly as long as what was found lasts. -/
theorem guarded_iff_lasts (sound : m.Sound allowed) {key : String} {n i : Nat} {r₀ r : ObjectId}
    (latest : m.LatestMiss place n i r₀) (bounded : (m.steps .cached n).world.heap.Bounded) :
    (PropertyCache.resolve key (m.steps .cached i).world.heap r₀).2.Guarded
        (m.steps .cached n).world.heap r ↔ m.Lasts key n i r₀ r := by
  have early := (leads_steps sound .cached i).sound
  have present := contains_of_use? early latest.misses.1
  have evolves : (m.steps .cached i).world.heap.Evolves (m.steps .cached n).world.heap := by
    obtain ⟨k, rfl⟩ := Nat.exists_eq_add_of_le (Nat.le_of_lt latest.before)
    rw [steps_add]
    exact (leads_steps early .cached k).world.heap
  rw [PropertyCache.guarded_resolve_iff present evolves bounded]
  unfold PropertyCache.Remains Lasts
  split
  · exact Iff.rfl
  · refine and_congr_right fun _ => forall₂_congr fun o mem => ?_
    have onChain := Heap.contains_of_mem_chain present ((List.takeWhile_prefix _).subset mem)
    exact changes_since_iff sound latest.before latest.misses onChain

end Machine

/-- Native code can do anything in any order. At any moment of its run, a lookup through a cache is
a hit exactly if the latest miss, made since the cache was reset, still tells what will be found.
Looking up on the same object once more is always a hit, and all lookups are counted. -/
theorem hits_iff_lasts (p : Native) (n : Nat) (w : World)
    (reached : ((Machine.running .empty p).steps .cached n).world = w) (bounded : w.heap.Bounded)
    (place : CachePlace) (cache : PropertyCache) (found : w.cacheAt? place = some cache) :
    (∀ r, w.heap.contains r → (cache.Hits w.heap r ↔
      ∃ i r₀, (Machine.running .empty p).LatestMiss place n i r₀ ∧
        (Machine.running .empty p).Lasts cache.key n i r₀ r)) ∧
    (∀ r, w.heap.contains r → (cache.lookup w.heap r).2.Hits w.heap r) ∧
    cache.hits + cache.misses = ((Machine.running .empty p).lookups place n).length := by
  subst reached
  have start : (Machine.running .empty p).Sound fun _ => True :=
    Machine.sound_running_empty p .cached 0
  have recalls := (Machine.recalls_steps (by cases place <;> rfl) n).2 cache found
  have sound := (Machine.sound_running_empty p .cached n).world
  have holds := sound.cacheAt? found
  refine ⟨fun r present => ?_, fun r present => ?_, recalls.counts⟩
  · rw [PropertyCache.hits_iff sound.heap holds]
    constructor
    · rintro ⟨e, entry, guarded⟩
      obtain ⟨i, r₀, latest, rfl⟩ := recalls.entry e entry
      exact ⟨i, r₀, latest, (Machine.guarded_iff_lasts start latest bounded).mp guarded⟩
    · rintro ⟨i, r₀, latest, lasts⟩
      cases entry : cache.entry with
      | none => exact absurd latest (recalls.blank entry i r₀)
      | some e =>
        obtain ⟨j, r₁, latest', rfl⟩ := recalls.entry e entry
        obtain ⟨rfl, rfl⟩ := latest.unique latest'
        exact ⟨_, rfl, (Machine.guarded_iff_lasts start latest bounded).mpr lasts⟩
  · exact PropertyCache.hits_lookup sound.heap bounded holds present

/-- A key is looked up on an object that inherits it, and set again on the object that has it, which
the lookup has not passed. -/
def holderSet : Native :=
  .perform (.newObject none) fun base =>
  .perform (.newObject (some base)) fun o =>
  .perform (.newCache "x") fun c =>
  .perform (.set base "x" (.int 1)) fun _ =>
  .perform (.cachedLookup c o) fun _ =>
  .perform (.set base "x" (.int 2)) fun _ =>
  .done (.ok (.object o))

theorem hits_iff_lasts_holderSet :
    (∃ cache, ((Machine.running .empty holderSet).steps .cached 6).world.cacheAt? (.host 0) =
        some cache ∧ cache.hits + cache.misses = 1) ∧
      ∃ i r₀, (Machine.running .empty holderSet).LatestMiss (.host 0) 6 i r₀ ∧
        (Machine.running .empty holderSet).Lasts "x" 6 i r₀ 1 := by
  have hit : (((Machine.running .empty holderSet).steps .cached 6).world.cacheAt? (.host 0)).map
      (fun cache => (cache.key, decide (cache.Hits
        ((Machine.running .empty holderSet).steps .cached 6).world.heap 1))) =
      some ("x", true) := by cbv
  obtain ⟨cache, found, both⟩ := Option.map_eq_some_iff.mp hit
  obtain ⟨key, hits⟩ := Prod.mk.inj both
  have bounded : ((Machine.running .empty holderSet).steps .cached 6).world.heap.Bounded :=
    Heap.bounded_of_all (by cbv)
  have present : ((Machine.running .empty holderSet).steps .cached 6).world.heap.contains 1 := by
    cbv
  have follows := hits_iff_lasts holderSet 6 _ rfl bounded (.host 0) cache found
  have counts : ((Machine.running .empty holderSet).lookups (.host 0) 6).length = 1 := by cbv
  rw [key, counts] at follows
  exact ⟨⟨cache, found, follows.2.2⟩, (follows.1 1 present).mp (of_decide_eq_true hits)⟩

end ProtoVM
