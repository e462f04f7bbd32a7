import ProtoVM.Session.Perform

/-!
# The places of property caches

A session keeps one cache for each that host code made and one for each instruction of a loaded unit
that reads a property. An operation looks up through the cache at a place, resets it, or leaves it
as it is; a cache that is added has not been used (`World.Turns`).
-/

namespace ProtoVM

/-- Where a property cache is kept. -/
inductive CachePlace where
  /-- It was made by host code. -/
  | host (c : CacheId)
  /-- It belongs to an instruction of a loaded unit. -/
  | site (index offset : Nat)
deriving DecidableEq

/-- What can be done with a property cache. -/
inductive CacheUse where
  | lookup (receiver : ObjectId)
  | reset

/-- The cache after it was used, or not. -/
def PropertyCache.after (c : PropertyCache) (h : Heap) : Option CacheUse → PropertyCache
  | none => c
  | some (.lookup r) => (c.lookup h r).2
  | some .reset => c.reset

/-- The place of the cache at an offset of the unit of a function. -/
def Heap.siteOf? (h : Heap) (o : ObjectId) (offset : Nat) : Option CachePlace :=
  (h.handle o).unit?.map (.site ·.index offset)

/-- What an action does with the cache at a place. -/
def Action.use? (h : Heap) (place : CachePlace) : Action → Option CacheUse
  | .cachedLookup c r => if place = .host c then some (.lookup r) else none
  | .resetCache c => if place = .host c then some .reset else none
  | .unitCachedLookup o offset r =>
    if h.siteOf? o offset = some place then some (.lookup r) else none
  | .resetUnitCache o offset => if h.siteOf? o offset = some place then some .reset else none
  | _ => none

namespace World

variable {w w' : World} {place : CachePlace} {use : Option CacheUse}

/-- The cache that is kept at a place. -/
def cacheAt? (w : World) : CachePlace → Option PropertyCache
  | .host c => w.caches[c]?
  | .site index offset => (w.banks[index]?).bind (·.lookup offset)

@[simp] theorem cacheAt?_host (w : World) (c : CacheId) : w.cacheAt? (.host c) = w.caches[c]? := rfl

@[simp] theorem cacheAt?_site (w : World) (index offset : Nat) :
    w.cacheAt? (.site index offset) = (w.banks[index]?).bind (·.lookup offset) := rfl

/-- The cache at a place is what a use makes of the one that was there. If there was none, it is
new. -/
def Turns (w w' : World) (place : CachePlace) (use : Option CacheUse) : Prop :=
  w'.cacheAt? place = (w.cacheAt? place).map (·.after w.heap use) ∨
    (w.cacheAt? place = none ∧ ∃ key, w'.cacheAt? place = some (.new key))

theorem cacheAt?_of_eq (caches : w'.caches = w.caches) (banks : w'.banks = w.banks)
    (place : CachePlace) : w'.cacheAt? place = w.cacheAt? place := by
  cases place <;> simp [caches, banks]

theorem Turns.of_cacheAt?_eq (same : w'.cacheAt? place = w.cacheAt? place) :
    w.Turns w' place none := by
  left
  rw [same]
  exact Option.map_id'.symm

theorem Turns.of_eq (caches : w'.caches = w.caches) (banks : w'.banks = w.banks)
    (place : CachePlace) : w.Turns w' place none :=
  .of_cacheAt?_eq (cacheAt?_of_eq caches banks place)

/-! ## New caches -/

theorem lookup_bank {sites : List PropertySite} {offset : Nat} {cache : PropertyCache}
    (found : (sites.map fun site => (site.offset, PropertyCache.new site.key)).lookup offset =
      some cache) : ∃ key, cache = .new key := by
  induction sites with
  | nil => simp at found
  | cons site sites ih =>
    rw [List.map_cons, List.lookup_cons] at found
    split at found
    · exact ⟨site.key, (Option.some.inj found).symm⟩
    · exact ih found

theorem turns_addBank (w : World) (unit : CodeUnit) (place : CachePlace) :
    w.Turns (w.addBank unit) place none := by
  cases place with
  | host c => exact .of_cacheAt?_eq rfl
  | site index offset =>
    by_cases last : index = w.banks.size
    · subst last
      cases found : (w.addBank unit).cacheAt? (.site w.banks.size offset) with
      | none =>
        left
        simp [found]
      | some cache =>
        right
        simp [addBank] at found
        obtain ⟨key, rfl⟩ := lookup_bank found
        exact ⟨by simp, key, by simpa [addBank] using found⟩
    · apply Turns.of_cacheAt?_eq
      simp [addBank, Array.getElem?_push, last]

theorem turns_load (w : World) (l : LoaderId) (loader : Loader) (id : String)
    (payload : List UInt8) (place : CachePlace) :
    w.Turns (w.load l loader id payload).2 place none := by
  rw [load]
  cases w.accept loader id payload with
  | error e => exact .of_cacheAt?_eq rfl
  | ok unit =>
    have same : (w.install l loader id unit).2.cacheAt? place = (w.addBank unit).cacheAt? place :=
      cacheAt?_of_eq rfl rfl place
    unfold Turns
    rw [same]
    exact turns_addBank w unit place

theorem turns_newCache (w : World) (key : String) (place : CachePlace) :
    w.Turns { w with caches := w.caches.push (.new key) } place none := by
  cases place with
  | host c =>
    by_cases last : c = w.caches.size
    · subst last
      exact .inr ⟨by simp, key, by simp⟩
    · apply Turns.of_cacheAt?_eq
      simp [Array.getElem?_push, last]
  | site index offset => exact .of_cacheAt?_eq rfl

/-! ## Uses -/

/-- One of the caches of host code is used. -/
theorem turns_withCaches {caches : Array PropertyCache} (c : CacheId) (use : Option CacheUse)
    (used : ∀ d : CacheId, caches[d]? =
      if c = d then (w.caches[d]?).map (·.after w.heap use) else w.caches[d]?)
    (place : CachePlace) :
    w.Turns { w with caches } place (if place = .host c then use else none) := by
  cases place with
  | site index offset => exact .of_cacheAt?_eq rfl
  | host d =>
    by_cases here : c = d
    · subst here
      left
      rw [if_pos rfl]
      simpa using used c
    · have other : CachePlace.host d ≠ .host c := by simp [Ne.symm here]
      rw [if_neg other]
      apply Turns.of_cacheAt?_eq
      simpa [here] using used d

theorem lookup_replaced (bank : CacheBank) (offset place : Nat) (cache : PropertyCache) :
    (bank.map fun (place, old) =>
        if place = offset then (place, cache) else (place, old)).lookup place =
      if place = offset then (bank.lookup place).map fun _ => cache else bank.lookup place := by
  induction bank with
  | nil => simp
  | cons site bank ih =>
    obtain ⟨first, old⟩ := site
    have key : (if first = offset then (first, cache) else (first, old)) =
        (first, if first = offset then cache else old) := by
      split <;> rfl
    simp only [List.map_cons, key, List.lookup_cons, ih]
    cases here : place == first with
    | true =>
      obtain rfl : place = first := eq_of_beq here
      by_cases same : place = offset <;> simp [same]
    | false => rfl

/-- One of the caches of a unit is used. -/
theorem turns_setUnitCache {unit : BoundUnit} {offset : Nat} {cache : PropertyCache}
    (found : w.unitCache? unit offset = some cache) (use : Option CacheUse) (place : CachePlace) :
    w.Turns (w.setUnitCache unit offset (cache.after w.heap use)) place
      (if place = .site unit.index offset then use else none) := by
  cases place with
  | host c => exact .of_cacheAt?_eq rfl
  | site index place =>
    have banks : (w.setUnitCache unit offset (cache.after w.heap use)).banks[index]? =
        if unit.index = index then _ else _ := Array.getElem?_modify
    by_cases here : unit.index = index
    · subst here
      obtain ⟨bank, hbank, hcache⟩ := Option.bind_eq_some_iff.mp found
      rw [if_pos rfl, hbank] at banks
      by_cases same : place = offset
      · subst same
        left
        simp [banks, hbank, lookup_replaced, hcache]
      · rw [if_neg (by simp [same])]
        apply Turns.of_cacheAt?_eq
        simp [banks, hbank, lookup_replaced, same]
    · rw [if_neg (by simp [Ne.symm here])]
      apply Turns.of_cacheAt?_eq
      simp [banks, here]

/-- The cache that a unit has at an offset is used, if there is one. -/
theorem turns_useUnitCache {α : Type} {use : PropertyCache → α × PropertyCache} (made : CacheUse)
    (after : ∀ cache, (use cache).2 = cache.after w.heap (some made)) (o : ObjectId) (offset : Nat)
    (place : CachePlace) :
    w.Turns (w.useUnitCache o offset use).2 place
      (if w.heap.siteOf? o offset = some place then some made else none) := by
  rcases w.useUnitCache_cases o offset use with ⟨missing, same⟩ | ⟨unit, cache, bound, found, used⟩
  · rw [same]
    by_cases here : w.heap.siteOf? o offset = some place
    · obtain ⟨unit, bound, rfl⟩ := Option.map_eq_some_iff.mp here
      have none : w.cacheAt? (.site unit.index offset) = none := missing unit bound
      exact .inl (by simp [none])
    · rw [if_neg here]
      exact .of_cacheAt?_eq rfl
  · have turns := turns_setUnitCache found (some made) place
    rw [used, after]
    simpa [Heap.siteOf?, bound, eq_comm] using turns

/-! ## Actions -/

theorem turns_act (w : World) (a : Action) (place : CachePlace) :
    w.Turns (w.act a).2 place (a.use? w.heap place) := by
  cases a with
  | map o f =>
    rw [act]
    split <;> exact .of_cacheAt?_eq rfl
  | newCache key => exact turns_newCache w key place
  | cachedLookup c r =>
    have use : (Action.cachedLookup c r).use? w.heap place =
      if place = .host c then some (.lookup r) else none := rfl
    rw [act, use]
    cases found : w.caches[c]? with
    | none =>
      refine turns_withCaches c (some (.lookup r)) (fun d => ?_) place
      by_cases here : c = d
      · subst here
        simp [found]
      · simp [here]
    | some cache =>
      refine turns_withCaches c (some (.lookup r)) (fun d => ?_) place
      rw [Array.getElem?_setIfInBounds]
      by_cases here : c = d
      · subst here
        have inside := (Array.getElem?_eq_some_iff.mp found).1
        rw [if_pos rfl, if_pos inside, if_pos rfl, found]
        rfl
      · simp [here]
  | resetCache c =>
    refine turns_withCaches c (some .reset) (fun d => ?_) place
    exact Array.getElem?_modify
  | declare d id name parameters function =>
    rw [act]
    cases w.dictionaries[d]? <;> exact .of_cacheAt?_eq rfl
  | newLoader config d global =>
    rw [act]
    split <;> exact .of_cacheAt?_eq rfl
  | load l id payload =>
    rw [act]
    cases w.loaders[l]? with
    | none => exact .of_cacheAt?_eq rfl
    | some loader => exact turns_load w l loader id payload place
  | unitCachedLookup o offset r =>
    exact turns_useUnitCache (.lookup r) (fun _ => rfl) o offset place
  | resetUnitCache o offset =>
    rw [act]
    exact turns_useUnitCache .reset (fun _ => rfl) o offset place
  | _ => exact .of_cacheAt?_eq rfl

theorem turns_newFunction (w : World) (name : String) (spec : HandleSpec NativeEntry)
    (place : CachePlace) : w.Turns (w.newFunction name spec).2 place none := by
  rw [newFunction]
  cases w.handleOf spec <;> exact .of_eq rfl rfl place

theorem turns_define (w : World) (l : LoaderId) (id name : String)
    (spec : HandleSpec NativeEntry) (place : CachePlace) :
    w.Turns (w.define l id name spec).2 place none := by
  rw [define]
  cases w.loaders[l]? with
  | none => exact .of_eq rfl rfl place
  | some loader =>
    cases w.handleOf spec with
    | none => exact .of_eq rfl rfl place
    | some handle =>
      dsimp only
      rw [defineNative]
      cases w.acceptNative loader id handle <;> exact .of_eq rfl rfl place

theorem cacheAt?_enter (w : World) (l : LoaderId) (loader : Loader) (place : CachePlace) :
    (w.enter l loader).2.cacheAt? place = w.cacheAt? place := by
  rw [enter]
  split <;> exact cacheAt?_of_eq rfl rfl place

end World

end ProtoVM
