import ProtoVM.Proofs.Call.Requests
import ProtoVM.Session.Perform

/-!
# Sessions with raised limits

Two sessions that differ in nothing but the limits of their loaders, which are at least as high in
the second. Only the settings of a loader tell them apart: every other request is answered alike,
and afterwards the sessions still differ in their limits alone.
-/

namespace ProtoVM

/-- The limits of the second settings are at least as high, and the rest is the same. -/
structure Config.Within (c c' : Config) : Prop where
  checksum : c'.verifyChecksum = c.verifyChecksum
  depth : c.maxCallDepth ≤ c'.maxCallDepth
  stack : c.maxStack ≤ c'.maxStack

theorem Config.Within.refl (c : Config) : c.Within c := ⟨rfl, UInt64.le_refl _, UInt64.le_refl _⟩

/-- The same loader with limits at least as high. -/
def Loader.Raised (loader loader' : Loader) : Prop :=
  ∃ config, loader.config.Within config ∧ loader' = { loader with config }

/-- The action reads the settings of a loader. -/
def Action.ReadsSettings : Action → Prop
  | .loaderInfo _ => True
  | _ => False

namespace World

/-- The same loaders with limits at least as high. -/
structure RaisedLoaders (loaders loaders' : Array Loader) : Prop where
  size : loaders'.size = loaders.size
  each : ∀ l : LoaderId, Option.Rel Loader.Raised loaders[l]? loaders'[l]?

/-- The same session with limits at least as high. -/
def Raised (w w' : World) : Prop :=
  ∃ loaders, RaisedLoaders w.loaders loaders ∧ w' = { w with loaders }

/-- The same answer from sessions that differ in their limits alone. -/
structure Echoes {α : Type} (r r' : α × World) : Prop where
  answer : r'.1 = r.1
  world : r.2.Raised r'.2

variable {w w' : World}

theorem Raised.echoes {α : Type} (raised : w.Raised w') (answer : α) :
    Echoes (answer, w) (answer, w') := ⟨rfl, raised⟩

/-! ## Changing one part -/

theorem RaisedLoaders.modify {loaders loaders' : Array Loader}
    (raised : RaisedLoaders loaders loaders') (l : LoaderId) {f : Loader → Loader}
    (commutes : ∀ loader config, f { loader with config } = { f loader with config }) :
    RaisedLoaders (loaders.modify l f) (loaders'.modify l f) where
  size := by
    rw [Array.size_modify, Array.size_modify]
    exact raised.size
  each := by
    intro other
    have found := raised.each other
    rw [Array.getElem?_modify, Array.getElem?_modify]
    by_cases same : l = other
    · rw [if_pos same, if_pos same]
      generalize loaders[other]? = x at found
      generalize loaders'[other]? = x' at found
      cases found with
      | none => exact .none
      | @some loader _ more =>
        obtain ⟨config, within, rfl⟩ := more
        -- the settings are not changed, since they can be set before as well as after
        have kept := congrArg Loader.config (commutes loader loader.config)
        refine .some ⟨config, ?_, commutes loader config⟩
        rw [show (f loader).config = loader.config from kept]
        exact within
    · rw [if_neg same, if_neg same]
      exact found

theorem RaisedLoaders.push {loaders loaders' : Array Loader}
    (raised : RaisedLoaders loaders loaders') {loader loader' : Loader}
    (more : loader.Raised loader') :
    RaisedLoaders (loaders.push loader) (loaders'.push loader') where
  size := by
    rw [Array.size_push, Array.size_push, raised.size]
  each := by
    intro l
    rw [Array.getElem?_push, Array.getElem?_push, raised.size]
    split
    · exact .some more
    · exact raised.each l

section

variable (raised : w.Raised w')
include raised

theorem Raised.heap_eq : w'.heap = w.heap := by
  obtain ⟨loaders, -, rfl⟩ := raised
  rfl

/-- The loader of an id is there in both sessions or in none. -/
theorem Raised.loader (l : LoaderId) : Option.Rel Loader.Raised w.loaders[l]? w'.loaders[l]? := by
  obtain ⟨loaders, each, rfl⟩ := raised
  exact each.each l

theorem Raised.mapHeap (f : Heap → Heap) : (w.mapHeap f).Raised (w'.mapHeap f) := by
  obtain ⟨loaders, each, rfl⟩ := raised
  exact ⟨loaders, each, rfl⟩

theorem Raised.allocWith (f : Heap → ObjectId × Heap) :
    Echoes (w.allocWith f) (w'.allocWith f) := by
  obtain ⟨loaders, each, rfl⟩ := raised
  exact ⟨rfl, loaders, each, rfl⟩

theorem Raised.mapLoader (l : LoaderId) {f : Loader → Loader}
    (commutes : ∀ loader config, f { loader with config } = { f loader with config }) :
    (w.mapLoader l f).Raised (w'.mapLoader l f) := by
  obtain ⟨loaders, each, rfl⟩ := raised
  exact ⟨loaders.modify l f, each.modify l commutes, rfl⟩

theorem Raised.leave (l : LoaderId) : (w.leave l).Raised (w'.leave l) :=
  raised.mapLoader l fun _ _ => rfl

theorem Raised.bind (l : LoaderId) (loader : Loader) (config : Config) (id name : String)
    (parameters : List String) (function : ObjectId) :
    (w.bind l loader id name parameters function).Raised
      (w'.bind l { loader with config } id name parameters function) := by
  obtain ⟨loaders, each, rfl⟩ := raised
  have entered : (w.setDictionary loader.dictionary
      ((w.dictionary loader.dictionary).bind id name parameters function)).Raised
        (World.setDictionary { w with loaders } loader.dictionary
          ((w.dictionary loader.dictionary).bind id name parameters function)) :=
    ⟨loaders, each, rfl⟩
  exact entered.mapLoader l fun _ _ => rfl

theorem Raised.load (l : LoaderId) {loader : Loader} {config : Config}
    (within : loader.config.Within config) (id : String) (payload : List UInt8) :
    Echoes (w.load l loader id payload) (w'.load l { loader with config } id payload) := by
  have accept : w'.accept { loader with config } id payload = w.accept loader id payload := by
    obtain ⟨loaders, -, rfl⟩ := raised
    unfold World.accept
    rw [within.checksum]
    rfl
  rw [World.load, World.load, accept]
  cases w.accept loader id payload with
  | error e => exact raised.echoes _
  | ok unit =>
    obtain ⟨loaders, each, rfl⟩ := raised
    have added : (w.addBank unit).Raised (World.addBank { w with loaders } unit) :=
      ⟨loaders, each, rfl⟩
    have made := added.allocWith
      (·.newFunction unit.name (.interpreted ⟨w.banks.size, id, unit, l⟩))
    exact ⟨rfl, made.world.bind l loader config id unit.name unit.parameters _⟩

theorem Raised.defineNative (l : LoaderId) (loader : Loader) (config : Config) (id name : String)
    (handle : Handle) :
    Echoes (w.defineNative l loader id name handle)
      (w'.defineNative l { loader with config } id name handle) := by
  have accept : w'.acceptNative { loader with config } id handle =
      w.acceptNative loader id handle := by
    obtain ⟨loaders, -, rfl⟩ := raised
    rfl
  rw [World.defineNative, World.defineNative, accept]
  cases w.acceptNative loader id handle with
  | error e => exact raised.echoes _
  | ok _ =>
    have made := raised.allocWith (·.newFunction name handle)
    refine ⟨congrArg Except.ok made.answer, ?_⟩
    dsimp only
    rw [made.answer]
    exact made.world.bind l loader config id name (nativeParameters handle) _

/-- What has been entered within a limit is entered within a higher one. -/
theorem Raised.enter (l : LoaderId) {loader : Loader} {config : Config}
    (within : loader.config.Within config)
    (room : loader.depth < loader.config.maxCallDepth.toNat) :
    Echoes (w.enter l loader) (w'.enter l { loader with config }) := by
  have more : loader.config.maxCallDepth.toNat ≤ config.maxCallDepth.toNat :=
    UInt64.le_iff_toNat_le.mp within.depth
  have room' : ¬ config.maxCallDepth.toNat ≤ loader.depth :=
    Nat.not_le_of_lt (Nat.lt_of_lt_of_le room more)
  unfold World.enter
  dsimp only
  rw [if_neg (Nat.not_le_of_lt room), if_neg room']
  exact ⟨rfl, raised.mapLoader l fun _ _ => rfl⟩

/-! ## Requests -/

theorem Raised.newFunction (name : String) (spec : HandleSpec NativeEntry) :
    Echoes (w.newFunction name spec) (w'.newFunction name spec) := by
  have handleOf : w'.handleOf spec = w.handleOf spec := by
    obtain ⟨loaders, -, rfl⟩ := raised
    cases spec <;> rfl
  unfold World.newFunction
  rw [handleOf]
  cases w.handleOf spec with
  | none => exact raised.echoes _
  | some handle =>
    have made := raised.allocWith (·.newFunction name handle)
    exact ⟨congrArg some made.answer, made.world⟩

theorem Raised.define (l : LoaderId) (id name : String) (spec : HandleSpec NativeEntry) :
    Echoes (w.define l id name spec) (w'.define l id name spec) := by
  have handleOf : w'.handleOf spec = w.handleOf spec := by
    obtain ⟨loaders, -, rfl⟩ := raised
    cases spec <;> rfl
  have found := raised.loader l
  unfold World.define
  rw [handleOf]
  generalize w.loaders[l]? = x at found
  generalize w'.loaders[l]? = x' at found
  cases found with
  | none => exact raised.echoes _
  | @some loader _ more =>
    obtain ⟨config, within, rfl⟩ := more
    cases w.handleOf spec with
    | none => exact raised.echoes _
    | some handle =>
      have defined := raised.defineNative l loader config id name handle
      exact ⟨congrArg some defined.answer, defined.world⟩

omit raised in
theorem useUnitCache_withLoaders {α : Type} (w : World) (loaders : Array Loader) (o : ObjectId)
    (offset : Nat) (use : PropertyCache → α × PropertyCache) :
    World.useUnitCache { w with loaders } o offset use =
      ((w.useUnitCache o offset use).1, { (w.useUnitCache o offset use).2 with loaders }) := by
  unfold World.useUnitCache
  cases (w.heap.handle o).unit? with
  | none => rfl
  | some unit =>
    have same : World.unitCache? { w with loaders } unit offset = w.unitCache? unit offset := rfl
    dsimp only
    rw [same]
    cases w.unitCache? unit offset <;> rfl

theorem Raised.useUnitCache {α : Type} (o : ObjectId) (offset : Nat)
    (use : PropertyCache → α × PropertyCache) :
    Echoes (w.useUnitCache o offset use) (w'.useUnitCache o offset use) := by
  obtain ⟨loaders, each, rfl⟩ := raised
  rw [useUnitCache_withLoaders w loaders]
  exact ⟨rfl, loaders, by rwa [World.loaders_useUnitCache], rfl⟩

/-- Only a request for settings tells the sessions apart. -/
theorem Raised.act (a : Action) (ignores : ¬ a.ReadsSettings) :
    Echoes (w.act a) (w'.act a) := by
  have found := raised.loader
  have load := raised.load
  have uses {α : Type} := raised.useUnitCache (α := α)
  obtain ⟨loaders, each, rfl⟩ := raised
  cases a with
  | map o f =>
    rw [World.act, World.act]
    split <;> exact ⟨rfl, loaders, each, rfl⟩
  | cachedLookup c o =>
    rw [World.act, World.act]
    cases w.caches[c]? <;> exact ⟨rfl, loaders, each, rfl⟩
  | declare d id name parameters function =>
    rw [World.act, World.act]
    cases w.dictionaries[d]? <;> exact ⟨rfl, loaders, each, rfl⟩
  | newLoader config d global =>
    rw [World.act, World.act]
    by_cases known : d < w.dictionaries.size
    · rw [if_pos known, if_pos known]
      exact ⟨congrArg some each.size, loaders.push ⟨config, d, global, 0, []⟩,
        each.push ⟨config, .refl config, rfl⟩, rfl⟩
    · rw [if_neg known, if_neg known]
      exact ⟨rfl, loaders, each, rfl⟩
  | loaderInfo l => exact absurd trivial ignores
  | load l id payload =>
    have here := found l
    rw [World.act, World.act]
    generalize w.loaders[l]? = x at here
    generalize World.loaders { w with loaders } = all at here ⊢
    generalize all[l]? = x' at here
    cases here with
    | none => exact ⟨rfl, loaders, each, rfl⟩
    | some more =>
      obtain ⟨config, within, rfl⟩ := more
      have loaded := load l within id payload
      exact ⟨congrArg some loaded.answer, loaded.world⟩
  | isLoaded l id =>
    have here := found l
    refine ⟨?_, loaders, each, rfl⟩
    rw [World.act, World.act]
    dsimp only at here ⊢
    generalize w.loaders[l]? = x at here
    generalize loaders[l]? = x' at here
    cases here with
    | none => rfl
    | some more =>
      obtain ⟨config, within, rfl⟩ := more
      rfl
  | unitCachedLookup o offset receiver =>
    have used := uses o offset (·.lookup w.heap receiver)
    exact ⟨congrArg some used.answer, used.world⟩
  | resetUnitCache o offset =>
    have used := uses o offset fun cache => ((), cache.reset)
    exact ⟨congrArg some used.answer, used.world⟩
  | _ => exact ⟨rfl, loaders, each, rfl⟩

theorem Raised.perform (a : Action) (ignores : ¬ a.ReadsSettings) :
    Echoes (w.perform a) (w'.perform a) := by
  unfold World.perform
  rw [raised.heap_eq]
  by_cases present : a.mentions.all w.heap.contains
  · rw [if_pos present, if_pos present]
    exact raised.act a ignores
  · rw [if_neg present, if_neg present]
    exact raised.echoes _

/-- A loader is refused by both sessions, or made by both; it may be made with higher limits. -/
theorem Raised.newLoader {config config' : Config} (within : config.Within config')
    (d : DictionaryId) (global : ObjectId) :
    (w.perform (.newLoader config d global) = (none, w) ∧
        w'.perform (.newLoader config' d global) = (none, w')) ∨
      ∃ (l : LoaderId) (after after' : World), after.Raised after' ∧
        w.perform (.newLoader config d global) = (some l, after) ∧
        w'.perform (.newLoader config' d global) = (some l, after') := by
  obtain ⟨loaders, each, rfl⟩ := raised
  by_cases present : [global].all w.heap.contains
  · by_cases known : d < w.dictionaries.size
    · refine .inr ⟨w.loaders.size, _, _, ?_, (if_pos present).trans (if_pos known),
        (if_pos present).trans ((if_pos known).trans (congrArg (some · , _) each.size))⟩
      exact ⟨loaders.push ⟨config', d, global, 0, []⟩, each.push ⟨config', within, rfl⟩, rfl⟩
    · exact .inl ⟨(if_pos present).trans (if_neg known), (if_pos present).trans (if_neg known)⟩
  · exact .inl ⟨if_neg present, if_neg present⟩

/-- A request for settings is refused by both sessions, or answered with the settings of each. -/
theorem Raised.loaderInfo (l : LoaderId) :
    (w.perform (.loaderInfo l) = (none, w) ∧ w'.perform (.loaderInfo l) = (none, w')) ∨
      ∃ (info : LoaderInfo) (config : Config), info.config.Within config ∧
        w.perform (.loaderInfo l) = (some info, w) ∧
        w'.perform (.loaderInfo l) = (some { info with config }, w') := by
  obtain ⟨loaders, each, rfl⟩ := raised
  have found := each.each l
  have first : w.perform (.loaderInfo l) = ((w.loaders[l]?).map fun loader =>
      ⟨loader.config, loader.dictionary, loader.global⟩, w) := rfl
  have second : World.perform { w with loaders } (.loaderInfo l) = ((loaders[l]?).map fun loader =>
      ⟨loader.config, loader.dictionary, loader.global⟩, { w with loaders }) := rfl
  rw [first, second]
  generalize w.loaders[l]? = x at found
  generalize loaders[l]? = x' at found
  cases found with
  | none => exact .inl ⟨rfl, rfl⟩
  | @some loader _ more =>
    obtain ⟨config, within, rfl⟩ := more
    exact .inr ⟨⟨loader.config, loader.dictionary, loader.global⟩, config, within, rfl, rfl⟩

end

end World

end ProtoVM
