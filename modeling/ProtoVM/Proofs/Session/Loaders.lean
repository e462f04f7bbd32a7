import ProtoVM.Session.Perform

/-!
# Loaders

What operations leave of the loaders of a session. A loader is never given up: it keeps its
settings, its dictionary and its global object for good, and the count of its calls while no call
is entered or left.
-/

namespace ProtoVM.World

/-- An old loader keeps everything but the identifiers that it has bound; a new one has no calls
under way. -/
structure KeepsLoaders (w w' : World) : Prop where
  old : ∀ (l : LoaderId) (loader : Loader), w.loaders[l]? = some loader →
    ∃ loaded, w'.loaders[l]? = some { loader with loaded }
  new : ∀ (l : LoaderId) (loader : Loader), w'.loaders[l]? = some loader →
    w.loaders[l]? = none → loader.depth = 0

variable {w w' : World}

theorem KeepsLoaders.of_eq (same : w'.loaders = w.loaders) : w.KeepsLoaders w' where
  old := by
    intro l loader found
    exact ⟨loader.loaded, by rw [same, found]⟩
  new := by
    intro l loader found missing
    rw [same, missing] at found
    cases found

/-- One loader is changed. -/
theorem loaders_mapLoader (w : World) (l other : LoaderId) (f : Loader → Loader) :
    (w.mapLoader l f).loaders[other]? =
      if l = other then (w.loaders[other]?).map f else w.loaders[other]? := by
  unfold mapLoader
  exact Array.getElem?_modify

theorem keepsLoaders_bind (w : World) (l : LoaderId) (loader : Loader) (id name : String)
    (parameters : List String) (function : ObjectId) :
    w.KeepsLoaders (w.bind l loader id name parameters function) where
  old := by
    intro other found hfound
    have here : (w.setDictionary loader.dictionary
        ((w.dictionary loader.dictionary).bind id name parameters function)).loaders[other]? =
          some found := hfound
    rw [bind, loaders_mapLoader, here]
    by_cases same : l = other
    · exact ⟨id :: found.loaded, if_pos same⟩
    · exact ⟨found.loaded, if_neg same⟩
  new := by
    intro other found hfound missing
    have here : (w.setDictionary loader.dictionary
        ((w.dictionary loader.dictionary).bind id name parameters function)).loaders[other]? =
          none := missing
    rw [bind, loaders_mapLoader, here] at hfound
    split at hfound <;> cases hfound

theorem keepsLoaders_install (w : World) (l : LoaderId) (loader : Loader) (id : String)
    (unit : CodeUnit) : w.KeepsLoaders (w.install l loader id unit).2 := by
  have bound := keepsLoaders_bind ((w.addBank unit).allocWith
    (·.newFunction unit.name (.interpreted ⟨w.banks.size, id, unit, l⟩))).2 l loader id unit.name
    unit.parameters w.heap.size
  exact ⟨bound.old, bound.new⟩

theorem keepsLoaders_load (w : World) (l : LoaderId) (loader : Loader) (id : String)
    (payload : List UInt8) : w.KeepsLoaders (w.load l loader id payload).2 := by
  rw [load]
  cases w.accept loader id payload with
  | error e => exact .of_eq rfl
  | ok unit => exact keepsLoaders_install w l loader id unit

theorem keepsLoaders_defineNative (w : World) (l : LoaderId) (loader : Loader) (id name : String)
    (handle : Handle) : w.KeepsLoaders (w.defineNative l loader id name handle).2 := by
  rw [defineNative]
  cases w.acceptNative loader id handle with
  | error e => exact .of_eq rfl
  | ok _ =>
    have bound := keepsLoaders_bind (w.allocWith (·.newFunction name handle)).2 l loader id name
      (nativeParameters handle) w.heap.size
    exact ⟨bound.old, bound.new⟩

theorem keepsLoaders_newFunction (w : World) (name : String) (spec : HandleSpec NativeEntry) :
    w.KeepsLoaders (w.newFunction name spec).2 := by
  rw [newFunction]
  cases w.handleOf spec with
  | none => exact .of_eq rfl
  | some handle => exact .of_eq rfl

theorem keepsLoaders_define (w : World) (l : LoaderId) (id name : String)
    (spec : HandleSpec NativeEntry) : w.KeepsLoaders (w.define l id name spec).2 := by
  rw [define]
  cases w.loaders[l]? with
  | none => exact .of_eq rfl
  | some loader =>
    cases w.handleOf spec with
    | none => exact .of_eq rfl
    | some handle => exact keepsLoaders_defineNative w l loader id name handle

theorem keepsLoaders_newLoader (w : World) (config : Config) (d : DictionaryId)
    (global : ObjectId) : w.KeepsLoaders (w.newLoader config d global).2 where
  old := by
    intro l loader found
    refine ⟨loader.loaded, ?_⟩
    have inside := (Array.getElem?_eq_some_iff.mp found).1
    unfold newLoader
    rw [Array.getElem?_push, if_neg (Nat.ne_of_lt inside), found]
  new := by
    intro l loader found missing
    unfold newLoader at found
    rw [Array.getElem?_push, missing] at found
    split at found
    · cases found
      rfl
    · cases found

theorem keepsLoaders_act (w : World) (a : Action) : w.KeepsLoaders (w.act a).2 := by
  cases a with
  | map o f =>
    rw [act]
    split <;> exact .of_eq rfl
  | cachedLookup c o =>
    rw [act]
    cases w.caches[c]? <;> exact .of_eq rfl
  | declare d id name parameters function =>
    rw [act]
    cases w.dictionaries[d]? <;> exact .of_eq rfl
  | newLoader config d global =>
    rw [act]
    split
    · exact keepsLoaders_newLoader w config d global
    · exact .of_eq rfl
  | load l id payload =>
    rw [act]
    cases w.loaders[l]? with
    | none => exact .of_eq rfl
    | some loader => exact keepsLoaders_load w l loader id payload
  | unitCachedLookup o offset receiver => exact .of_eq (w.loaders_useUnitCache o offset _)
  | resetUnitCache o offset =>
    rw [act]
    exact .of_eq (w.loaders_useUnitCache o offset _)
  | _ => exact .of_eq rfl

theorem keepsLoaders_perform (w : World) (a : Action) : w.KeepsLoaders (w.perform a).2 := by
  rw [perform]
  split
  · exact keepsLoaders_act w a
  · exact .of_eq rfl

end ProtoVM.World
