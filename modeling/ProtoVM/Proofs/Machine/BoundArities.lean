import ProtoVM.Proofs.Machine.BindingAttempts
import ProtoVM.Proofs.Machine.CachedLookups
import ProtoVM.Proofs.Machine.Passages

/-!
# Arities of bound functions

A function that is bound to an identifier takes one value more than the identifier has parameters:
the receiver. Units and native functions are counted in different ways when they are bound, and
declared ones are compared; in every session the two numbers go together (`World.Orderly`). The one
exception is a native function that leaves no room for its receiver. It passes for a function
without parameters, and then no call of it passes the right number of values.
-/

namespace ProtoVM

/-- The functions of a dictionary with a fixed number of values have one parameter less. There are
no fewer than no parameters. -/
def Dictionary.Fits (h : Heap) (d : Dictionary) : Prop :=
  ∀ id signature f arity, d.signature? id = some signature → d.resolve? id = some f →
    (h.handle f).arity? = some arity → signature.2.length = arity - 1

namespace Dictionary

variable {h h' : Heap} {d : Dictionary}

theorem fits_empty (h : Heap) : empty.Fits h := by
  intro id signature f arity known
  cases known

theorem Fits.mono (fits : d.Fits h)
    (same : ∀ id f, d.resolve? id = some f → h'.handle f = h.handle f) : d.Fits h' := by
  intro id signature f arity known bound count
  rw [same id f bound] at count
  exact fits id signature f arity known bound count

/-- A declaration touches no identifier that has a function. -/
theorem Fits.declare (fits : d.Fits h) (id : String) (descriptor : Descriptor) :
    (d.declare id descriptor).2.Fits h := by
  rw [Dictionary.declare]
  by_cases bound : (d.resolve? id).isSome
  · rw [if_pos bound]
    exact fits
  · rw [if_neg bound]
    intro key signature f arity known resolved count
    change (d.insert id { descriptor with function := none }).resolve? key = some f at resolved
    change (d.insert id { descriptor with function := none }).signature? key = _ at known
    rw [resolve?_insert] at resolved
    rw [signature?_insert] at known
    by_cases same : key = id
    · simp [same] at resolved
    · rw [if_neg same] at resolved known
      exact fits key signature f arity known resolved count

end Dictionary

namespace World

/-- What holds of the dictionaries and loaders of a session. -/
structure Orderly (w : World) : Prop where
  fits : ∀ d, (w.dictionary d).Fits w.heap
  known : ∀ (l : LoaderId) (loader : Loader), w.loaders[l]? = some loader →
    loader.dictionary < w.dictionaries.size

theorem orderly_empty : empty.Orderly where
  fits := by
    intro d
    simp [dictionary, empty, Dictionary.fits_empty]
  known := by
    intro l loader found
    simp [empty] at found

/-- Every loader is an old one with the same dictionary. -/
def SameLoaders (w w' : World) : Prop :=
  ∀ (l : LoaderId) (loader' : Loader), w'.loaders[l]? = some loader' →
    ∃ loader, w.loaders[l]? = some loader ∧ loader'.dictionary = loader.dictionary

theorem SameLoaders.of_eq {w w' : World} (same : w'.loaders = w.loaders) : w.SameLoaders w' := by
  intro l loader found
  rw [same] at found
  exact ⟨loader, found, rfl⟩

theorem sameLoaders_mapLoader (w : World) (l : LoaderId) {f : Loader → Loader}
    (kept : ∀ loader, (f loader).dictionary = loader.dictionary) :
    w.SameLoaders (w.mapLoader l f) := by
  intro other loader' found
  rw [loaders_mapLoader] at found
  split at found
  · obtain ⟨loader, old, rfl⟩ := Option.map_eq_some_iff.mp found
    exact ⟨loader, old, kept loader⟩
  · exact ⟨loader', found, rfl⟩

/-- A function that is bound has as many parameters as it brings along, also if others were
declared: then these are as many. -/
theorem Attempt.length_eq {w w' : World} {loader : Loader} {dictionary : Dictionary} {id : String}
    {offered : Except LoadError (Option Nat)} {binds : World → ObjectId → Prop}
    {answer : Except LoadError ObjectId} {f : ObjectId}
    (attempt : w.Attempt (loader.Refuses dictionary id offered) binds answer w')
    (bound : answer = .ok f) {own : Signature} (read : offered = .ok (some own.2.length)) :
    ((dictionary.signature? id).getD own).2.length = own.2.length := by
  have accepted (e : LoadError) : ¬ loader.Refuses dictionary id offered e := by
    rw [← attempt.error_iff e, bound]
    simp
  have unloaded : isLoaded loader id = false := by
    rw [Bool.eq_false_iff]
    exact fun loaded => accepted _ (.duplicate loaded)
  rw [Dictionary.signature?]
  cases declared : dictionary.descriptor? id with
  | none => rfl
  | some descriptor =>
    apply Classical.byContradiction
    intro differs
    exact accepted _ (.signature unloaded read declared differs)

variable {allowed : Action → Prop} {w w' : World} (sound : w.Sound allowed) (orderly : w.Orderly)
include sound orderly

/-! ## Operations -/

theorem orderly_of_evolves (evolves : w.heap.Evolves w'.heap)
    (dictionaries : w'.dictionaries = w.dictionaries) (loaders : w.SameLoaders w') :
    w'.Orderly where
  fits := by
    intro d
    have same : w'.dictionary d = w.dictionary d := by rw [dictionary, dictionary, dictionaries]
    rw [same]
    apply (orderly.fits d).mono
    intro id f bound
    exact evolves.handle (contains_of_resolve? sound bound)
  known := by
    intro l loader' found
    obtain ⟨loader, old, same⟩ := loaders l loader' found
    rw [dictionaries, same]
    exact orderly.known l loader old

theorem orderly_of_binds {l : LoaderId} {loader : Loader} {dictionary : Dictionary} {id : String}
    {own : Signature} {handle : Handle} {f : ObjectId} (found : w.loaders[l]? = some loader)
    (binds : w.Binds w' l loader dictionary id own handle f)
    (counted : ∀ arity, handle.arity? = some arity →
      ((dictionary.signature? id).getD own).2.length = arity - 1) : w'.Orderly where
  fits := by
    intro d key signature g arity known bound count
    by_cases here : d = loader.dictionary ∧ key = id
    · obtain ⟨rfl, rfl⟩ := here
      rw [binds.signature] at known
      rw [binds.function] at bound
      cases known
      cases bound
      rw [binds.made.2] at count
      exact counted arity count
    · have same := binds.entries d key (Decidable.not_and_iff_or_not.mp here)
      rw [Dictionary.signature?, same] at known
      rw [Dictionary.resolve?, same] at bound
      have kept := binds.objects g (contains_of_resolve? sound bound)
      rw [Heap.handle, kept] at count
      exact orderly.fits d key signature g arity known bound count
  known := by
    intro other loader' here
    rw [binds.loaders] at here
    rw [binds.dictionaries]
    split at here
    · cases here
      exact orderly.known l loader found
    · exact orderly.known other loader' here

omit sound in
theorem exists_dictionary {l : LoaderId} {loader : Loader} (found : w.loaders[l]? = some loader) :
    ∃ dictionary, w.dictionaries[loader.dictionary]? = some dictionary :=
  ⟨_, Array.getElem?_eq_getElem (orderly.known l loader found)⟩

theorem orderly_load {l : LoaderId} {loader : Loader} (found : w.loaders[l]? = some loader)
    (id : String) (payload : List UInt8) : (w.load l loader id payload).2.Orderly := by
  obtain ⟨dictionary, known⟩ := exists_dictionary orderly found
  have attempt := attempt_load found known id payload
  cases answer : (w.load l loader id payload).1 with
  | error e =>
    rw [attempt.unchanged e answer]
    exact orderly
  | ok f =>
    obtain ⟨unit, decoded, binds⟩ := attempt.bound f answer
    apply orderly_of_binds sound orderly found binds
    intro arity count
    cases count
    apply attempt.length_eq answer
    rw [Loader.offeredBy, decoded]
    rfl

theorem orderly_defineNative {l : LoaderId} {loader : Loader}
    (found : w.loaders[l]? = some loader) (id name : String) (handle : Handle) :
    (w.defineNative l loader id name handle).2.Orderly := by
  obtain ⟨dictionary, known⟩ := exists_dictionary orderly found
  have attempt := attempt_defineNative found known id name handle
  cases answer : (w.defineNative l loader id name handle).1 with
  | error e =>
    rw [attempt.unchanged e answer]
    exact orderly
  | ok f =>
    apply orderly_of_binds sound orderly found (attempt.bound f answer)
    intro arity count
    have own : (nativeParameters handle).length = arity - 1 := by simp [nativeParameters, count]
    rw [← own]
    apply attempt.length_eq answer
    simp [Handle.offered, count, own]

omit sound in
theorem orderly_newDictionary : w.newDictionary.2.Orderly where
  fits := by
    intro d
    by_cases new : d = w.dictionaries.size
    · subst new
      simp [dictionary, newDictionary, Dictionary.fits_empty]
    · have same : w.newDictionary.2.dictionary d = w.dictionary d := by
        simp [dictionary, newDictionary, Array.getElem?_push, new]
      rw [same]
      exact orderly.fits d
  known := by
    intro l loader found
    have old := orderly.known l loader found
    simp only [newDictionary, Array.size_push]
    exact Nat.lt_succ_of_lt old

omit sound in
theorem orderly_declare (d : DictionaryId) (id : String) (descriptor : Descriptor) :
    (w.setDictionary d ((w.dictionary d).declare id descriptor).2).Orderly where
  fits := by
    intro other
    by_cases same : other = d
    · subst same
      by_cases inside : other < w.dictionaries.size
      · rw [dictionary_setDictionary inside]
        exact (orderly.fits other).declare id descriptor
      · simp [dictionary, setDictionary, inside, Dictionary.fits_empty]
    · rw [dictionary_setDictionary_of_ne same]
      exact orderly.fits other
  known := by
    intro l loader found
    have old := orderly.known l loader found
    simpa [setDictionary] using old

omit sound in
theorem orderly_newLoader (config : Config) {d : DictionaryId} (inside : d < w.dictionaries.size)
    (global : ObjectId) : (w.newLoader config d global).2.Orderly where
  fits := orderly.fits
  known := by
    intro l loader found
    simp only [newLoader, Array.getElem?_push] at found
    split at found
    · cases found
      exact inside
    · exact orderly.known l loader found

theorem orderly_act (a : Action) (present : ∀ o ∈ a.mentions, w.heap.contains o) :
    (w.act a).2.Orderly := by
  have evolves := (leads_act sound a present).heap
  cases a with
  | map o f =>
    apply orderly_of_evolves sound orderly evolves
    · rw [act]
      split <;> rfl
    · rw [act]
      split <;> exact .of_eq rfl
  | cachedLookup c o =>
    apply orderly_of_evolves sound orderly evolves
    · rw [act]
      cases w.caches[c]? <;> rfl
    · rw [act]
      cases w.caches[c]? <;> exact .of_eq rfl
  | newDictionary => exact orderly_newDictionary orderly
  | declare d id name parameters function =>
    rw [act]
    cases found : w.dictionaries[d]? with
    | none => exact orderly
    | some dictionary =>
      have declared := orderly_declare orderly d id ⟨name, parameters, function⟩
      rw [dictionary_of_getElem? found] at declared
      exact declared
  | newLoader config d global =>
    rw [act]
    by_cases inside : d < w.dictionaries.size
    · rw [if_pos inside]
      exact orderly_newLoader orderly config inside global
    · rw [if_neg inside]
      exact orderly
  | load l id payload =>
    rw [act]
    cases found : w.loaders[l]? with
    | none => exact orderly
    | some loader => exact orderly_load sound orderly found id payload
  | unitCachedLookup o offset receiver =>
    exact orderly_of_evolves sound orderly evolves (w.dictionaries_useUnitCache o offset _)
      (.of_eq (w.loaders_useUnitCache o offset _))
  | resetUnitCache o offset =>
    rw [act] at evolves ⊢
    exact orderly_of_evolves sound orderly evolves (w.dictionaries_useUnitCache o offset _)
      (.of_eq (w.loaders_useUnitCache o offset _))
  | _ => exact orderly_of_evolves sound orderly evolves rfl (.of_eq rfl)

theorem orderly_perform (a : Action) : (w.perform a).2.Orderly := by
  rw [perform]
  by_cases present : a.mentions.all w.heap.contains
  · rw [if_pos present]
    exact orderly_act sound orderly a (List.all_eq_true.mp present)
  · rw [if_neg present]
    exact orderly

theorem orderly_define (l : LoaderId) (id name : String) (spec : HandleSpec NativeEntry) :
    (w.define l id name spec).2.Orderly := by
  rw [define]
  cases found : w.loaders[l]? with
  | none => exact orderly
  | some loader =>
    cases w.handleOf spec with
    | none => exact orderly
    | some handle => exact orderly_defineNative sound orderly found id name handle

omit sound orderly in
theorem registry_newFunction (w : World) (name : String) (spec : HandleSpec NativeEntry) :
    (w.newFunction name spec).2.dictionaries = w.dictionaries ∧
      (w.newFunction name spec).2.loaders = w.loaders := by
  rw [newFunction]
  cases w.handleOf spec <;> exact ⟨rfl, rfl⟩

end World

/-! ## Steps -/

namespace Machine

variable {allowed : Action → Prop} {m : Machine} {waiting : List Waiting} {w : World}

theorem registry_invoke (w : World) (callee : ObjectId) (receiver : Value) (args : List Value) :
    (invoke w callee receiver args).2.dictionaries = w.dictionaries ∧
      w.SameLoaders (invoke w callee receiver args).2 := by
  have started := started_invoke w callee receiver args
  generalize invoke w callee receiver args = result at started
  cases started with
  | refused i => exact ⟨rfl, .of_eq rfl⟩
  | native entry handle => exact ⟨rfl, .of_eq rfl⟩
  | code unit loader handle found closed arity room =>
    have entered : w.enter unit.loader loader = (.ok (), w.mapLoader unit.loader
        fun loader => { loader with depth := loader.depth + 1 }) :=
      if_neg (Nat.not_le_of_lt room)
    rw [entered]
    refine ⟨rfl, ?_⟩
    exact World.sameLoaders_mapLoader w unit.loader fun _ => rfl

theorem registry_step_code (a : Activation) (reads : PropertyReads) :
    (step reads ⟨.code a, waiting, w⟩).world.dictionaries = w.dictionaries ∧
      w.SameLoaders (step reads ⟨.code a, waiting, w⟩).world := by
  obtain ⟨loaders, dictionaries⟩ := a.registry_step reads w
  rw [step]
  generalize a.step reads w = result at loaders dictionaries
  obtain ⟨effect, w'⟩ := result
  cases effect with
  | next b => exact ⟨dictionaries, .of_eq loaders⟩
  | call b callee receiver args => exact ⟨dictionaries, .of_eq loaders⟩
  | finish result =>
    refine ⟨dictionaries, ?_⟩
    have left : w'.SameLoaders (w'.leave a.unit.loader) :=
      World.sameLoaders_mapLoader w' a.unit.loader fun _ => rfl
    intro l loader found
    obtain ⟨loader', old, same⟩ := left l loader found
    exact ⟨loader', by rw [← loaders, old], same⟩

theorem registry_step_deliver (result : Except Interrupt Value) (reads : PropertyReads) :
    (step reads ⟨.deliver result, waiting, w⟩).world.dictionaries = w.dictionaries ∧
      w.SameLoaders (step reads ⟨.deliver result, waiting, w⟩).world := by
  cases waiting with
  | nil => exact ⟨rfl, .of_eq rfl⟩
  | cons first waiting =>
    cases first with
    | code a =>
      rw [step]
      cases result.bind a.push with
      | ok b => exact ⟨rfl, .of_eq rfl⟩
      | error i =>
        exact ⟨rfl, World.sameLoaders_mapLoader w a.unit.loader fun _ => rfl⟩
    | native next =>
      cases result with
      | ok v => exact ⟨rfl, .of_eq rfl⟩
      | error i => cases i <;> exact ⟨rfl, .of_eq rfl⟩

theorem orderly_step (sound : m.Sound allowed) (orderly : m.world.Orderly)
    (reads : PropertyReads) : (m.step reads).world.Orderly := by
  have evolves := (leads_step sound reads).world.heap
  have world := sound.world
  obtain ⟨control, waiting, w⟩ := m
  -- only native code makes and fills dictionaries, and makes loaders
  have others (kept : (step reads ⟨control, waiting, w⟩).world.dictionaries = w.dictionaries ∧
      w.SameLoaders (step reads ⟨control, waiting, w⟩).world) :
      (step reads ⟨control, waiting, w⟩).world.Orderly :=
    World.orderly_of_evolves world orderly evolves kept.1 kept.2
  cases control with
  | invoke callee receiver args => exact others (registry_invoke w callee receiver args)
  | code a => exact others (registry_step_code a reads)
  | deliver result => exact others (registry_step_deliver result reads)
  | native p =>
    cases p with
    | done result => exact others ⟨rfl, .of_eq rfl⟩
    | call callee receiver args next => exact others ⟨rfl, .of_eq rfl⟩
    | perform action next =>
      show (resume next (w.perform action)).2.Orderly
      rw [snd_resume]
      exact World.orderly_perform world orderly action
    | newFunction name spec next =>
      apply others
      show (resume next (w.newFunction name spec)).2.dictionaries = w.dictionaries ∧
        w.SameLoaders (resume next (w.newFunction name spec)).2
      rw [snd_resume]
      obtain ⟨dictionaries, loaders⟩ := w.registry_newFunction name spec
      exact ⟨dictionaries, .of_eq loaders⟩
    | defineNative l id name spec next =>
      show (resume next (w.define l id name spec)).2.Orderly
      rw [snd_resume]
      exact World.orderly_define world orderly l id name spec

theorem orderly_steps (sound : m.Sound allowed) (orderly : m.world.Orderly)
    (reads : PropertyReads) (n : Nat) : (m.steps reads n).world.Orderly := by
  induction n generalizing m with
  | zero => exact orderly
  | succ n ih => exact ih (leads_step sound reads).sound (orderly_step sound orderly reads)

end Machine

/-! ## Calls -/

namespace Machine

variable {handle : Handle} {args : List Value} {arity : Nat}

theorem checkArity_of_room (count : handle.arity? = some arity) (room : arity ≠ 0)
    (passed : args.length = arity - 1) : checkArity handle args = .ok () := by
  have same : arity = args.length + 1 := by omega
  rw [checkArity, count]
  exact if_pos same

theorem checkArity_of_eq_zero (count : handle.arity? = some 0) (args : List Value) :
    checkArity handle args = .error (.arityMismatch args.length 0) := by
  rw [checkArity, count]
  exact if_neg (Nat.zero_ne_add_one args.length)

/-- A call that passes the right number of values is not refused for their number. -/
theorem ne_arityMismatch_of_checkArity {w : World} {f : ObjectId}
    (passes : checkArity (w.heap.handle f) args = .ok ()) (receiver : Value)
    (given expected : Nat) : (invoke w f receiver args).1 ≠
      .deliver (.error (.error (.arityMismatch given expected))) := by
  rw [invoke]
  split
  · simp
  · simp only [passes]
    cases w.heap.handle f with
    | inert => simp
    | fixed count entry => simp
    | variadic entry => simp
    | interpreted unit =>
      simp only [enter]
      cases w.loaders[unit.loader]? with
      | none => simp
      | some loader =>
        simp only [World.enter]
        by_cases deep : loader.config.maxCallDepth.toNat ≤ loader.depth
        · simp [deep]
        · simp [deep]

end Machine

/-- How the parameters that are known of a function go with the values that it takes. -/
structure World.FitsCalls (w : World) (f : ObjectId) (parameters : List String) (arity : Nat) :
    Prop where
  /-- There is one parameter less, but not less than none. -/
  counted : parameters.length = arity - 1
  one_more : arity ≠ 0 → arity = parameters.length + 1
  accepts : arity ≠ 0 → ∀ args, args.length = parameters.length →
    Machine.checkArity (w.heap.handle f) args = .ok ()
  called : arity ≠ 0 → ∀ receiver args given expected, args.length = parameters.length →
    (Machine.invoke w f receiver args).1 ≠
      .deliver (.error (.error (.arityMismatch given expected)))
  /-- Only native code can be made without room for the receiver. -/
  native : arity = 0 → ∃ entry, w.heap.handle f = .fixed 0 entry
  refuses : arity = 0 → ∀ args,
    Machine.checkArity (w.heap.handle f) args = .error (.arityMismatch args.length 0)

theorem World.Orderly.fitsCalls {w : World} (orderly : w.Orderly) {d : DictionaryId} {id : String}
    {descriptor : Descriptor} {f : ObjectId} {arity : Nat}
    (known : (w.dictionary d).descriptor? id = some descriptor)
    (bound : descriptor.function = some f) (count : (w.heap.handle f).arity? = some arity) :
    w.FitsCalls f descriptor.parameters arity := by
  have resolved : (w.dictionary d).resolve? id = some f := by
    rw [Dictionary.resolve?, known]
    exact bound
  have counted : descriptor.parameters.length = arity - 1 := by
    apply orderly.fits d id descriptor.signature f arity _ resolved count
    rw [Dictionary.signature?, known]
    rfl
  have accepts (room : arity ≠ 0) (args : List Value)
      (passed : args.length = descriptor.parameters.length) :
      Machine.checkArity (w.heap.handle f) args = .ok () :=
    Machine.checkArity_of_room count room (passed.trans counted)
  constructor
  case counted => exact counted
  case one_more => omega
  case accepts => exact accepts
  case called =>
    intro room receiver args given expected passed
    exact Machine.ne_arityMismatch_of_checkArity (accepts room args passed) receiver given expected
  case native =>
    rintro rfl
    cases handle : w.heap.handle f with
    | fixed n entry =>
      rw [handle] at count
      cases count
      exact ⟨entry, rfl⟩
    | _ => simp [handle, Handle.arity?] at count
  case refuses =>
    rintro rfl
    exact Machine.checkArity_of_eq_zero count

/-- Native code can declare, load and define in any order, in dictionaries that loaders share. -/
theorem fitsCalls_steps (p : Native) (reads : PropertyReads) (n : Nat) (w : World)
    (reached : ((Machine.running .empty p).steps reads n).world = w)
    (d : DictionaryId) (id : String)
    (descriptor : Descriptor) (f : ObjectId) (arity : Nat)
    (known : (w.dictionary d).descriptor? id = some descriptor)
    (bound : descriptor.function = some f) (count : (w.heap.handle f).arity? = some arity) :
    w.FitsCalls f descriptor.parameters arity := by
  have start : (Machine.running .empty p).Sound fun _ => True :=
    Machine.sound_running_empty p reads 0
  have orderly := Machine.orderly_steps start World.orderly_empty reads n
  rw [reached] at orderly
  exact orderly.fitsCalls known bound count

/-- A native function is bound to an identifier that was declared. -/
def defining (parameters : List String) (arity : Nat) : Native :=
  .perform (.newObject none) fun global =>
  .perform .newDictionary fun d =>
  .perform (.newLoader {} d global) fun l =>
  .perform (.declare d "f" "f" parameters none) fun _ =>
  .defineNative l "f" "f" (.fixed arity fun _ => .done (.ok .undefined)) fun _ =>
  .done (.ok .undefined)

/-- The session after that. -/
def defined (parameters : List String) (arity : Nat) : World :=
  ((Machine.running .empty (defining parameters arity)).steps .cached 5).world

theorem fitsCalls_steps_defined :
    ((defined ["x"] 2).dictionary 0).descriptor? "f" = some ⟨"f", ["x"], some 1⟩ ∧
      ((defined ["x"] 2).heap.handle 1).arity? = some 2 ∧
      (defined ["x"] 2).FitsCalls 1 ["x"] 2 := by
  have known : ((defined ["x"] 2).dictionary 0).descriptor? "f" = some ⟨"f", ["x"], some 1⟩ := by
    cbv
  have count : ((defined ["x"] 2).heap.handle 1).arity? = some 2 := by cbv
  exact ⟨known, count,
    fitsCalls_steps (defining ["x"] 2) .cached 5 _ rfl 0 "f" _ 1 2 known rfl count⟩

/-- A native function without room for the receiver passes for one without parameters. It can not
be called without arguments. -/
theorem not_one_more_of_defined :
    ¬ (∀ id descriptor f arity, ((defined [] 0).dictionary 0).descriptor? id = some descriptor →
        descriptor.function = some f → ((defined [] 0).heap.handle f).arity? = some arity →
        arity = descriptor.parameters.length + 1) ∧
      (Machine.invoke (defined [] 0) 1 .undefined []).1 =
        .deliver (.error (.error (.arityMismatch 0 0))) := by
  have known : ((defined [] 0).dictionary 0).descriptor? "f" = some ⟨"f", [], some 1⟩ := by cbv
  have count : ((defined [] 0).heap.handle 1).arity? = some 0 := by cbv
  constructor
  · intro one_more
    have wrong := one_more "f" _ 1 0 known rfl count
    simp at wrong
  · cbv

end ProtoVM
