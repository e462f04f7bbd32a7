import ProtoVM.Proofs.Session.Dictionaries
import ProtoVM.Proofs.Session.Loading
import ProtoVM.Proofs.Session.Loaders

/-!
# Registrations

A dictionary is filled by declarations and by loaders, which bind units and native functions into
it. The steps may come in any order and through any number of loaders, some of them made on the
way. What the dictionary and the loaders know afterwards can be read off the steps and their
answers.
-/

namespace ProtoVM

/-- The name and the parameters of a function. -/
abbrev Signature := String × List String

def Descriptor.signature (descriptor : Descriptor) : Signature :=
  (descriptor.name, descriptor.parameters)

/-- The name and the parameters that are known under an identifier. -/
def Dictionary.signature? (d : Dictionary) (id : String) : Option Signature :=
  (d.descriptor? id).map (·.signature)

namespace Dictionary

theorem signature?_insert (d : Dictionary) (id key : String) (descriptor : Descriptor) :
    (d.insert id descriptor).signature? key =
      if key = id then some descriptor.signature else d.signature? key := by
  rw [signature?, descriptor?_insert]
  split <;> rfl

/-- Binding keeps the name and the parameters that are known. -/
theorem signature?_bind (d : Dictionary) (id name key : String) (parameters : List String)
    (function : ObjectId) :
    (d.bind id name parameters function).signature? key =
      if key = id then (d.signature? id).or (some (name, parameters)) else d.signature? key := by
  rw [bind, signature?_insert]
  by_cases same : key = id
  · rw [if_pos same, if_pos same, signature?]
    cases d.descriptor? id <;> rfl
  · rw [if_neg same, if_neg same]

end Dictionary

namespace World

/-- A loader with this id exists and has bound the identifier. -/
def hasLoaded (w : World) (l : LoaderId) (id : String) : Bool :=
  (w.loaders[l]?).any (isLoaded · id)

end World

/-- A step that fills a dictionary, with its answer. -/
inductive Registration where
  | declare (id : String) (descriptor : Descriptor) (accepted : Bool)
  | load (l : LoaderId) (id : String) (payload : List UInt8) (answer : Except LoadError ObjectId)
  | defineNative (l : LoaderId) (id name : String) (handle : Handle)
      (answer : Except LoadError ObjectId)

namespace Registration

def id : Registration → String
  | declare id _ _ => id
  | load _ id _ _ => id
  | defineNative _ id _ _ _ => id

/-- The loader that was to bind a function. -/
def loader? : Registration → Option LoaderId
  | declare _ _ _ => none
  | load l _ _ _ => some l
  | defineNative l _ _ _ _ => some l

/-- The name and the parameters that were declared for the identifier. -/
def declared? (id : String) : Registration → Option Signature
  | declare key descriptor accepted =>
    if accepted ∧ id = key then some descriptor.signature else none
  | load _ _ _ _ => none
  | defineNative _ _ _ _ _ => none

/-- The function that was bound to the identifier. -/
def bound? (id : String) : Registration → Option ObjectId
  | declare _ _ _ => none
  | load _ key _ answer => if id = key then answer.toOption else none
  | defineNative _ key _ _ answer => if id = key then answer.toOption else none

/-- The name and the parameters that a step brings along: those of the unit, whether its digest is
verified or not, or those of the native function. -/
def signature? : Registration → Option Signature
  | declare _ descriptor _ => some descriptor.signature
  | load _ _ payload _ =>
    (Payload.decode payload false).toOption.map fun unit => (unit.name, unit.parameters)
  | defineNative _ _ name handle _ => some (name, World.nativeParameters handle)

/-- The step was turned down because its identifier is bound. -/
def Refused : Registration → Prop
  | declare _ _ accepted => accepted = false
  | load _ id _ answer => answer = .error (.duplicateUnit id)
  | defineNative _ id _ _ answer => answer = .error (.duplicateUnit id)

/-! ## What steps did to an identifier -/

/-- The declarations that were accepted, in order. -/
def declaredTo (id : String) (rs : List Registration) : List Signature :=
  rs.filterMap (declared? id)

/-- The functions that were bound, in order. -/
def boundTo (id : String) (rs : List Registration) : List ObjectId := rs.filterMap (bound? id)

/-- The functions that were bound through one loader, in order. -/
def boundBy (l : LoaderId) (id : String) (rs : List Registration) : List ObjectId :=
  boundTo id (rs.filter (·.loader? = some l))

/-- The names and parameters that bound functions brought along, in order. -/
def ownSignatures (id : String) (rs : List Registration) : List Signature :=
  rs.filterMap fun r => (r.bound? id).bind fun _ => r.signature?

variable (l : LoaderId) (id : String) (rs : List Registration) (r : Registration)

theorem declaredTo_concat :
    declaredTo id (rs ++ [r]) = declaredTo id rs ++ (r.declared? id).toList := by
  rw [declaredTo, List.filterMap_append]
  cases h : r.declared? id <;> simp [declaredTo, h]

theorem boundTo_concat : boundTo id (rs ++ [r]) = boundTo id rs ++ (r.bound? id).toList := by
  rw [boundTo, List.filterMap_append]
  cases h : r.bound? id <;> simp [boundTo, h]

theorem boundBy_concat : boundBy l id (rs ++ [r]) =
    boundBy l id rs ++ if r.loader? = some l then (r.bound? id).toList else [] := by
  rw [boundBy, List.filter_append]
  by_cases through : r.loader? = some l
  · rw [List.filter_cons_of_pos (by simpa using through), List.filter_nil, boundTo_concat,
      if_pos through, boundBy]
  · rw [List.filter_cons_of_neg (by simpa using through), List.filter_nil, List.append_nil,
      if_neg through, List.append_nil, boundBy]

theorem ownSignatures_concat : ownSignatures id (rs ++ [r]) =
    ownSignatures id rs ++ ((r.bound? id).bind fun _ => r.signature?).toList := by
  rw [ownSignatures, List.filterMap_append]
  cases h : (r.bound? id).bind fun _ => r.signature? <;> simp [ownSignatures, h]

end Registration

/-! ## Histories -/

/-- One step on a dictionary. A loader binds into its own dictionary. -/
inductive Registers (d : DictionaryId) (w : World) : Registration → World → Prop where
  | declare (id : String) (descriptor : Descriptor) :
      Registers d w (.declare id descriptor ((w.dictionary d).declare id descriptor).1)
        (w.setDictionary d ((w.dictionary d).declare id descriptor).2)
  | load {l : LoaderId} {loader : Loader} (found : w.loaders[l]? = some loader)
      (on : loader.dictionary = d) (id : String) (payload : List UInt8) :
      Registers d w (.load l id payload (w.load l loader id payload).1)
        (w.load l loader id payload).2
  | defineNative {l : LoaderId} {loader : Loader} (found : w.loaders[l]? = some loader)
      (on : loader.dictionary = d) (id name : String) (handle : Handle) :
      Registers d w (.defineNative l id name handle (w.defineNative l loader id name handle).1)
        (w.defineNative l loader id name handle).2

/-- Any number of steps on a dictionary, the last one last, while new loaders may take it up. -/
inductive History (d : DictionaryId) (w : World) : List Registration → World → Prop where
  | start : History d w [] w
  | newLoader {rs : List Registration} {w' : World} (history : History d w rs w')
      (config : Config) (global : ObjectId) : History d w rs (w'.newLoader config d global).2
  | step {rs : List Registration} {w' w'' : World} {r : Registration}
      (history : History d w rs w') (registers : Registers d w' r w'') :
      History d w (rs ++ [r]) w''

/-! ## What one step changes -/

/-- What a step comes down to: nothing, or an entry without a function for an identifier that has
none, or a function for an identifier that the loader had not bound. -/
inductive Registration.Effect (d : DictionaryId) (w w' : World) (r : Registration) : Prop where
  | refused (same : w' = w) (undeclared : ∀ id, r.declared? id = none)
      (unbound : ∀ id, r.bound? id = none)
  | declared (id : String) (descriptor : Descriptor) (told : r = .declare id descriptor true)
      (free : (w.dictionary d).resolve? id = none)
      (dictionary : w'.dictionary d =
        (w.dictionary d).insert id { descriptor with function := none })
      (loaded : w'.hasLoaded = w.hasLoaded)
  | bound (l : LoaderId) (id name : String) (parameters : List String) (f : ObjectId)
      (through : r.loader? = some l) (undeclared : ∀ key, r.declared? key = none)
      (binds : ∀ key, r.bound? key = if key = id then some f else none)
      (own : r.signature? = some (name, parameters)) (unloaded : w.hasLoaded l id = false)
      (dictionary : w'.dictionary d = (w.dictionary d).bind id name parameters f)
      (loaded : ∀ other key, w'.hasLoaded other key = true ↔
        w.hasLoaded other key = true ∨ other = l ∧ key = id)

namespace World

variable {w w' : World} {d : DictionaryId} {l : LoaderId} {loader : Loader}

theorem dictionary_setDictionary (inside : d < w.dictionaries.size) (dictionary : Dictionary) :
    (w.setDictionary d dictionary).dictionary d = dictionary := by
  unfold World.dictionary setDictionary
  rw [Array.getElem?_setIfInBounds_self, if_pos inside]
  rfl

theorem dictionary_of_getElem? {dictionary : Dictionary}
    (known : w.dictionaries[d]? = some dictionary) : w.dictionary d = dictionary := by
  simp [World.dictionary, known]

theorem dictionary_setDictionary_of_ne {other : DictionaryId} (different : other ≠ d)
    (dictionary : Dictionary) :
    (w.setDictionary d dictionary).dictionary other = w.dictionary other := by
  unfold World.dictionary setDictionary
  rw [Array.getElem?_setIfInBounds_ne (Ne.symm different)]

theorem setDictionary_dictionary (w : World) (d : DictionaryId) :
    w.setDictionary d (w.dictionary d) = w := by
  have same : w.dictionaries.setIfInBounds d (w.dictionary d) = w.dictionaries := by
    refine Array.ext_getElem? fun i => ?_
    rw [Array.getElem?_setIfInBounds]
    split
    · rename_i here
      subst here
      split
      · rename_i inside
        rw [dictionary, Array.getElem?_eq_getElem inside]
        rfl
      · rename_i outside
        exact (Array.getElem?_eq_none (Nat.le_of_not_lt outside)).symm
    · rfl
  rw [setDictionary, same]

theorem hasLoaded_eq (found : w.loaders[l]? = some loader) (id : String) :
    w.hasLoaded l id = isLoaded loader id := by
  rw [hasLoaded, found]
  rfl

/-- A loader that has just been made has bound nothing. -/
theorem hasLoaded_newLoader (w : World) (config : Config) (d : DictionaryId) (global : ObjectId) :
    (w.newLoader config d global).2.hasLoaded = w.hasLoaded := by
  funext l id
  unfold hasLoaded newLoader
  rw [Array.getElem?_push]
  split
  · rename_i last
    rw [last, Array.getElem?_eq_none (Nat.le_refl _)]
    rfl
  · rfl

/-- Binding marks the identifier as bound by the loader, and nothing else as bound. -/
theorem hasLoaded_bind (found : w.loaders[l]? = some loader) (id name : String)
    (parameters : List String) (function : ObjectId) (other : LoaderId) (key : String) :
    (w.bind l loader id name parameters function).hasLoaded other key = true ↔
      w.hasLoaded other key = true ∨ other = l ∧ key = id := by
  rw [hasLoaded, bind, loaders_mapLoader]
  have same : (w.setDictionary loader.dictionary ((w.dictionary loader.dictionary).bind id name
      parameters function)).loaders = w.loaders := rfl
  rw [same]
  by_cases here : l = other
  · subst here
    rw [if_pos rfl, hasLoaded_eq found, found]
    simp only [Option.map_some, Option.any_some, isLoaded, List.contains_cons, Bool.or_eq_true,
      beq_iff_eq, true_and]
    exact Or.comm
  · rw [if_neg here, hasLoaded]
    exact ⟨.inl, fun either => either.resolve_right fun both => here both.1.symm⟩

/-- What a binding makes of the dictionary that it goes to. -/
theorem dictionary_bind (inside : loader.dictionary < w.dictionaries.size) (l : LoaderId)
    (id name : String) (parameters : List String) (function : ObjectId) :
    (w.bind l loader id name parameters function).dictionary loader.dictionary =
      (w.dictionary loader.dictionary).bind id name parameters function :=
  dictionary_setDictionary inside _

end World

namespace Registration

variable {d : DictionaryId} {w w' : World} {l : LoaderId} {loader : Loader} {r : Registration}

theorem effect_declare (inside : d < w.dictionaries.size) (id : String) (descriptor : Descriptor) :
    (declare id descriptor ((w.dictionary d).declare id descriptor).1).Effect d w
      (w.setDictionary d ((w.dictionary d).declare id descriptor).2) := by
  by_cases bound : ((w.dictionary d).resolve? id).isSome
  · have declined : (w.dictionary d).declare id descriptor = (false, w.dictionary d) := if_pos bound
    rw [declined]
    exact .refused (w.setDictionary_dictionary d) (fun _ => rfl) fun _ => rfl
  · have accepted : (w.dictionary d).declare id descriptor =
        (true, (w.dictionary d).insert id { descriptor with function := none }) := if_neg bound
    rw [accepted]
    exact .declared id descriptor rfl (Option.not_isSome_iff_eq_none.mp bound)
      (World.dictionary_setDictionary inside _) rfl

theorem effect_load (inside : loader.dictionary < w.dictionaries.size)
    (found : w.loaders[l]? = some loader) (id : String) (payload : List UInt8) :
    (load l id payload (w.load l loader id payload).1).Effect loader.dictionary w
      (w.load l loader id payload).2 := by
  rw [World.load]
  cases accepted : w.accept loader id payload with
  | error e =>
    refine .refused rfl (fun _ => rfl) fun key => ?_
    exact ite_self _
  | ok unit =>
    have decoded := Payload.decode_unverified (World.decode_of_accept accepted)
    have made : ((w.addBank unit).allocWith
        (·.newFunction unit.name (.interpreted ⟨w.banks.size, id, unit, l⟩))).2.loaders[l]? =
          some loader := found
    refine .bound l id unit.name unit.parameters w.heap.size rfl (fun _ => rfl) (fun _ => rfl) ?_ ?_
      ?_ ?_
    · rw [signature?, decoded]
      rfl
    · rw [World.hasLoaded_eq found]
      exact World.isLoaded_of_accept accepted
    · exact World.dictionary_bind inside l id unit.name unit.parameters _
    · exact World.hasLoaded_bind made id unit.name unit.parameters _

theorem effect_defineNative (inside : loader.dictionary < w.dictionaries.size)
    (found : w.loaders[l]? = some loader) (id name : String) (handle : Handle) :
    (defineNative l id name handle (w.defineNative l loader id name handle).1).Effect
      loader.dictionary w (w.defineNative l loader id name handle).2 := by
  rw [World.defineNative]
  cases accepted : w.acceptNative loader id handle with
  | error e =>
    refine .refused rfl (fun _ => rfl) fun key => ?_
    exact ite_self _
  | ok checked =>
    cases checked
    have made : (w.allocWith (·.newFunction name handle)).2.loaders[l]? = some loader := found
    refine .bound l id name (World.nativeParameters handle) w.heap.size rfl (fun _ => rfl)
      (fun _ => rfl) rfl ?_ ?_ ?_
    · rw [World.hasLoaded_eq found]
      exact World.isLoaded_of_acceptNative accepted
    · exact World.dictionary_bind inside l id name _ _
    · exact World.hasLoaded_bind made id name _ _

end Registration

theorem Registers.effect {d : DictionaryId} {w w' : World} {r : Registration}
    (inside : d < w.dictionaries.size) (registers : Registers d w r w') : r.Effect d w w' := by
  cases registers with
  | declare id descriptor => exact Registration.effect_declare inside id descriptor
  | load found on id payload =>
    subst on
    exact Registration.effect_load inside found id payload
  | defineNative found on id name handle =>
    subst on
    exact Registration.effect_defineNative inside found id name handle

theorem Registers.size_dictionaries {d : DictionaryId} {w w' : World} {r : Registration}
    (registers : Registers d w r w') : w'.dictionaries.size = w.dictionaries.size := by
  cases registers with
  | declare id descriptor => exact Array.size_setIfInBounds
  | @load l loader found on id payload =>
    rw [World.load]
    cases w.accept loader id payload with
    | error e => rfl
    | ok unit => exact Array.size_setIfInBounds
  | @defineNative l loader found on id name handle =>
    rw [World.defineNative]
    cases w.acceptNative loader id handle with
    | error e => rfl
    | ok _ => exact Array.size_setIfInBounds

end ProtoVM
