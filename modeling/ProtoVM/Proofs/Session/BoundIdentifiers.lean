import ProtoVM.Proofs.Session.Registrations

/-!
# Bound identifiers

What a dictionary knows under an identifier after any history. A declaration counts until the
identifier is bound; from then on its name and its parameters stay. The mark that an identifier is
bound is kept by each loader for itself, so its function stays for good only where one loader binds
into the dictionary.
-/

namespace ProtoVM

open Registration

variable {d : DictionaryId} {w w' w'' : World} {rs : List Registration} {r : Registration}

/-- What a history leads to, read off its steps and the session that it starts from. -/
structure Records (d : DictionaryId) (w : World) (rs : List Registration) (w' : World) : Prop where
  /-- The function of an identifier is the last one that was bound. -/
  resolved : ∀ id, (w'.dictionary d).resolve? id =
    (boundTo id rs).getLast?.or ((w.dictionary d).resolve? id)
  /-- The name and the parameters are those that were declared last, or the first ones known. -/
  signed : ∀ id, (w'.dictionary d).signature? id = (declaredTo id rs).getLast?.or
    (((w.dictionary d).signature? id).or (ownSignatures id rs).head?)
  /-- No declaration is accepted after a function was bound. -/
  ordered : ∀ id, rs.Pairwise fun earlier later =>
    (earlier.bound? id).isSome → later.declared? id = none
  settled : ∀ id, ((w.dictionary d).resolve? id).isSome → declaredTo id rs = []
  /-- A loader has bound what was bound through it. -/
  loaded : ∀ l id, w'.hasLoaded l id = true ↔ w.hasLoaded l id = true ∨ boundBy l id rs ≠ []
  /-- No loader binds an identifier twice. -/
  once : ∀ l id, (boundBy l id rs).length ≤ 1
  spent : ∀ l id, w.hasLoaded l id = true → boundBy l id rs = []

theorem records_start (d : DictionaryId) (w : World) : Records d w [] w where
  resolved _ := rfl
  signed _ := (Option.or_none ..).symm
  ordered _ := .nil
  settled _ _ := rfl
  loaded _ _ := ⟨.inl, fun either => either.resolve_right fun some => some rfl⟩
  once _ _ := Nat.zero_le _
  spent _ _ _ := rfl

namespace Records

/-- A session that knows the same of the dictionary and of what is bound. -/
theorem of_same (records : Records d w rs w') (dictionary : w''.dictionary d = w'.dictionary d)
    (loaded : w''.hasLoaded = w'.hasLoaded) : Records d w rs w'' where
  resolved := by rw [dictionary]; exact records.resolved
  signed := by rw [dictionary]; exact records.signed
  ordered := records.ordered
  settled := records.settled
  loaded := by rw [loaded]; exact records.loaded
  once := records.once
  spent := records.spent

/-- While an identifier has no function, none was bound to it. -/
theorem boundTo_eq_nil (records : Records d w rs w') {id : String}
    (free : (w'.dictionary d).resolve? id = none) : boundTo id rs = [] := by
  rw [records.resolved id, Option.or_eq_none_iff] at free
  exact List.getLast?_eq_none_iff.mp free.1

end Records

/-- A further step keeps the order if it declares nothing that is bound. -/
theorem pairwise_concat {id : String}
    (ordered : rs.Pairwise fun earlier later =>
      (earlier.bound? id).isSome → later.declared? id = none)
    (new : boundTo id rs ≠ [] → r.declared? id = none) :
    (rs ++ [r]).Pairwise fun earlier later =>
      (earlier.bound? id).isSome → later.declared? id = none := by
  refine List.pairwise_append.mpr ⟨ordered, List.pairwise_singleton .., ?_⟩
  intro earlier member later last bound
  obtain rfl := List.mem_singleton.mp last
  obtain ⟨f, hf⟩ := Option.isSome_iff_exists.mp bound
  exact new (List.ne_nil_of_mem (List.mem_filterMap.mpr ⟨earlier, member, hf⟩))

theorem Records.refused (records : Records d w rs w') (same : w'' = w')
    (undeclared : ∀ id, r.declared? id = none) (unbound : ∀ id, r.bound? id = none) :
    Records d w (rs ++ [r]) w'' := by
  subst same
  have declares (id : String) : declaredTo id (rs ++ [r]) = declaredTo id rs := by
    rw [declaredTo_concat, undeclared]
    exact List.append_nil _
  have binds (id : String) : boundTo id (rs ++ [r]) = boundTo id rs := by
    rw [boundTo_concat, unbound]
    exact List.append_nil _
  have bindsBy (l : LoaderId) (id : String) : boundBy l id (rs ++ [r]) = boundBy l id rs := by
    rw [boundBy_concat, unbound, Option.toList_none, ite_self, List.append_nil]
  have owns (id : String) : ownSignatures id (rs ++ [r]) = ownSignatures id rs := by
    rw [ownSignatures_concat, unbound]
    exact List.append_nil _
  constructor
  case resolved => simpa only [binds] using records.resolved
  case signed => simpa only [declares, owns] using records.signed
  case ordered => exact fun id => pairwise_concat (records.ordered id) fun _ => undeclared id
  case settled => simpa only [declares] using records.settled
  case loaded => simpa only [bindsBy] using records.loaded
  case once => simpa only [bindsBy] using records.once
  case spent => simpa only [bindsBy] using records.spent

theorem Records.declared (records : Records d w rs w') {id : String} {descriptor : Descriptor}
    (free : (w'.dictionary d).resolve? id = none)
    (dictionary : w''.dictionary d =
      (w'.dictionary d).insert id { descriptor with function := none })
    (loaded : w''.hasLoaded = w'.hasLoaded) :
    Records d w (rs ++ [.declare id descriptor true]) w'' := by
  have declares (key : String) : declaredTo key (rs ++ [.declare id descriptor true]) =
      declaredTo key rs ++ if key = id then [descriptor.signature] else [] := by
    rw [declaredTo_concat, declared?]
    by_cases same : key = id
    · rw [if_pos same, if_pos ⟨rfl, same⟩]
      rfl
    · rw [if_neg same, if_neg fun both => same both.2]
      rfl
  have binds (key : String) : boundTo key (rs ++ [.declare id descriptor true]) =
      boundTo key rs := by
    rw [boundTo_concat]
    exact List.append_nil _
  have bindsBy (l : LoaderId) (key : String) :
      boundBy l key (rs ++ [.declare id descriptor true]) = boundBy l key rs := by
    rw [boundBy_concat]
    exact List.append_nil _
  have owns (key : String) : ownSignatures key (rs ++ [.declare id descriptor true]) =
      ownSignatures key rs := by
    rw [ownSignatures_concat]
    exact List.append_nil _
  constructor
  case resolved =>
    intro key
    rw [binds, dictionary, Dictionary.resolve?_insert, ← records.resolved]
    by_cases same : key = id
    · rw [if_pos same, same, free]
    · rw [if_neg same]
  case signed =>
    intro key
    rw [declares, owns, dictionary, Dictionary.signature?_insert]
    by_cases same : key = id
    · subst same
      rw [if_pos rfl, if_pos rfl, List.getLast?_concat]
      rfl
    · rw [if_neg same, if_neg same, List.append_nil]
      exact records.signed key
  case ordered =>
    intro key
    refine pairwise_concat (records.ordered key) fun bound => if_neg ?_
    rintro ⟨-, rfl⟩
    exact bound (records.boundTo_eq_nil free)
  case settled =>
    intro key resolved
    rw [declares, records.settled key resolved]
    refine if_neg ?_
    rintro rfl
    rw [records.resolved key, Option.or_eq_none_iff] at free
    rw [free.2] at resolved
    cases resolved
  case loaded => simpa only [bindsBy, loaded] using records.loaded
  case once => simpa only [bindsBy] using records.once
  case spent => simpa only [bindsBy] using records.spent

theorem Records.bound (records : Records d w rs w') {l : LoaderId} {id name : String}
    {parameters : List String} {f : ObjectId} (through : r.loader? = some l)
    (undeclared : ∀ key, r.declared? key = none)
    (binds : ∀ key, r.bound? key = if key = id then some f else none)
    (own : r.signature? = some (name, parameters)) (unloaded : w'.hasLoaded l id = false)
    (dictionary : w''.dictionary d = (w'.dictionary d).bind id name parameters f)
    (loaded : ∀ other key, w''.hasLoaded other key = true ↔
      w'.hasLoaded other key = true ∨ other = l ∧ key = id) :
    Records d w (rs ++ [r]) w'' := by
  have declares (key : String) : declaredTo key (rs ++ [r]) = declaredTo key rs := by
    rw [declaredTo_concat, undeclared]
    exact List.append_nil _
  have fresh : w.hasLoaded l id ≠ true ∧ boundBy l id rs = [] := by
    rw [← Decidable.not_not (p := boundBy l id rs = []), ← not_or, ← Ne, ← records.loaded, unloaded]
    exact Bool.false_ne_true
  have bindsBy (other : LoaderId) (key : String) : boundBy other key (rs ++ [r]) =
      boundBy other key rs ++ if other = l ∧ key = id then [f] else [] := by
    rw [boundBy_concat, through, binds]
    by_cases this : l = other
    · by_cases here : key = id
      · rw [if_pos (congrArg some this), if_pos here, if_pos ⟨this.symm, here⟩, Option.toList_some]
      · rw [if_pos (congrArg some this), if_neg here, if_neg fun both => here both.2,
          Option.toList_none]
    · rw [if_neg fun same => this (Option.some.inj same), if_neg fun both => this both.1.symm]
  constructor
  case resolved =>
    intro key
    rw [boundTo_concat, binds, dictionary, Dictionary.resolve?_bind]
    by_cases same : key = id
    · rw [if_pos same, if_pos same, Option.toList_some, List.getLast?_concat]
      rfl
    · rw [if_neg same, if_neg same, Option.toList_none, List.append_nil]
      exact records.resolved key
  case signed =>
    intro key
    rw [declares, ownSignatures_concat, binds, dictionary, Dictionary.signature?_bind]
    by_cases same : key = id
    · subst same
      rw [if_pos rfl, if_pos rfl, records.signed, Option.bind_some, own, Option.toList_some,
        List.head?_append, Option.or_assoc, Option.or_assoc]
      rfl
    · rw [if_neg same, if_neg same, Option.bind_none, Option.toList_none, List.append_nil]
      exact records.signed key
  case ordered => exact fun key => pairwise_concat (records.ordered key) fun _ => undeclared key
  case settled => simpa only [declares] using records.settled
  case loaded =>
    intro other key
    rw [loaded, records.loaded, bindsBy]
    by_cases here : other = l ∧ key = id
    · rw [if_pos here]
      exact ⟨fun _ => .inr (List.append_ne_nil_of_right_ne_nil _ (List.cons_ne_nil f [])),
        fun _ => .inr here⟩
    · rw [if_neg here, List.append_nil]
      exact ⟨fun either => either.resolve_right here, .inl⟩
  case once =>
    intro other key
    rw [bindsBy]
    by_cases here : other = l ∧ key = id
    · rw [if_pos here, here.1, here.2, fresh.2]
      exact Nat.le_refl 1
    · rw [if_neg here, List.append_nil]
      exact records.once other key
  case spent =>
    intro other key old
    rw [bindsBy, records.spent other key old]
    refine if_neg ?_
    rintro ⟨rfl, rfl⟩
    exact fresh.1 old

theorem Records.step (records : Records d w rs w') (effect : r.Effect d w' w'') :
    Records d w (rs ++ [r]) w'' := by
  cases effect with
  | refused same undeclared unbound => exact records.refused same undeclared unbound
  | declared id descriptor told free dictionary loaded =>
    subst told
    exact records.declared free dictionary loaded
  | bound l id name parameters f through undeclared binds own unloaded dictionary loaded =>
    exact records.bound through undeclared binds own unloaded dictionary loaded

theorem History.size_dictionaries (history : History d w rs w') :
    w'.dictionaries.size = w.dictionaries.size := by
  induction history with
  | start => rfl
  | newLoader _ _ _ ih => exact ih
  | step _ registers ih => rw [registers.size_dictionaries, ih]

theorem History.records (inside : d < w.dictionaries.size) (history : History d w rs w') :
    Records d w rs w' := by
  induction history with
  | start => exact records_start d w
  | newLoader _ config global ih => exact ih.of_same rfl (World.hasLoaded_newLoader ..)
  | step before registers ih =>
    refine ih.step (registers.effect ?_)
    rwa [before.size_dictionaries]

/-! ## Identifiers with a function -/

theorem Registration.loader?_of_bound? {id : String} {f : ObjectId} (bound : r.bound? id = some f) :
    ∃ l, r.loader? = some l := by
  cases r with
  | declare => cases bound
  | load l => exact ⟨l, rfl⟩
  | defineNative l => exact ⟨l, rfl⟩

/-- Nothing is bound where every loader has bound the identifier before. -/
theorem Records.boundTo_eq_nil_of_hasLoaded (records : Records d w rs w') {id : String}
    (spent : ∀ r ∈ rs, ∀ l, r.loader? = some l → w.hasLoaded l id = true) :
    boundTo id rs = [] := by
  refine List.eq_nil_iff_forall_not_mem.mpr fun f member => ?_
  obtain ⟨r, here, bound⟩ := List.mem_filterMap.mp member
  obtain ⟨l, through⟩ := loader?_of_bound? bound
  have kept : r ∈ rs.filter (·.loader? = some l) :=
    List.mem_filter.mpr ⟨here, decide_eq_true through⟩
  have bounds : f ∈ boundBy l id rs := List.mem_filterMap.mpr ⟨r, kept, bound⟩
  rw [records.spent l id (spent r here l through)] at bounds
  cases bounds

theorem inside_of_resolve? {id : String} {f : ObjectId}
    (resolved : (w.dictionary d).resolve? id = some f) : d < w.dictionaries.size := by
  refine Decidable.byContradiction fun outside => ?_
  rw [World.dictionary, Array.getElem?_eq_none (Nat.le_of_not_lt outside)] at resolved
  cases resolved

theorem Dictionary.exists_signature? {dictionary : Dictionary} {id : String} {f : ObjectId}
    (resolved : dictionary.resolve? id = some f) :
    ∃ signature, dictionary.signature? id = some signature := by
  obtain ⟨descriptor, known, -⟩ := Option.bind_eq_some_iff.mp resolved
  exact ⟨descriptor.signature, by rw [signature?, known, Option.map_some]⟩

/-- From the time an identifier has a function, its name and its parameters stay whatever is
declared, loaded and defined, and it has a function. That is the last one that was bound since, by
loaders that had not bound the identifier; where all loaders had, it is the old one. -/
theorem signature?_and_resolve?_of_resolved {id : String} {f : ObjectId}
    (resolved : (w.dictionary d).resolve? id = some f) (history : History d w rs w') :
    (w'.dictionary d).signature? id = (w.dictionary d).signature? id ∧
      (w'.dictionary d).resolve? id = some ((boundTo id rs).getLast?.getD f) ∧
      (∀ l, w.hasLoaded l id = true → boundBy l id rs = []) ∧
      ((∀ r ∈ rs, ∀ l, r.loader? = some l → w.hasLoaded l id = true) →
        (w'.dictionary d).resolve? id = some f) := by
  have records := history.records (inside_of_resolve? resolved)
  have latest : (w'.dictionary d).resolve? id = some ((boundTo id rs).getLast?.getD f) := by
    rw [records.resolved, resolved]
    cases (boundTo id rs).getLast? <;> rfl
  refine ⟨?_, latest, fun l => records.spent l id, fun spent => ?_⟩
  · obtain ⟨signature, known⟩ := Dictionary.exists_signature? resolved
    have bound : ((w.dictionary d).resolve? id).isSome := Option.isSome_of_eq_some resolved
    rw [records.signed, records.settled id bound, known]
    rfl
  · rw [latest, records.boundTo_eq_nil_of_hasLoaded spent]
    rfl

/-- A session with two loaders on one dictionary. -/
def sharedByTwo : World :=
  let (global, w) := World.empty.allocWith (·.newObject none)
  let (d, w) := w.newDictionary
  let (_, w) := w.newLoader {} d global
  (w.newLoader {} d global).2

/-- Native code that does nothing. -/
def idle : Handle := .variadic fun _ => .done (.ok .undefined)

/-- The first of the two loaders has bound `f`. -/
def boundByFirst : World := (sharedByTwo.defineNative 0 ⟨{}, 0, 0, 0, []⟩ "f" "f" idle).2

/-- The second one has bound it again. -/
def boundBySecond : World := (boundByFirst.defineNative 1 ⟨{}, 0, 0, 0, []⟩ "f" "g" idle).2

theorem history_boundByFirst :
    History 0 sharedByTwo [.defineNative 0 "f" "f" idle (.ok 1)] boundByFirst :=
  .step .start (.defineNative (show sharedByTwo.loaders[0]? = some ⟨{}, 0, 0, 0, []⟩ from rfl) rfl
    "f" "f" idle)

theorem history_boundBySecond :
    History 0 boundByFirst [.defineNative 1 "f" "g" idle (.ok 2)] boundBySecond :=
  .step .start (.defineNative (show boundByFirst.loaders[1]? = some ⟨{}, 0, 0, 0, []⟩ from rfl) rfl
    "f" "g" idle)

theorem resolve?_boundByFirst : (boundByFirst.dictionary 0).resolve? "f" = some 1 := by
  decide +kernel

theorem resolve?_boundBySecond : (boundBySecond.dictionary 0).resolve? "f" = some 2 := by
  decide +kernel

theorem signature?_and_resolve?_of_resolved_shared :
    (boundByFirst.dictionary 0).resolve? "f" = some 1 ∧
      History 0 boundByFirst [.defineNative 1 "f" "g" idle (.ok 2)] boundBySecond ∧
      (boundBySecond.dictionary 0).signature? "f" = (boundByFirst.dictionary 0).signature? "f" ∧
      (boundBySecond.dictionary 0).resolve? "f" = some 2 :=
  have laws := signature?_and_resolve?_of_resolved resolve?_boundByFirst history_boundBySecond
  ⟨resolve?_boundByFirst, history_boundBySecond, laws.1, laws.2.1⟩

/-- The second loader does not know what the first one has bound, so it gives the identifier
another function. -/
theorem not_resolve?_stays :
    ¬ ∀ (rs rs' : List Registration) (w w' : World) (id : String) (f : ObjectId),
      History 0 sharedByTwo rs w → (w.dictionary 0).resolve? id = some f → History 0 w rs' w' →
        (w'.dictionary 0).resolve? id = some f := by
  intro stays
  have same := stays _ _ _ _ "f" 1 history_boundByFirst resolve?_boundByFirst history_boundBySecond
  rw [resolve?_boundBySecond] at same
  cases same

/-! ## One loader -/

/-- A loader binds no identifier twice, and nothing is declared that is bound. -/
theorem Registers.refused {l : LoaderId} {id : String} (registers : Registers d w r w')
    (loaded : w.hasLoaded l id = true) (bound : ((w.dictionary d).resolve? id).isSome = true)
    (here : r.id = id) (alone : ∀ other, r.loader? = some other → other = l) :
    r.Refused ∧ w' = w := by
  subst here
  cases registers with
  | declare id descriptor =>
    have declined : (w.dictionary d).declare id descriptor = (false, w.dictionary d) := if_pos bound
    rw [declined]
    exact ⟨rfl, w.setDictionary_dictionary d⟩
  | @load other loader found on id payload =>
    obtain rfl := alone other rfl
    have marked : World.isLoaded loader id = true := (World.hasLoaded_eq found id).symm.trans loaded
    rw [World.load, World.accept_of_isLoaded marked]
    exact ⟨rfl, rfl⟩
  | @defineNative other loader found on id name handle =>
    obtain rfl := alone other rfl
    have marked : World.isLoaded loader id = true := (World.hasLoaded_eq found id).symm.trans loaded
    rw [World.defineNative, World.acceptNative_of_isLoaded marked]
    exact ⟨rfl, rfl⟩

/-- A session in which a loader has just been made with a dictionary of its own. -/
def World.withLoader (w : World) (config : Config) (global : ObjectId) : World :=
  (w.newDictionary.2.newLoader config w.dictionaries.size global).2

/-- A session with an object and a loader that runs units against it. -/
def loaderAtStart : World := (World.empty.allocWith (·.newObject none)).2.withLoader {} 0

/-- Native code with one parameter that does nothing. -/
def idleWithOne : Handle := .fixed 2 fun _ => .done (.ok .undefined)

def withDeclared : World := loaderAtStart.setDictionary 0
  ((loaderAtStart.dictionary 0).declare "f" ⟨"declared", ["x"], some 0⟩).2

def withDefined : World :=
  (withDeclared.defineNative 0 ⟨{}, 0, 0, 0, []⟩ "f" "own" idleWithOne).2

end ProtoVM
