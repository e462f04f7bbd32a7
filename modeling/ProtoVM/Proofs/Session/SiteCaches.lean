import Mathlib
import ProtoVM.Proofs.Bytecode.ListedOffsets
import ProtoVM.Proofs.Object.HeapOperations
import ProtoVM.Session.World

/-!
# Caches at property sites

Three walks go over the code of a unit: the code check, the listing, and the one that finds the
property sites when the unit is bound. Over code that the check accepts they visit the same offsets,
and a bound unit has a property cache at each instruction that reads a property, and nowhere else.
-/

namespace ProtoVM

open WholeInstruction

/-! ## Starts -/

theorem Opcode.byte_inj {op op' : Opcode} (h : op.byte = op'.byte) : op = op' := by
  have same := Opcode.ofByte?_byte op
  rw [h, Opcode.ofByte?_byte] at same
  exact (Option.some.inj same).symm

namespace WholeInstruction

/-- The opcode of an instruction is read where it starts. -/
theorem getElem?_codeOf (before : List WholeInstruction) (i : WholeInstruction)
    (after : List WholeInstruction) :
    (codeOf (before ++ i :: after))[(codeOf before).length]? = some i.op.byte := by
  rw [Build.codeOf_append, codeOf_cons, List.getElem?_append_right (Nat.le_refl _), Nat.sub_self]
  rfl

theorem map_offset_linesOf (offset : Nat) (is : List WholeInstruction) :
    (linesOf offset is).map (·.offset) = (CodeUnit.mapOf offset is).starts := by
  induction is generalizing offset with
  | nil => rfl
  | cons i is ih => rw [linesOf, List.map_cons, ih, CodeUnit.mapOf]

end WholeInstruction

namespace CodeUnit

variable {u : CodeUnit}

theorem wellFormed_of_check (accepted : u.check = .ok ()) : u.WellFormed := by
  rcases u.wellFormed_or_firstFault with good | ⟨offset, fault, first⟩
  · exact good
  · rw [check_of_firstFault first] at accepted
    cases accepted

/-! ## The walk for property sites -/

/-- The offsets that the walk for property sites visits, each with the key that is read there. -/
def visitsFrom (u : CodeUnit) (offset : Nat) : Code → List (Nat × Option String)
  | [] => []
  | byte :: rest =>
    match Opcode.ofByte? byte with
    | none => [(offset, none)]
    | some op =>
      let width := op.length - 1
      let key :=
        if op = .getProperty then u.stringAt? (Code.ofBigEndian (rest.take width)) else none
      (offset, key) :: u.visitsFrom (offset + op.length) (rest.drop width)
termination_by code => code.length
decreasing_by simp only [List.length_drop, List.length_cons]; omega

/-- The site at an offset that was visited. -/
def site? (visit : Nat × Option String) : Option PropertySite := visit.2.map (⟨visit.1, ·⟩)

/-- A visit without a key is no site. -/
@[simp] theorem filterMap_site?_none (offset : Nat) (visits : List (Nat × Option String)) :
    ((offset, none) :: visits).filterMap site? = visits.filterMap site? :=
  List.filterMap_cons_none rfl

@[simp] theorem filterMap_site?_some (offset : Nat) (key : String)
    (visits : List (Nat × Option String)) :
    ((offset, some key) :: visits).filterMap site? = ⟨offset, key⟩ :: visits.filterMap site? :=
  List.filterMap_cons_some rfl

/-- The property sites are the visits that found a key. -/
theorem sitesFrom_eq (u : CodeUnit) (offset : Nat) (code : Code) :
    u.sitesFrom offset code = (u.visitsFrom offset code).filterMap site? := by
  fun_induction sitesFrom u offset code with
  | case1 => simp [visitsFrom]
  | case2 offset byte rest unknown => simp [visitsFrom, unknown]
  | case3 offset byte rest key opcode width later named ih =>
    simp [visitsFrom, opcode, named, later, ih, width]
  | case4 offset byte rest opcode width later unnamed ih =>
    simp [visitsFrom, opcode, unnamed, later, ih, width]
  | case5 offset byte rest op opcode width later other ih =>
    simp [visitsFrom, opcode, other, later, ih, width]

/-- The key that an instruction reads. -/
def keyOf? (u : CodeUnit) (i : WholeInstruction) : Option String :=
  if i.op = .getProperty then u.stringAt? i.operand else none

theorem keyOf?_eq_some_iff {i : WholeInstruction} {key : String} :
    u.keyOf? i = some key ↔ i.op = .getProperty ∧ u.constants[i.operand]? = some (.str key) := by
  rw [keyOf?]
  by_cases reads : i.op = .getProperty
  · rw [if_pos reads, stringAt?, Option.bind_eq_some_iff]
    constructor
    · rintro ⟨c, found, string⟩
      cases c with
      | str s => exact ⟨reads, Option.some.inj string ▸ found⟩
      | _ => cases string
    · exact fun found => ⟨.str key, found.2, rfl⟩
  · simp [reads]

theorem visitsFrom_bytes_append (i : WholeInstruction) (offset : Nat) (rest : Code) :
    u.visitsFrom offset (i.bytes ++ rest) =
      (offset, u.keyOf? i) :: u.visitsFrom (offset + i.op.length) rest := by
  have taken : (i.operands ++ rest).take (i.op.length - 1) = i.operands :=
    List.take_left' i.complete
  have left : (i.operands ++ rest).drop (i.op.length - 1) = rest := List.drop_left' i.complete
  rw [bytes, List.cons_append, visitsFrom, Opcode.ofByte?_byte]
  simp only [taken, left]
  rfl

theorem map_fst_visitsFrom_codeOf (offset : Nat) (is : List WholeInstruction) :
    (u.visitsFrom offset (codeOf is)).map Prod.fst = (mapOf offset is).starts := by
  induction is generalizing offset with
  | nil => simp [codeOf, visitsFrom, mapOf]
  | cons i is ih => rw [codeOf_cons, visitsFrom_bytes_append, List.map_cons, ih, mapOf]

/-- At the start of an instruction the walk finds the key that it reads. -/
theorem lookup_visitsFrom_codeOf (before : List WholeInstruction) (i : WholeInstruction)
    (after : List WholeInstruction) (offset : Nat) :
    (u.visitsFrom offset (codeOf (before ++ i :: after))).lookup
      (offset + (codeOf before).length) = some (u.keyOf? i) := by
  induction before generalizing offset with
  | nil =>
    rw [List.nil_append, codeOf_cons, visitsFrom_bytes_append]
    exact List.lookup_cons_self
  | cons first before ih =>
    have later : offset + (codeOf (first :: before)).length ≠ offset := by
      have := first.op.length_pos
      rw [length_codeOf_cons]
      omega
    rw [List.cons_append, codeOf_cons first (before ++ i :: after), visitsFrom_bytes_append,
      List.lookup_cons, beq_false_of_ne later, length_codeOf_cons, ← Nat.add_assoc]
    exact ih _

/-- Each visit that found a key has a cache of its own. -/
theorem lookup_bank {visits : List (Nat × Option String)}
    (ordered : (visits.map Prod.fst).Pairwise (· < ·)) (offset : Nat) :
    ((visits.filterMap site?).map fun site => (site.offset, PropertyCache.new site.key)).lookup
      offset = (visits.lookup offset).join.map .new := by
  induction visits with
  | nil => rfl
  | cons visit visits ih =>
    obtain ⟨place, key⟩ := visit
    obtain ⟨first, later⟩ := List.pairwise_cons.mp ordered
    by_cases here : offset = place
    · subst here
      cases key with
      | some key => simp
      | none =>
        -- no later visit comes back to this offset
        have passed : visits.lookup offset = none := by
          refine List.lookup_eq_none_iff.mpr fun visit mem => ?_
          have := first visit.1 (List.mem_map_of_mem mem)
          simpa using Nat.ne_of_lt this
        simp [ih later, passed]
    · have other : (offset == place) = false := beq_false_of_ne here
      cases key with
      | some key => simp [List.lookup_cons, other, ih later]
      | none => simp [List.lookup_cons, other, ih later]

end CodeUnit

/-! ## The caches of a bound unit -/

namespace World

/-- The property cache that the unit of a function has at an offset. -/
def siteCache? (w : World) (function : ObjectId) (offset : Nat) : Option PropertyCache :=
  (w.heap.handle function).unit?.bind (w.unitCache? · offset)

theorem siteCache?_install (w : World) (l : LoaderId) (loader : Loader) (id : String)
    (u : CodeUnit) (offset : Nat) :
    (w.install l loader id u).2.siteCache? (w.install l loader id u).1 offset =
      (u.propertySites.map fun site => (site.offset, PropertyCache.new site.key)).lookup
        offset := by
  have handle := w.heap.handle_newFunction u.name (.interpreted ⟨w.banks.size, id, u, l⟩)
  have bound : ((w.install l loader id u).2.heap.handle (w.install l loader id u).1).unit? =
      some ⟨w.banks.size, id, u, l⟩ := congrArg Handle.unit? handle
  have banks : (w.install l loader id u).2.banks = (w.addBank u).banks := rfl
  simp [siteCache?, bound, unitCache?, banks, addBank]

end World

namespace CodeUnit

variable {u : CodeUnit}

/-- The walks over the code of a unit visit the same offsets. -/
structure WalksAgree (u : CodeUnit) (starts : List Nat) : Prop where
  checked : ∃ jumps, u.mapFrom 0 u.code = .ok ⟨starts, jumps⟩
  listed : (Code.linesFrom 0 u.code).map (·.offset) = starts
  visited : (u.visitsFrom 0 u.code).map Prod.fst = starts
  /-- The visits are those that the property sites are found in. -/
  sites : u.propertySites = (u.visitsFrom 0 u.code).filterMap site?

/-- There is a cache at each instruction that reads a property, for the key that it reads. -/
structure CachesSites (u : CodeUnit) (starts : List Nat) (cache? : Nat → Option PropertyCache) :
    Prop where
  cached : ∀ offset, (∃ cache, cache? offset = some cache) ↔
    offset ∈ starts ∧ u.code[offset]? = some Opcode.getProperty.byte
  keyed : ∀ offset cache, cache? offset = some cache → ∃ index key,
    u.code.operandAt? (offset + 1) 2 = some index ∧ u.constants[index]? = some (.str key) ∧
      cache = .new key

theorem walksAgree_codeOf {is : List WholeInstruction} (code : u.code = codeOf is)
    (sound : ∀ i ∈ is, u.Refers i) : u.WalksAgree (mapOf 0 is).starts where
  checked := ⟨_, code ▸ mapFrom_codeOf sound 0⟩
  listed := by rw [code, linesFrom_codeOf, map_offset_linesOf]
  visited := by rw [code, map_fst_visitsFrom_codeOf]
  sites := sitesFrom_eq u 0 u.code

/-- The caches are found at the visits. -/
theorem siteCache?_install_eq {is : List WholeInstruction} (code : u.code = codeOf is) (w : World)
    (l : LoaderId) (loader : Loader) (id : String) (offset : Nat) :
    (w.install l loader id u).2.siteCache? (w.install l loader id u).1 offset =
      ((u.visitsFrom 0 (codeOf is)).lookup offset).join.map .new := by
  have ordered : ((u.visitsFrom 0 (codeOf is)).map Prod.fst).Pairwise (· < ·) := by
    rw [map_fst_visitsFrom_codeOf]
    exact Build.pairwise_starts_mapOf is 0
  rw [World.siteCache?_install, propertySites, sitesFrom_eq, code, lookup_bank ordered]

/-- Each cache belongs to an instruction that reads a property, and each of those has one. -/
theorem siteCache?_install_eq_some_iff {is : List WholeInstruction} (code : u.code = codeOf is)
    (w : World) (l : LoaderId) (loader : Loader) (id : String) {offset : Nat}
    {cache : PropertyCache} :
    (w.install l loader id u).2.siteCache? (w.install l loader id u).1 offset = some cache ↔
      ∃ before i after key, is = before ++ i :: after ∧ offset = (codeOf before).length ∧
        u.keyOf? i = some key ∧ cache = .new key := by
  rw [siteCache?_install_eq code]
  constructor
  · intro found
    obtain ⟨key, visit, rfl⟩ := Option.map_eq_some_iff.mp found
    have visited := Option.join_eq_some_iff.mp visit
    have start : offset ∈ (mapOf 0 is).starts := by
      rw [← map_fst_visitsFrom_codeOf (u := u)]
      obtain ⟨before, after, visits, -⟩ := List.lookup_eq_some_iff.mp visited
      simp [visits]
    obtain ⟨before, i, after, rfl, rfl⟩ := mem_starts_mapOf.mp start
    rw [lookup_visitsFrom_codeOf] at visited
    exact ⟨before, i, after, key, rfl, Nat.zero_add _, Option.some.inj visited, rfl⟩
  · rintro ⟨before, i, after, key, rfl, rfl, reads, rfl⟩
    have visited := lookup_visitsFrom_codeOf (u := u) before i after 0
    rw [Nat.zero_add, reads] at visited
    simp [visited]

theorem cachesSites_codeOf {is : List WholeInstruction} (code : u.code = codeOf is)
    (sound : ∀ i ∈ is, u.Refers i) (w : World) (l : LoaderId) (loader : Loader) (id : String) :
    u.CachesSites (mapOf 0 is).starts
      ((w.install l loader id u).2.siteCache? (w.install l loader id u).1) := by
  constructor
  case cached =>
    intro offset
    simp only [siteCache?_install_eq_some_iff code]
    constructor
    · rintro ⟨cache, before, i, after, key, rfl, rfl, reads, -⟩
      refine ⟨mem_starts_mapOf.mpr ⟨before, i, after, rfl, (Nat.zero_add _).symm⟩, ?_⟩
      rw [code, getElem?_codeOf, (keyOf?_eq_some_iff.mp reads).1]
    · rintro ⟨start, opcode⟩
      obtain ⟨before, i, after, rfl, rfl⟩ := mem_starts_mapOf.mp start
      rw [code, Nat.zero_add, getElem?_codeOf] at opcode
      have reads := Opcode.byte_inj (Option.some.inj opcode)
      -- the check has found a string in the pool
      obtain ⟨key, found⟩ := (sound i (by simp)).name (by rw [reads]; rfl)
      exact ⟨.new key, before, i, after, key, rfl, Nat.zero_add _,
        keyOf?_eq_some_iff.mpr ⟨reads, found⟩, rfl⟩
  case keyed =>
    intro offset cache found
    obtain ⟨before, i, after, key, rfl, rfl, reads, rfl⟩ :=
      (siteCache?_install_eq_some_iff code w l loader id).mp found
    obtain ⟨opcode, string⟩ := keyOf?_eq_some_iff.mp reads
    have operand := operandAt?_codeOf before i after
    rw [← code, opcode] at operand
    exact ⟨i.operand, key, operand, string, rfl⟩

/-- Any bytes are listed without a read outside of them, and each byte is on exactly one line. Over
code that the check accepts, the listing, the check and the walk for property sites visit the same
offsets, and a unit that is bound has its caches at the instructions that read a property. -/
theorem listed_and_walksAgree_of_check :
    (∀ code : Code, code.Listed (Code.linesFrom 0 code)) ∧
    ∀ u : CodeUnit, u.check = .ok () → ∃ starts, u.WalksAgree starts ∧
      ∀ (w : World) (l : LoaderId) (loader : Loader) (id : String),
        u.CachesSites starts
          ((w.install l loader id u).2.siteCache? (w.install l loader id u).1) := by
  refine ⟨Code.listed, fun u accepted => ?_⟩
  obtain ⟨is, code, sound, -⟩ := wellFormed_of_check accepted
  exact ⟨_, walksAgree_codeOf code sound, cachesSites_codeOf code sound⟩

/-- A unit that reads a property of its receiver. -/
def readingUnit : CodeUnit :=
  ⟨"f", [], [.str "x"], Code.instruction .receiver [] ++ Code.instruction .getProperty [0] ++
    Code.instruction .ret []⟩

/-- Its property is read at the second of three instructions. -/
theorem listed_and_walksAgree_readingUnit :
    readingUnit.check = .ok () ∧ readingUnit.code.Listed (Code.linesFrom 0 readingUnit.code) ∧
    readingUnit.WalksAgree [0, 1, 4] ∧
      ∀ (w : World) (l : LoaderId) (loader : Loader) (id : String),
        readingUnit.CachesSites [0, 1, 4]
          ((w.install l loader id readingUnit).2.siteCache?
            (w.install l loader id readingUnit).1) := by
  have accepted : readingUnit.check = .ok () := by cbv
  have walk : readingUnit.mapFrom 0 readingUnit.code = .ok ⟨[0, 1, 4], []⟩ := by cbv
  obtain ⟨starts, agree, caches⟩ := listed_and_walksAgree_of_check.2 readingUnit accepted
  obtain ⟨jumps, checked⟩ := agree.checked
  obtain rfl : starts = [0, 1, 4] := by
    rw [walk] at checked
    cases checked
    rfl
  exact ⟨accepted, listed_and_walksAgree_of_check.1 readingUnit.code, agree, caches⟩

end CodeUnit

end ProtoVM
