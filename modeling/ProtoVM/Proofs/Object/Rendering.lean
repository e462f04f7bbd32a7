import Mathlib
import ProtoVM.Object.Render
import ProtoVM.Proofs.Object.HeapOperations

/-!
# What the text of an object is

The text of an object is put together from texts and from the objects that its properties hold and
that it inherits from (`Heap.pieces`). To unfold it is to put the text of each of these objects in
its place, unless the object is being unfolded already, which is when it is only named
(`Heap.Unfolds`). On a heap where every reference leads to an object there is one unfolding, however
the objects refer to each other, and it is what `Heap.render` gives.
-/

namespace ProtoVM

/-- A part of the text of an object. -/
inductive Piece where
  | text (s : String)
  | object (o : ObjectId)

def Piece.ofValue : Value → Piece
  | .object o => .object o
  | v => .text (v.text fun _ => "")

def Piece.ofProto : Option ObjectId → Piece
  | none => .text "null"
  | some p => .object p

namespace Heap

/-- The parts of the line of a property. -/
def line (entry : String × Value) : List Piece :=
  [.text ("  " ++ entry.1 ++ ": "), .ofValue entry.2, .text "\n"]

/-- The parts that the text of an object has. -/
def pieces (h : Heap) (o : ObjectId) : List Piece :=
  .text ("\x7b // " ++ h.label o ++ "\n") ::
    ((h.entries o).flatMap line ++ [.text "  proto: ", .ofProto (h.proto? o), .text "\n\x7d"])

/-- The text of some pieces, and how deep in it objects are nested, below the objects `above`. An
object is unfolded just when it is not one of those. -/
inductive Unfolds (h : Heap) : List ObjectId → List Piece → String → Nat → Prop
  | nil {above : List ObjectId} : h.Unfolds above [] "" 0
  | text {above : List ObjectId} {rest : List Piece} {t : String} {depth : Nat} (s : String)
      (after : h.Unfolds above rest t depth) : h.Unfolds above (.text s :: rest) (s ++ t) depth
  | named {above : List ObjectId} {o : ObjectId} {rest : List Piece} {t : String} {depth : Nat}
      (mem : o ∈ above) (after : h.Unfolds above rest t depth) :
      h.Unfolds above (.object o :: rest) ("... // " ++ h.label o ++ t) depth
  | full {above : List ObjectId} {o : ObjectId} {rest : List Piece} {s t : String}
      {inner depth : Nat} (fresh : o ∉ above) (within : h.Unfolds (o :: above) (h.pieces o) s inner)
      (after : h.Unfolds above rest t depth) :
      h.Unfolds above (.object o :: rest) (s ++ t) (max (inner + 1) depth)

/-- An object refers to the objects that its properties hold and to its prototype. -/
def Refers (h : Heap) (o p : ObjectId) : Prop :=
  (∃ key, (key, .object p) ∈ h.entries o) ∨ h.proto? o = some p

/-- What an object refers to is there. -/
def Complete (h : Heap) : Prop := ∀ o p, h.Refers o p → h.contains p

/-- The objects that can be come to from an object, itself among them. -/
def reachable (h : Heap) (o : ObjectId) : Set ObjectId := {p | Relation.ReflTransGen h.Refers o p}

variable {h : Heap} {o p : ObjectId} {above : List ObjectId} {ps qs : List Piece}
  {s t : String} {d e : Nat}

/-! ## References -/

theorem object_mem_line {entry : String × Value} :
    .object p ∈ line entry ↔ entry.2 = .object p := by
  obtain ⟨key, value⟩ := entry
  cases value <;> simp [line, Piece.ofValue, eq_comm]

theorem object_mem_pieces : .object p ∈ h.pieces o ↔ h.Refers o p := by
  have proto : .object p = Piece.ofProto (h.proto? o) ↔ h.proto? o = some p := by
    cases h.proto? o <;> simp [Piece.ofProto, eq_comm]
  have entries : (∃ entry ∈ h.entries o, .object p ∈ line entry) ↔
      ∃ key, (key, .object p) ∈ h.entries o := by
    simp only [object_mem_line]
    constructor
    · rintro ⟨⟨key, value⟩, mem, rfl⟩
      exact ⟨key, mem⟩
    · rintro ⟨key, mem⟩
      exact ⟨(key, .object p), mem, rfl⟩
  simp [pieces, Refers, proto, entries]

theorem Sound.complete (sound : h.Sound) : h.Complete := by
  rintro o p (⟨key, mem⟩ | proto)
  · cases found : h.get? o with
    | none => simp [entries, found] at mem
    | some object =>
      simp only [entries, found, Option.map_some, Option.getD_some] at mem
      exact sound.values o object found _ (List.of_mem_zip mem).2
  · obtain ⟨object, found, same⟩ := Option.bind_eq_some_iff.mp proto
    have older := sound.protos o object p found same
    have present := contains_of_get? found
    rw [contains, decide_eq_true_iff] at present ⊢
    exact Nat.lt_trans older present

theorem Complete.contains_of_mem_reachable (complete : h.Complete) (present : h.contains o)
    (reached : p ∈ h.reachable o) : h.contains p := by
  cases reached with
  | refl => exact present
  | tail _ refers => exact complete _ _ refers

theorem Complete.finite_reachable (complete : h.Complete) (present : h.contains o) :
    (h.reachable o).Finite := by
  refine (Set.finite_lt_nat h.size).subset ?_
  intro p reached
  exact of_decide_eq_true (complete.contains_of_mem_reachable present reached)

/-! ## Unfoldings -/

namespace Unfolds

theorem append (first : h.Unfolds above ps s d) (second : h.Unfolds above qs t e) :
    h.Unfolds above (ps ++ qs) (s ++ t) (max d e) := by
  induction first with
  | nil => simpa using second
  | text s _ ih =>
    rw [List.cons_append, String.append_assoc]
    exact .text s (ih second)
  | named mem _ ih =>
    rw [List.cons_append, String.append_assoc]
    exact .named mem (ih second)
  | full fresh within _ _ ih =>
    rw [List.cons_append, String.append_assoc, max_assoc]
    exact .full fresh within (ih second)

/-- Pieces have one text and one depth. -/
theorem unique (first : h.Unfolds above ps s d) (second : h.Unfolds above ps t e) :
    t = s ∧ e = d := by
  induction first generalizing t e with
  | nil =>
    cases second
    exact ⟨rfl, rfl⟩
  | text _ _ ih =>
    cases second with
    | text _ after =>
      obtain ⟨rfl, rfl⟩ := ih after
      exact ⟨rfl, rfl⟩
  | named mem _ ih =>
    cases second with
    | named _ after =>
      obtain ⟨rfl, rfl⟩ := ih after
      exact ⟨rfl, rfl⟩
    | full fresh => exact absurd mem fresh
  | full fresh _ _ within ih =>
    cases second with
    | named mem => exact absurd mem fresh
    | full _ within' after =>
      obtain ⟨rfl, rfl⟩ := within within'
      obtain ⟨rfl, rfl⟩ := ih after
      exact ⟨rfl, rfl⟩

/-- Which objects are being unfolded matters only for those that can be come to. -/
theorem of_agree {others : List ObjectId} (unfolds : h.Unfolds above ps s d)
    (agree : ∀ o, .object o ∈ ps → ∀ p ∈ h.reachable o, p ∈ others ↔ p ∈ above) :
    h.Unfolds others ps s d := by
  induction unfolds generalizing others with
  | nil => exact .nil
  | text s _ ih => exact .text s (ih fun o mem => agree o (List.mem_cons_of_mem _ mem))
  | @named _ o _ _ _ mem _ ih =>
    have same := agree o List.mem_cons_self o .refl
    exact .named (same.mpr mem) (ih fun o mem => agree o (List.mem_cons_of_mem _ mem))
  | @full _ o _ _ _ _ _ fresh _ _ within ih =>
    have same := agree o List.mem_cons_self
    refine .full (mt (same o .refl).mp fresh) (within ?_)
      (ih fun o mem => agree o (List.mem_cons_of_mem _ mem))
    intro q mem p reached
    have below : p ∈ h.reachable o := .head (object_mem_pieces.mp mem) reached
    rw [List.mem_cons, List.mem_cons, same p below]

/-- Objects that are nested are different, so together with those above they are no more than any
objects that contain them and what they refer to. -/
theorem depth_le {objects : Finset ObjectId} (unfolds : h.Unfolds above ps s d)
    (stays : ∀ p ∈ objects, ∀ q, h.Refers p q → q ∈ objects) (nodup : above.Nodup)
    (inside : ∀ p ∈ above, p ∈ objects) (starts : ∀ p, .object p ∈ ps → p ∈ objects) :
    d + above.length ≤ objects.card := by
  induction unfolds with
  | nil =>
    rw [Nat.zero_add, ← List.toFinset_card_of_nodup nodup]
    exact Finset.card_le_card fun p mem => inside p (List.mem_toFinset.mp mem)
  | text _ _ ih => exact ih nodup inside fun p mem => starts p (List.mem_cons_of_mem _ mem)
  | named _ _ ih => exact ih nodup inside fun p mem => starts p (List.mem_cons_of_mem _ mem)
  | @full _ o _ _ _ _ _ fresh _ _ within ih =>
    have here := starts o List.mem_cons_self
    have deeper := within (List.nodup_cons.mpr ⟨fresh, nodup⟩)
      (List.forall_mem_cons.mpr ⟨here, inside⟩)
      fun q mem => stays o here q (object_mem_pieces.mp mem)
    have later := ih nodup inside fun p mem => starts p (List.mem_cons_of_mem _ mem)
    rw [List.length_cons] at deeper
    omega

end Unfolds

/-! ## Writing -/

/-- The second rendering goes on from the first one with the text of the pieces. -/
def Writes (h : Heap) (ps : List Piece) (r r' : Rendering) : Prop :=
  ∃ t d, h.Unfolds r.path ps t d ∧ r' = ⟨r.text ++ t, r.path⟩

variable {r r' r'' : Rendering}

theorem Writes.path (writes : h.Writes ps r r') : r'.path = r.path := by
  obtain ⟨_, _, _, rfl⟩ := writes
  rfl

theorem Writes.nil : h.Writes [] r r := ⟨"", 0, .nil, by simp⟩

theorem Writes.text (s : String) : h.Writes [.text s] r (r.write s) :=
  ⟨s ++ "", 0, .text s .nil, by simp [Rendering.write]⟩

theorem Writes.append (first : h.Writes ps r r') (second : h.Writes qs r' r'') :
    h.Writes (ps ++ qs) r r'' := by
  obtain ⟨s, d, unfolds, rfl⟩ := first
  obtain ⟨t, e, unfolds', rfl⟩ := second
  exact ⟨s ++ t, max d e, unfolds.append unfolds', by rw [String.append_assoc]⟩

theorem Writes.write (writes : h.Writes ps r r') (s : String) :
    h.Writes (ps ++ [.text s]) r (r'.write s) := writes.append (.text s)

section

/-! While the objects of the path are being shown, what is written is what the pieces unfold to, if
that is so of each single object. -/

variable {path : List ObjectId}
  (objects : ∀ o, h.contains o → ∀ r : Rendering, r.path = path →
    h.Writes [.object o] r (h.writeObject o r).1)
include objects

theorem writes_value {v : Value} (closed : h.closed v) (same : r.path = path) :
    h.Writes [.ofValue v] r (h.writeValue v r).1 := by
  rw [writeValue.eq_def]
  cases v with
  | object o => exact objects o closed r same
  | _ => exact .text _

theorem writes_proto {proto : Option ObjectId} (present : ∀ p, proto = some p → h.contains p)
    (same : r.path = path) : h.Writes [.ofProto proto] r (h.writeProto proto r).1 := by
  rw [writeProto.eq_def]
  cases proto with
  | none => exact .text _
  | some p => exact objects p (present p rfl) r same

theorem writes_entries {entries : List (String × Value)}
    (closed : ∀ entry ∈ entries, h.closed entry.2) (same : r.path = path) :
    h.Writes (entries.flatMap line) r (h.writeEntries entries r).1 := by
  induction entries generalizing r with
  | nil =>
    rw [writeEntries.eq_def]
    exact .nil
  | cons entry entries ih =>
    rw [writeEntries.eq_def]
    have named : h.Writes [.text ("  " ++ entry.1 ++ ": ")] r _ := .text _
    have shown := writes_value objects (closed entry List.mem_cons_self) (named.path.trans same)
    have whole := (named.append shown).write "\n"
    exact whole.append (ih (fun later mem => closed later (List.mem_cons_of_mem _ mem))
      (whole.path.trans same))

theorem Complete.writes_pieces (complete : h.Complete) (o : ObjectId) (same : r.path = path) :
    h.Writes (h.pieces o) r ((h.writeProto (h.proto? o) ((h.writeEntries (h.entries o)
      (r.write ("\x7b // " ++ h.label o ++ "\n"))).1.write "  proto: ")).1.write "\n\x7d") := by
  have closed : ∀ entry ∈ h.entries o, h.closed entry.2 := by
    rintro ⟨key, value⟩ mem
    cases value with
    | object p => exact complete o p (.inl ⟨key, mem⟩)
    | _ => rfl
  have opened : h.Writes [.text ("\x7b // " ++ h.label o ++ "\n")] r _ := .text _
  have listed := opened.append (writes_entries objects closed (opened.path.trans same))
  have shown := listed.write "  proto: "
  have proto := writes_proto objects (fun p found => complete o p (.inr found))
    (shown.path.trans same)
  have whole := (shown.append proto).write "\n\x7d"
  simpa [pieces] using whole

end

/-- The objects of the path are not entered again, so there are fewer of the others in each
object that is entered. -/
theorem Complete.writes_object (complete : h.Complete) (present : h.contains o) (r : Rendering) :
    h.Writes [.object o] r (h.writeObject o r).1 := by
  induction others : (h.offPath r.path).length using Nat.strong_induction_on generalizing o r with
  | _ n ih =>
    rw [writeObject.eq_def]
    by_cases fresh : (h.contains o && !r.path.contains o) = true
    · rw [dif_pos fresh]
      have fewer := length_offPath_cons_lt fresh
      have objects : ∀ p, h.contains p → ∀ r' : Rendering, r'.path = o :: r.path →
          h.Writes [.object p] r' (h.writeObject p r').1 := by
        intro p present r' same
        exact ih _ (by rw [← others, same]; exact fewer) present r' rfl
      obtain ⟨t, d, unfolds, written⟩ :=
        complete.writes_pieces objects (r := r.enter o) o rfl
      have new : o ∉ r.path := by simpa [present] using fresh
      refine ⟨t ++ "", max (d + 1) 0, .full new unfolds .nil, ?_⟩
      show Rendering.leave _ = _
      rw [written]
      simp [Rendering.leave, Rendering.enter]
    · rw [dif_neg fresh]
      have mem : o ∈ r.path := by simpa [present] using fresh
      exact ⟨"... // " ++ h.label o ++ "", 0, .named mem .nil, by simp [Rendering.write]⟩

/-- The text of an object is the one that it unfolds to. It is nested no deeper than there are
objects to come to, and it is the same wherever the object stands below objects that it does not
lead back to. -/
theorem render_unfolds (complete : h.Complete) (present : h.contains o) :
    ∃ depth ≤ (h.reachable o).ncard,
      (∀ t d, h.Unfolds [] [.object o] t d ↔ t = h.render o ∧ d = depth) ∧
      ∀ above, (∀ p ∈ above, p ∉ h.reachable o) →
        h.Unfolds above [.object o] (h.render o) depth := by
  obtain ⟨t, depth, unfolds, written⟩ := complete.writes_object present .start
  have text : h.render o = t := by
    rw [render, written]
    exact String.empty_append
  have finite := complete.finite_reachable present
  refine ⟨depth, ?_, ?_, ?_⟩
  · rw [Set.ncard_eq_toFinset_card _ finite]
    refine unfolds.depth_le ?_ List.nodup_nil (by simp [Rendering.start]) ?_
    · intro p reached q refers
      rw [Set.Finite.mem_toFinset] at reached ⊢
      exact .tail reached refers
    · intro p mem
      obtain rfl : p = o := by simpa using mem
      rw [Set.Finite.mem_toFinset]
      exact .refl
  · intro s d
    rw [text]
    constructor
    · exact unfolds.unique
    · rintro ⟨rfl, rfl⟩
      exact unfolds
  · intro above apart
    rw [text]
    refine unfolds.of_agree ?_
    intro q mem p reached
    obtain rfl : q = o := by simpa using mem
    have outside : p ∉ above := fun within => apart p within reached
    simp [outside, Rendering.start]

/-- A function, an object that holds it twice, and an object that inherits from that one and is held
by it as well. -/
def tangled : Heap :=
  let h := (((empty.newFunction "f" .inert).2.newObject none).2.newObject (some 1)).2
  h.setAll 1 [("left", .object 0), ("right", .object 0), ("child", .object 2)]

theorem sound_tangled : tangled.Sound := by
  have function := leads_newFunction sound_empty "f" .inert
  have base : Leads .inert _ (newObject _ none).2 := leads_newObject function.sound (by simp)
  have inheriting : Leads .inert _ (newObject _ (some 1)).2 :=
    leads_newObject base.sound (by rintro p ⟨⟩; cbv)
  have filled : Leads .inert _ tangled := leads_setAll inheriting.sound _
    (by simp only [List.forall_mem_cons]; exact ⟨by cbv, by cbv, by cbv, List.forall_mem_nil _⟩)
  exact filled.sound

theorem reachable_tangled_function : tangled.reachable 0 = {0} := by
  have itself : ∀ p, tangled.Refers 0 p → p = 0 := by
    have entries : tangled.entries 0 = [("apply", .object 0)] := by cbv
    have proto : tangled.proto? 0 = none := by cbv
    rintro p (⟨key, mem⟩ | inherits)
    · simp_all
    · simp_all
  ext p
  constructor
  · intro reached
    induction reached with
    | refl => rfl
    | tail _ refers ih =>
      cases ih
      exact itself _ refers
  · rintro rfl
    exact .refl

/-- The function is shown at both places, where it names itself; the two objects have each other in
their texts, so the outer one is named in the inner one. -/
theorem render_unfolds_tangled :
    tangled.render 1 = "\x7b // object\n" ++
        "  left: \x7b // function f\n  apply: ... // function f\n  proto: null\n\x7d\n" ++
        "  right: \x7b // function f\n  apply: ... // function f\n  proto: null\n\x7d\n" ++
        "  child: \x7b // object\n  proto: ... // object\n\x7d\n" ++
        "  proto: null\n\x7d" ∧
      (∃ depth ≤ (tangled.reachable 1).ncard,
        tangled.Unfolds [] [.object 1] (tangled.render 1) depth) ∧
      ∃ depth ≤ 1, tangled.Unfolds [1] [.object 0] (tangled.render 0) depth := by
  refine ⟨by cbv, ?_, ?_⟩
  · obtain ⟨depth, bound, unfolds, -⟩ := render_unfolds sound_tangled.complete (o := 1) (by cbv)
    exact ⟨depth, bound, (unfolds _ _).mpr ⟨rfl, rfl⟩⟩
  · obtain ⟨depth, bound, -, below⟩ := render_unfolds sound_tangled.complete (o := 0) (by cbv)
    rw [reachable_tangled_function] at bound below
    rw [Set.ncard_singleton] at bound
    exact ⟨depth, bound, below [1] (by simp)⟩

end Heap

end ProtoVM
