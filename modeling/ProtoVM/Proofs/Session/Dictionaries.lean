import ProtoVM.Session.Dictionary

/-!
# Dictionaries

What is known about an identifier after a declaration or a binding.
-/

namespace ProtoVM.Dictionary

variable {d : Dictionary} {id key : String}

theorem lookup_filter_ne (entries : List (String × Descriptor)) (different : key ≠ id) :
    (entries.filter (·.1 ≠ id)).lookup key = entries.lookup key := by
  induction entries with
  | nil => rfl
  | cons entry entries ih =>
    obtain ⟨k, descriptor⟩ := entry
    by_cases same : k = id
    · subst same
      rw [List.filter_cons_of_neg (by simp), ih, List.lookup_cons, beq_false_of_ne different]
    · rw [List.filter_cons_of_pos (by simpa using same), List.lookup_cons, List.lookup_cons, ih]

theorem descriptor?_insert (d : Dictionary) (id key : String) (descriptor : Descriptor) :
    (d.insert id descriptor).descriptor? key =
      if key = id then some descriptor else d.descriptor? key := by
  unfold descriptor? insert
  rw [List.lookup_cons]
  by_cases same : key = id
  · subst same
    rw [beq_self_eq_true, if_pos rfl]
  · rw [beq_false_of_ne same, if_neg same]
    exact lookup_filter_ne d.entries same

theorem resolve?_insert (d : Dictionary) (id key : String) (descriptor : Descriptor) :
    (d.insert id descriptor).resolve? key =
      if key = id then descriptor.function else d.resolve? key := by
  rw [resolve?, descriptor?_insert]
  by_cases same : key = id
  · rw [if_pos same, if_pos same]
    rfl
  · rw [if_neg same, if_neg same]
    rfl

/-- Binding gives the identifier its function, and no other identifier another one. -/
theorem resolve?_bind (d : Dictionary) (id name key : String) (parameters : List String)
    (function : ObjectId) :
    (d.bind id name parameters function).resolve? key =
      if key = id then some function else d.resolve? key := by
  rw [bind, resolve?_insert]

/-- Declaring gives no identifier another function. -/
theorem resolve?_declare (d : Dictionary) (id key : String) (descriptor : Descriptor) :
    (d.declare id descriptor).2.resolve? key = d.resolve? key := by
  rw [declare]
  by_cases bound : (d.resolve? id).isSome
  · rw [if_pos bound]
  · rw [if_neg bound]
    show (d.insert id { descriptor with function := none }).resolve? key = d.resolve? key
    rw [resolve?_insert]
    by_cases same : key = id
    · rw [if_pos same, same]
      exact (Option.not_isSome_iff_eq_none.mp bound).symm
    · rw [if_neg same]

end ProtoVM.Dictionary
