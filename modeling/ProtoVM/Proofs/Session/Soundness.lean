import ProtoVM.Proofs.Call.Requests
import ProtoVM.Proofs.Object.PropertyCaches
import ProtoVM.Session.Perform

/-!
# Sound sessions

What holds of a session at all times (`World.Sound`): its heap is sound, its caches say what is
true, everything that a dictionary or a loader names exists, and every function is called by native
code that keeps to the allowed actions or by a unit whose caches are there. Whatever is done leads
to a later session (`World.Leads`) that is sound again.
-/

namespace ProtoVM

namespace World

/-- The session has the caches of the unit, each under the key of the instruction that uses it. -/
def Bound (w : World) (unit : BoundUnit) : Prop :=
  ∃ bank, w.banks[unit.index]? = some bank ∧
    ∀ site ∈ bank, ⟨site.1, site.2.key⟩ ∈ unit.unit.propertySites

variable (allowed : Action → Prop)

/-- What holds of the handles of a session. -/
def Admits (w : World) : Handle → Prop
  | .inert => True
  | .fixed _ entry => ∀ args, (entry args).AsksOnly allowed
  | .variadic entry => ∀ args, (entry args).AsksOnly allowed
  | .interpreted unit => w.Bound unit

structure Sound (w : World) : Prop where
  heap : w.heap.Sound
  caches : ∀ cache ∈ w.caches, cache.Sound w.heap
  banks : ∀ bank ∈ w.banks, ∀ site ∈ bank, site.2.Sound w.heap
  functions : ∀ d ∈ w.dictionaries, ∀ id o, d.resolve? id = some o → w.heap.contains o
  globals : ∀ loader ∈ w.loaders, w.heap.contains loader.global
  handles : ∀ o, w.Admits allowed (w.heap.handle o)

/-- The second session is sound and comes after the first. -/
structure Leads (w w' : World) : Prop where
  sound : w'.Sound allowed
  heap : w.heap.Evolves w'.heap
  bound : ∀ unit, w.Bound unit → w'.Bound unit

variable {allowed} {w w' : World}

theorem Leads.refl (sound : w.Sound allowed) : w.Leads allowed w := ⟨sound, .refl, fun _ h => h⟩

theorem Leads.trans {a b c : World} (hab : a.Leads allowed b) (hbc : b.Leads allowed c) :
    a.Leads allowed c where
  sound := hbc.sound
  heap := hab.heap.trans hbc.heap
  bound := fun unit h => hbc.bound unit (hab.bound unit h)

theorem sound_empty : empty.Sound allowed where
  heap := Heap.sound_empty
  caches := fun _ mem => nomatch mem
  banks := fun _ mem => nomatch mem
  functions := fun _ mem => nomatch mem
  globals := fun _ mem => nomatch mem
  handles := fun _ => trivial

/-! ## Changing one part -/

section

variable (sound : w.Sound allowed)
include sound

theorem leads_withHeap {made : Handle} {h : Heap} (leads : w.heap.Leads made h)
    (admits : w.Admits allowed made) : w.Leads allowed { w with heap := h } where
  sound := {
    heap := leads.sound
    caches := fun cache mem => (sound.caches cache mem).mono leads.evolves
    banks := fun bank mem site hsite => (sound.banks bank mem site hsite).mono leads.evolves
    functions := fun d mem id o found => leads.evolves.contains (sound.functions d mem id o found)
    globals := fun loader mem => leads.evolves.contains (sound.globals loader mem)
    handles := by
      intro o
      show w.Admits allowed (h.handle o)
      rcases leads.handles o with same | new
      · rw [same]
        exact sound.handles o
      · rw [new]
        exact admits }
  heap := leads.evolves
  bound := fun _ h => h

theorem leads_withCaches {caches : Array PropertyCache}
    (h : ∀ cache ∈ caches, cache.Sound w.heap) : w.Leads allowed { w with caches } where
  sound := { sound with caches := h }
  heap := .refl
  bound := fun _ h => h

theorem leads_withDictionaries {dictionaries : Array Dictionary}
    (h : ∀ d ∈ dictionaries, ∀ id o, d.resolve? id = some o → w.heap.contains o) :
    w.Leads allowed { w with dictionaries } where
  sound := { sound with functions := h }
  heap := .refl
  bound := fun _ h => h

theorem leads_withLoaders {loaders : Array Loader}
    (h : ∀ loader ∈ loaders, w.heap.contains loader.global) :
    w.Leads allowed { w with loaders } where
  sound := { sound with globals := h }
  heap := .refl
  bound := fun _ h => h

theorem leads_withBanks {banks : Array CacheBank}
    (h : ∀ bank ∈ banks, ∀ site ∈ bank, site.2.Sound w.heap)
    (bound : ∀ unit, w.Bound unit → Bound { w with banks } unit) :
    w.Leads allowed { w with banks } where
  sound := {
    sound with
    banks := h
    handles := by
      intro o
      have admits := sound.handles o
      show Admits allowed { w with banks } (w.heap.handle o)
      cases handle : w.heap.handle o with
      | inert => exact trivial
      | fixed arity entry =>
        rw [handle] at admits
        exact admits
      | variadic entry =>
        rw [handle] at admits
        exact admits
      | interpreted unit =>
        rw [handle] at admits
        exact bound unit admits }
  heap := .refl
  bound := bound

end

end World

end ProtoVM
