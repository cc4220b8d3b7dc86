import ArchivePlan.Attributes
import ArchivePlan.Calendar.Instant

/-! # Resolved metadata

The metadata of an archive entry once every attribute is decided: what a partial record leaves open
takes the default of the kind. -/

namespace ArchivePlan

/-- The metadata of an archive entry. -/
@[ext]
structure Metadata where
  mode : Mode
  owner : Option String := none
  group : Option String := none
  /-- Whether a flag is on. -/
  flags : Flag → Bool := fun _ => false
  /-- A fixed modification time. -/
  modified : Option Instant := none

namespace Metadata

theorem eq_iff (a b : Metadata) :
    a = b ↔ a.mode = b.mode ∧ a.owner = b.owner ∧ a.group = b.group ∧
      (∀ f ∈ Flag.all, a.flags f = b.flags f) ∧ a.modified = b.modified := by
  constructor
  · rintro rfl
    exact ⟨rfl, rfl, rfl, fun _ _ => rfl, rfl⟩
  · rintro ⟨hm, ho, hg, hf, ht⟩
    exact Metadata.ext hm ho hg (funext fun f => hf f f.mem_all) ht

instance : DecidableEq Metadata := fun a b => decidable_of_iff' _ (eq_iff a b)

/-- The metadata of an object of a kind for which nothing is set. -/
def defaultFor (kind : FileKind) : Metadata where
  mode := Mode.defaultFor kind

/-- The attributes that are set, over the defaults of the kind. -/
def ofAttributes (kind : FileKind) (a : Attributes) : Metadata where
  mode := a.mode.getD (Mode.defaultFor kind)
  owner := a.owner
  group := a.group
  flags f := a.flag f == some true

/-- The flags that are on, in the order of flags. -/
def flagList (m : Metadata) : List Flag :=
  Flag.all.filter m.flags

/-- The same metadata with a modification time. -/
def stamped (m : Metadata) (time : Option Instant) : Metadata :=
  { m with modified := time }

end Metadata

end ArchivePlan
