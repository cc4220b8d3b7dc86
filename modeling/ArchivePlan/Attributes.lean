import ArchivePlan.Flag
import ArchivePlan.Mode

/-! # Attributes

A partial record of metadata: each attribute is set or left open.  Rules and declared entries share
this shape.  Overlaying one record on another keeps what the upper one sets and fills in the rest
from the lower one, so overlaying is associative with the empty record as its unit. -/

namespace ArchivePlan

/-- Metadata of which any part may be left open. -/
@[ext]
structure Attributes where
  mode : Option Mode := none
  owner : Option String := none
  group : Option String := none
  /-- Flags that are switched on or off. -/
  flag : Flag → Option Bool := fun _ => none

namespace Attributes

def empty : Attributes := {}

theorem eq_iff (a b : Attributes) :
    a = b ↔ a.mode = b.mode ∧ a.owner = b.owner ∧ a.group = b.group ∧
      ∀ f ∈ Flag.all, a.flag f = b.flag f := by
  constructor
  · rintro rfl
    exact ⟨rfl, rfl, rfl, fun _ _ => rfl⟩
  · rintro ⟨hm, ho, hg, hf⟩
    exact Attributes.ext hm ho hg (funext fun f => hf f f.mem_all)

instance : DecidableEq Attributes := fun a b => decidable_of_iff' _ (eq_iff a b)

/-- The record with one flag switched on or off. -/
def setFlag (a : Attributes) (flag : Flag) (value : Bool) : Attributes :=
  { a with flag := fun f => if f = flag then some value else a.flag f }

/-- What `upper` sets, and what `lower` sets besides. -/
def overlay (lower upper : Attributes) : Attributes where
  mode := upper.mode.or lower.mode
  owner := upper.owner.or lower.owner
  group := upper.group.or lower.group
  flag f := (upper.flag f).or (lower.flag f)

@[simp] theorem empty_overlay (a : Attributes) : empty.overlay a = a := by
  simp [overlay, empty]

@[simp] theorem overlay_empty (a : Attributes) : a.overlay empty = a := by
  simp [overlay, empty]

theorem overlay_assoc (a b c : Attributes) :
    (a.overlay b).overlay c = a.overlay (b.overlay c) := by
  simp [overlay, Option.or_assoc]

end Attributes

end ArchivePlan
