import ArchivePlan.Sink.Basic

/-! # Listings

A listing is the sink at the end: it records entries in the order in which they come.  It remembers
for each path the slot of the entry that was added last under it, which is where a superseding
directory goes. -/

namespace ArchivePlan

/-- Recorded archive entries. -/
structure Listing where
  entries : List Descriptor := []
  /-- The slots of the entries added, the newest first. -/
  slots : List (String × Nat) := []
  deriving DecidableEq

namespace Listing

def empty : Listing := {}

variable (listing : Listing)

/-- The slot of the entry that was added last under a path. -/
def slot? (path : String) : Option Nat :=
  listing.slots.lookup path

/-- The entry recorded under a path. -/
def get? (path : String) : Option Descriptor :=
  (listing.slot? path).bind fun i => listing.entries[i]?

def paths : List String :=
  listing.entries.map (·.path)

/-- Records an entry behind the others. -/
def add (d : Descriptor) : Listing where
  entries := listing.entries ++ [d]
  slots := (d.path, listing.entries.length) :: listing.slots

/-- Records an entry in the slot of its path, or behind the others if the path has none. -/
def supersede (d : Descriptor) : Listing :=
  match listing.slot? d.path with
  | some i => { listing with entries := listing.entries.set i d }
  | none => listing.add d

/-- Listings refuse nothing and take no notice of collections. -/
def sink : Sink Listing where
  add listing d := ⟨listing.add d, none⟩
  supersede listing d := ⟨listing.supersede d, none⟩

end Listing

end ArchivePlan
