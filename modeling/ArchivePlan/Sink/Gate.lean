import ArchivePlan.Sink.Listing

/-! # Gates

A gate is a listing that refuses the entries of certain paths and then stays as it is.  It remembers
which collection it was told of. -/

namespace ArchivePlan

/-- A listing behind a gate. -/
structure Gate where
  /-- The paths whose entries are refused. -/
  closed : List String := []
  listing : Listing := {}
  /-- The root of the collection whose entries are coming. -/
  collection : Option String := none
  deriving DecidableEq

namespace Gate

/-- Lets an entry through to the listing unless its path is refused. -/
def pass (gate : Gate) (d : Descriptor) (record : Listing → Descriptor → Listing) : Reply Gate :=
  if d.path ∈ gate.closed then ⟨gate, some (.rejected d.path "rejected")⟩
  else ⟨{ gate with listing := record gate.listing d }, none⟩

def sink : Sink Gate where
  add gate d := gate.pass d Listing.add
  supersede gate d := gate.pass d Listing.supersede
  enter gate root := { gate with collection := some root }
  leave gate := { gate with collection := none }

end Gate

end ArchivePlan
