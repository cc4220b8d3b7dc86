import ArchivePlan.Digest.Algorithm
import ArchivePlan.Files.Location
import ArchivePlan.Metadata

/-! # Archive entries

What an archive needs to know about one entry. -/

namespace ArchivePlan

/-- Where the content of an archive entry comes from. -/
inductive Content where
  /-- A file. -/
  | file (location : Location)
  | bytes (bytes : Bytes)
  /-- The target of a link. -/
  | link (target : String)
  | none
  deriving DecidableEq, Repr

/-- An archive entry with all that is decided about it. -/
structure Descriptor where
  /-- The target path. -/
  path : String
  kind : EntryKind
  content : Content
  metadata : Metadata
  /-- The algorithm of the digest that goes with the content. -/
  digest : Option Algorithm := none
  deriving DecidableEq

def Descriptor.isDirectory (d : Descriptor) : Bool :=
  d.kind == .directory

end ArchivePlan
