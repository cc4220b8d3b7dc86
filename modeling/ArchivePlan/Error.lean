import ArchivePlan.Entry
import ArchivePlan.Files.System
import ArchivePlan.Registry
import ArchivePlan.Selection
import ArchivePlan.Timestamp

/-! # What can go wrong

Everything that a plan is refused for, up to what the file system does to a walk: that a directory
below the root of a collection cannot be listed, that a link there cannot be read, and that there is
no working directory are left out. -/

namespace ArchivePlan

/-- Why a source file cannot be taken. -/
inductive SourceFault where
  | notRegular
  | io (e : IoError)
  deriving DecidableEq, Repr

def SourceFault.message : SourceFault → String
  | .notRegular => "not a regular file"
  | .io e => e.message

/-- Why a declared entry cannot be resolved. -/
inductive ResolveError where
  /-- The entry itself is wrong, or a declared base path. -/
  | invalidEntry (name : String) (fault : EntryFault)
  | registry (e : RegistryError)
  | missingSource (name : String) (location : Location) (fault : SourceFault)
  | rootNotFound (location : Location)
  | emptyLink (name : String)
  | pattern (e : PatternError)
  /-- A collected name or link target is not text. -/
  | notText (location : Location)
  deriving DecidableEq, Repr

def ResolveError.message : ResolveError → String
  | .invalidEntry name fault => s!"invalid entry '{name}': {fault.message}"
  | .registry e => e.message
  | .missingSource name location fault =>
    s!"source file '{location.text}' of entry '{name}' is missing or unreadable: {fault.message}"
  | .rootNotFound location => s!"collector source directory not found: {location.text}"
  | .emptyLink name => s!"symbolic link entry '{name}' has an empty target"
  | .pattern e => e.message
  | .notText location => s!"path is not valid UTF-8: {location.text}"

/-- Why a list of entries cannot be filled or written. -/
inductive PlanError where
  | resolve (e : ResolveError)
  | timestamp (e : InvalidTimestamp)
  /-- The content of an entry cannot be digested. -/
  | digest (location : Location) (e : IoError)
  /-- An entry is refused where it was handed over. -/
  | rejected (path reason : String)
  deriving DecidableEq, Repr

def PlanError.message : PlanError → String
  | .resolve e => e.message
  | .timestamp e => e.message
  | .digest location e => s!"failed to digest '{location.text}': {e.message}"
  | .rejected path reason => s!"archive builder rejected '{path}': {reason}"

end ArchivePlan
