import ArchivePlan.Attributes
import ArchivePlan.Target

/-! # Declared entries

An entry names a target path and exactly one source: a file, a directory, a link, a collected tree
or a ghost.  `Entry.source` gives the one that is set or says that none or several are.

A source file and the root of a collection are given as text, as they are in a manifest.  So a
location that is not text cannot be declared. -/

namespace ArchivePlan

/-- Which part of a directory tree is collected, and how. -/
structure Collection where
  /-- The directory whose content is collected. -/
  root : String
  /-- Patterns of which one must match, unless there are none. -/
  includes : List String := []
  /-- Patterns of which none may match. -/
  excludes : List String := []
  directories : Bool := true
  symbolicLinks : Bool := false
  caseSensitive : Bool := true
  deriving DecidableEq, Repr

/-- A declared part of a package. -/
structure Entry where
  /-- The target path as it was declared. -/
  name : String
  file : Option String := none
  directory : Option Bool := none
  linkTo : Option String := none
  collect : Option Collection := none
  ghost : Option Bool := none
  /-- The ruleset that takes the place of the default. -/
  ruleset : Option String := none
  /-- Whether the entry is left out. -/
  skip : Bool := false
  /-- Attributes that no rule can change. -/
  explicit : Attributes := {}
  deriving DecidableEq

/-- Where the content of an entry comes from. -/
inductive Source where
  | file (path : String)
  | directory
  | link (target : String)
  | collect (collection : Collection)
  | ghost
  deriving DecidableEq, Repr

/-- The name under which a source is declared. -/
def Source.selector : Source → String
  | .file _ => "file"
  | .directory => "directory"
  | .link _ => "link-to"
  | .collect _ => "collect"
  | .ghost => "ghost"

/-- What can be wrong with an entry by itself. -/
inductive EntryFault where
  | noSource
  | manySources (selectors : List String)
  | badTarget (fault : Target.Fault)
  deriving DecidableEq, Repr

def EntryFault.message : EntryFault → String
  | .noSource => "exactly one of file, directory, link-to, collect or ghost must be set"
  | .manySources selectors =>
    "only one of file, directory, link-to, collect or ghost may be set, found: " ++
      String.intercalate ", " selectors
  | .badTarget fault => fault.message

namespace Entry

variable (entry : Entry)

/-- The sources that are set.  The switches `directory` and `ghost` have to be on for that. -/
def sources : List Source :=
  (entry.file.map Source.file).toList ++
    (if entry.directory = some true then [.directory] else []) ++
    (entry.linkTo.map Source.link).toList ++
    (entry.collect.map Source.collect).toList ++
    (if entry.ghost = some true then [.ghost] else [])

def selectors : List String :=
  entry.sources.map Source.selector

/-- The one source that is set. -/
def source : Except EntryFault Source :=
  match entry.sources with
  | [source] => .ok source
  | [] => .error .noSource
  | _ => .error (.manySources entry.selectors)

def target : Except EntryFault String :=
  (Target.canonical entry.name).mapError .badTarget

end Entry

end ArchivePlan
