/-! # Kinds of entries

Rules distinguish three kinds of objects in a file system; an archive knows ghosts besides, which
rules see as files. -/

namespace ArchivePlan

/-- The kinds that rules distinguish. -/
inductive FileKind where
  | file
  | directory
  | symlink
  deriving DecidableEq, Repr

/-- The kinds of archive entries. -/
inductive EntryKind where
  | file
  | directory
  | symlink
  /-- A path that is recorded without content. -/
  | ghost
  deriving DecidableEq, Repr

def FileKind.name : FileKind → String
  | .file => "file"
  | .directory => "directory"
  | .symlink => "symlink"

def FileKind.ofName? : String → Option FileKind
  | "file" => some .file
  | "directory" => some .directory
  | "symlink" => some .symlink
  | _ => none

def EntryKind.name : EntryKind → String
  | .file => "file"
  | .directory => "directory"
  | .symlink => "symlink"
  | .ghost => "ghost"

def EntryKind.all : List EntryKind :=
  [.file, .directory, .symlink, .ghost]

def EntryKind.ofName? (name : String) : Option EntryKind :=
  EntryKind.all.find? (·.name == name)

/-- The kind that rules see for an entry. -/
def EntryKind.fileKind : EntryKind → FileKind
  | .file => .file
  | .directory => .directory
  | .symlink => .symlink
  | .ghost => .file

end ArchivePlan
