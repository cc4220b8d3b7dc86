import ArchivePlan.Files.System

/-! # Changing files

A file is written where a location leads to, through links, and is made there if nothing is.
Directories, links and special files are made, and files taken away, where the last component of a
location stands: a link there is not followed.  `put` makes a node together with the directories
that are missing around it.  A change that fails halfway leaves the directories that it made, so
`Change` keeps the file system beside the reason. -/

namespace ArchivePlan

/-- What a file system becomes by a change, and why the change stopped if it did. -/
structure Change where
  after : FileSystem
  fault : Option IoError := none

namespace Change

/-- The change of `before` into the file system that a result holds. -/
def ofExcept (before : FileSystem) : Except IoError FileSystem → Change
  | .ok after => ⟨after, none⟩
  | .error e => ⟨before, some e⟩

/-- The change that goes on with `next` unless it stopped already. -/
def andThen (change : Change) (next : FileSystem → Change) : Change :=
  match change.fault with
  | none => next change.after
  | some e => ⟨change.after, some e⟩

end Change

namespace FileSystem

variable (fs : FileSystem)

def set (place : List Name) (new : Node) : FileSystem :=
  { fs with root := fs.root.put place new }

/-! ### The last component -/

/-- Where the last component of a location stands, a link there not followed. -/
def locate (l : Location) : Except IoError Halt :=
  match check l.bytes with
  | .error e => .error e
  | .ok () =>
    let (before, last) := Location.splitLast l.parts
    match fs.follow maxLinks (startOf l.bytes fs.workDir) (before ++ [[]]) with
    | .error e => .error e
    | .ok (place, _) => fs.advance place [last]

/-- Makes a node where nothing is.  Only a directory is made in front of a slash. -/
def make (l : Location) (new : Node) : Except IoError FileSystem :=
  match fs.locate l with
  | .error e => .error e
  | .ok (.gap place _) =>
    if l.endsInSlash ∧ ¬ new.isDirectory then .error .notFound else .ok (fs.set place new)
  | .ok _ => .error .exists

/-- Makes a link with a literal target. -/
def makeLink (l : Location) (target : Bytes) : Except IoError FileSystem :=
  if 0 ∈ l.bytes then .error .nulByte
  else
    match check target with
    | .error e => .error e
    | .ok () => fs.make l (.symlink target)

/-- Makes a special file, as a socket is made, whose address is its location. -/
def makeSpecial (l : Location) (reading : Except IoError Bytes) : Except IoError FileSystem :=
  match fs.make l (.special reading) with
  | .error .exists => .error .inUse
  | result => result

/-- Takes away the file or link at a location. -/
def remove (l : Location) : Except IoError FileSystem :=
  match fs.locate l with
  | .error e => .error e
  | .ok (.gap _ _) => .error .notFound
  | .ok (.node _ (.directory _)) => .error .isDirectory
  | .ok (.node place _) | .ok (.link place _ _) =>
    if l.endsInSlash then .error .notDirectory
    else .ok { fs with root := fs.root.erase place }

/-! ### Through links -/

/-- The place of the file that is written when parts are followed from a directory through at most
the given number of links.  A slash at the end of the parts, or of a target, asks for a
directory, and a special file is not written. -/
def filePlace (links : Nat) (place : List Name) (parts : List Bytes) : Except IoError (List Name) :=
  if parts.getLast? = some [] then
    match fs.follow links place ((Location.splitLast parts).1 ++ [[]]) with
    | .error e => .error e
    | .ok _ => .error .isDirectory
  else
    match fs.advance place parts with
    | .error e => .error e
    | .ok (.node place (.file _)) => .ok place
    | .ok (.node _ (.directory _)) => .error .isDirectory
    | .ok (.node _ _) => .error .noDevice
    | .ok (.gap place rest) => if rest = [] then .ok place else .error .notFound
    | .ok (.link place linked rest) =>
      match links with
      | 0 => .error .tooManyLinks
      | links + 1 =>
        filePlace links (startOf linked place.dropLast) (linked.splitOn slash ++ rest)

/-- Writes a file, which is made if it is missing. -/
def write (l : Location) (content : Bytes) : Except IoError FileSystem :=
  match check l.bytes with
  | .error e => .error e
  | .ok () =>
    match fs.filePlace maxLinks (startOf l.bytes fs.workDir) l.parts with
    | .error e => .error e
    | .ok place => .ok (fs.set place (.file content))

/-! ### Missing directories -/

def leadsToDirectory (l : Location) : Bool :=
  match fs.node l with
  | .ok node => node.isDirectory
  | .error _ => false

/-- Makes a directory, unless a location leads to one. -/
def ensureDirectory (l : Location) : Except IoError FileSystem :=
  match fs.make l (.directory []) with
  | .ok fs => .ok fs
  | .error e => if fs.leadsToDirectory l then .ok fs else .error e

/-- Makes the first of some locations a directory.  Each lies in the next one, which is made a
directory too if it is missing. -/
def ensureLineage (fs : FileSystem) : List Location → Change
  | [] => ⟨fs, none⟩
  | l :: around =>
    if l.bytes = [] then ⟨fs, none⟩
    else
      match fs.ensureDirectory l with
      | .error .notFound =>
        (ensureLineage fs around).andThen fun fs => .ofExcept fs (fs.ensureDirectory l)
      | result => .ofExcept fs result

/-- Makes a directory and those around it, where they are missing. -/
def ensureDirectories (l : Location) : Change :=
  fs.ensureLineage l.lineage

/-- Puts a node at a location, with the directories made around it that are missing.  A file takes
the place of the file that is there, and a directory may be there already. -/
def put (l : Location) (new : Node) : Change :=
  (l.parent?.elim ⟨fs, none⟩ fs.ensureDirectories).andThen fun fs =>
    match new with
    | .file content => .ofExcept fs (fs.write l content)
    | .directory _ => fs.ensureDirectories l
    | .symlink target => .ofExcept fs (fs.makeLink l target)
    | .special reading => .ofExcept fs (fs.makeSpecial l reading)

end FileSystem

end ArchivePlan
