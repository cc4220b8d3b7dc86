import ArchivePlan.Files.Location
import ArchivePlan.Files.Node

/-! # Finding and reading files

A file system is a tree with a working directory.  `resolve` follows a location component by
component, through links, to a node or to the reason why there is none: a missing component, a
component that should be a directory, a name or a location that is too long, or too many links. -/

namespace ArchivePlan

/-- A tree of files and the names that lead to the working directory. -/
structure FileSystem where
  root : Node := .directory []
  workDir : List Name := []
  deriving Repr

/-- Where following a location comes to a halt. -/
inductive Halt where
  /-- At its end. -/
  | node (place : List Name) (node : Node)
  /-- At a link, with parts left to follow behind it. -/
  | link (place : List Name) (target : Bytes) (rest : List Bytes)
  /-- At a place in a directory where nothing is, with parts left to follow behind it. -/
  | gap (place : List Name) (rest : List Bytes)

namespace FileSystem

/-- The number of bytes that a name can have. -/
def maxName : Nat := 255

/-- The number of bytes that a location stays below. -/
def maxLocation : Nat := 4096

/-- The number of links that are followed for one location. -/
def maxLinks : Nat := 40

variable (fs : FileSystem)

/-- The location of the working directory. -/
def workLocation : Location :=
  ⟨if fs.workDir = [] then [slash] else fs.workDir.flatMap (slash :: ·)⟩

/-- Follows parts from a directory up to the next link or to a name that is missing. -/
def advance (place : List Name) : List Bytes → Except IoError Halt
  | [] =>
    match fs.root.get? place with
    | some node => .ok (.node place node)
    | none => .error .notFound
  | part :: rest =>
    if part = [] ∨ part = [dot] then advance place rest
    else if part = [dot, dot] then advance place.dropLast rest
    else if maxName < part.length then .error .nameTooLong
    else
      let found := place ++ [part]
      match (fs.root.get? place).bind (·.child? part) with
      | none => .ok (.gap found rest)
      | some (.directory _) => advance found rest
      | some (.symlink target) => .ok (.link found target rest)
      | some node => if rest = [] then .ok (.node found node) else .error .notDirectory

/-- The directory from which a location of the given bytes is followed. -/
def startOf (bytes : Bytes) (place : List Name) : List Name :=
  if bytes.head? = some slash then [] else place

/-- Follows parts from a directory through at most the given number of links. -/
def follow (links : Nat) (place : List Name) (parts : List Bytes) :
    Except IoError (List Name × Node) :=
  match fs.advance place parts with
  | .error e => .error e
  | .ok (.node place node) => .ok (place, node)
  | .ok (.gap _ _) => .error .notFound
  | .ok (.link place target rest) =>
    match links with
    | 0 => .error .tooManyLinks
    | links + 1 => follow links (startOf target place.dropLast) (target.splitOn slash ++ rest)

/-- Refuses bytes that are no location. -/
def check (bytes : Bytes) : Except IoError Unit :=
  if 0 ∈ bytes then .error .nulByte
  else if bytes = [] then .error .notFound
  else if maxLocation ≤ bytes.length then .error .nameTooLong
  else .ok ()

/-- The place and the node that a location leads to. -/
def resolve (l : Location) : Except IoError (List Name × Node) :=
  match check l.bytes with
  | .error e => .error e
  | .ok () => fs.follow maxLinks (startOf l.bytes fs.workDir) l.parts

/-- The node that a location leads to. -/
def node (l : Location) : Except IoError Node :=
  (fs.resolve l).map (·.2)

/-- What is read where a location leads to. -/
def read (l : Location) : Except IoError Bytes :=
  match fs.node l with
  | .error e => .error e
  | .ok node => node.reading

/-- The number of bytes that are read at a time. -/
def pieceSize : Nat := 8192

/-- Bytes cut into pieces of the size that is read at a time. -/
def pieces (bytes : Bytes) : List Bytes :=
  match bytes with
  | [] => []
  | b :: rest => (b :: rest).take pieceSize :: pieces (rest.drop (pieceSize - 1))
termination_by bytes.length

/-- The content of the file that a location leads to, in the pieces in which it is read. -/
def readPieces (l : Location) : Except IoError (List Bytes) :=
  (fs.read l).map pieces

/-- The text in the file that a location leads to. -/
def readText (l : Location) : Except IoError String :=
  match fs.read l with
  | .error e => .error e
  | .ok content =>
    match Utf8.decode? content with
    | some text => .ok text
    | none => .error .notUtf8

end FileSystem

end ArchivePlan
