import ArchivePlan.Text.Utf8

/-! # Trees of files

A file system as a value: directories with named children in the order in which they are listed,
regular files with their content, symbolic links with their literal targets, and special files with
what comes of reading them.  `Node.descendants` walks a directory, each node before its children and
never through a link. -/

namespace ArchivePlan

/-- Why a file system refuses an operation. -/
inductive IoError where
  | notFound
  | exists
  | notDirectory
  | isDirectory
  | nameTooLong
  | tooManyLinks
  | noDevice
  | inUse
  | nulByte
  | notUtf8
  deriving DecidableEq, Repr

def IoError.message : IoError → String
  | .notFound => "No such file or directory (os error 2)"
  | .exists => "File exists (os error 17)"
  | .notDirectory => "Not a directory (os error 20)"
  | .isDirectory => "Is a directory (os error 21)"
  | .nameTooLong => "File name too long (os error 36)"
  | .tooManyLinks => "Too many levels of symbolic links (os error 40)"
  | .noDevice => "No such device or address (os error 6)"
  | .inUse => "Address already in use (os error 98)"
  | .nulByte => "file name contained an unexpected NUL byte"
  | .notUtf8 => "stream did not contain valid UTF-8"

/-- The name of a child of a directory. -/
abbrev Name := Bytes

/-- An object in a file system. -/
inductive Node where
  | file (content : Bytes)
  | directory (children : List (Name × Node))
  | symlink (target : Bytes)
  /-- A socket, pipe or device, and what comes of reading it to its end; a socket cannot even be
  opened.  One that has no end, such as a pipe to which nobody writes, is left out. -/
  | special (reading : Except IoError Bytes := .error .noDevice)
  deriving Repr

namespace Node

def child? (name : Name) : Node → Option Node
  | .directory children => children.lookup name
  | _ => none

/-- The node that a sequence of names leads to, links not followed. -/
def get? : Node → List Name → Option Node
  | node, [] => some node
  | node, name :: rest =>
    match node.child? name with
    | some child => child.get? rest
    | none => none

mutual
/-- The nodes below a directory with the names that lead to them. -/
def descendants : Node → List (List Name × Node)
  | .directory children => descendantsOf children
  | _ => []
termination_by structural node => node

/-- The given children and the nodes below them, with the names that lead to them. -/
def descendantsOf : List (Name × Node) → List (List Name × Node)
  | [] => []
  | (name, node) :: rest =>
    ([name], node) :: (node.descendants.map fun found => (name :: found.1, found.2)) ++
      descendantsOf rest
termination_by structural children => children
end

/-- Children with one of them put in place of the child of that name, or behind the others. -/
def putChild (name : Name) (node : Node) : List (Name × Node) → List (Name × Node)
  | [] => [(name, node)]
  | (other, old) :: rest =>
    if other = name then (name, node) :: rest else (other, old) :: putChild name node rest

/-- Puts a node where a sequence of names leads to, with the directories that are missing on the
way. -/
def put : Node → List Name → Node → Node
  | _, [], new => new
  | .directory children, name :: rest, new =>
    let old := (children.lookup name).getD (.directory [])
    .directory (putChild name (old.put rest new) children)
  | node, _ :: _, _ => node

def erase : Node → List Name → Node
  | node, [] => node
  | .directory children, [name] => .directory (children.filter (·.1 ≠ name))
  | .directory children, name :: rest =>
    match children.lookup name with
    | some old => .directory (putChild name (old.erase rest) children)
    | none => .directory children
  | node, _ :: _ => node

/-- What comes of reading a node to its end. -/
def reading : Node → Except IoError Bytes
  | .file content => .ok content
  | .directory _ => .error .isDirectory
  | .symlink _ => .error .tooManyLinks
  | .special reading => reading

def isDirectory : Node → Bool
  | .directory _ => true
  | _ => false

end Node

end ArchivePlan
