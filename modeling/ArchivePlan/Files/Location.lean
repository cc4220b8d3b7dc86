import ArchivePlan.Text.Utf8

/-! # Locations in a file system

A location is a path as a program writes it: any bytes, with slashes between components.  Two
locations have the same `key` if they have the same components, whatever slashes and `.` stand
between them; they may still lead to different places. -/

namespace ArchivePlan

def slash : UInt8 := 0x2F

/-- The dot that stands for a directory itself. -/
def dot : UInt8 := 0x2E

/-- A path in a file system. -/
structure Location where
  bytes : Bytes
  deriving DecidableEq, Repr

namespace Location

/-- The location that a text writes. -/
def ofString (text : String) : Location :=
  ⟨Utf8.ofString text⟩

def text (l : Location) : String :=
  Utf8.decodeLossy l.bytes

/-- Whether a location starts at the root. -/
def isAbsolute (l : Location) : Bool :=
  l.bytes.head? == some slash

def parts (l : Location) : List Bytes :=
  l.bytes.splitOn slash

/-- Whether a part behind the first one is a component. -/
def isComponent (part : Bytes) : Bool :=
  part ≠ [] && part ≠ [dot]

/-- The components of a location.  A dot is one only where it comes first. -/
def components (l : Location) : List Bytes :=
  match l.parts with
  | [] => []
  | first :: rest => (if first = [] then [] else [first]) ++ rest.filter isComponent

/-- What locations with the same components share. -/
def key (l : Location) : Bool × List Bytes :=
  (l.isAbsolute, l.components)

/-- The location `rest` seen from `base`. -/
def join (base rest : Location) : Location :=
  if rest.isAbsolute then rest
  else if base.bytes = [] ∨ base.bytes.getLast? = some slash then ⟨base.bytes ++ rest.bytes⟩
  else ⟨base.bytes ++ slash :: rest.bytes⟩

/-- Parts without those at the end that are no components. -/
def trimParts (parts : List Bytes) : List Bytes :=
  (parts.reverse.dropWhile fun part => !isComponent part).reverse

/-- The location without its last component, if it has one. -/
def parent? (l : Location) : Option Location :=
  match l.parts with
  | [] => none
  | first :: rest =>
    match (trimParts rest).reverse with
    | [] => if first = [] then none else some ⟨[]⟩
    | _ :: before =>
      let kept := trimParts before.reverse
      if first = [] ∧ kept = [] then some ⟨[slash]⟩ else some ⟨[slash].intercalate (first :: kept)⟩

/-- The locations around a location, the nearest first, at most the given number of them. -/
def enclosing : Nat → Location → List Location
  | 0, _ => []
  | n + 1, l =>
    match l.parent? with
    | none => []
    | some parent => parent :: enclosing n parent

/-- A location and those around it, the nearest first. -/
def lineage (l : Location) : List Location :=
  l :: enclosing l.parts.length l

def endsInSlash (l : Location) : Bool :=
  l.bytes.getLast? == some slash

/-- The parts before the last one that is not empty, and that one. -/
def splitLast (parts : List Bytes) : List Bytes × Bytes :=
  match parts.reverse.dropWhile (· = []) with
  | [] => ([], [])
  | last :: before => (before.reverse, last)

end Location

end ArchivePlan
