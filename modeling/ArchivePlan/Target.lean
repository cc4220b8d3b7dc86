/-! # Target paths

The paths of entries inside an archive.  The canonical form starts with a slash, has single slashes
between components and none at the end except for the root, and has no component `.` or `..`.
`canonical` brings a declared name into this form or says why it has none; `ancestors` lists the
directories a path lies in, and `isWithin` tells whether it lies in a given one. -/

namespace ArchivePlan.Target

/-- Why a declared name is not a target path. -/
inductive Fault where
  | notAbsolute
  | containsNul
  | dotComponent
  deriving DecidableEq, Repr

def Fault.message : Fault → String
  | .notAbsolute => "target path must be absolute"
  | .containsNul => "target path must not contain NUL"
  | .dotComponent => "target path must not contain '.' or '..' components"

/-- A name with slashes in place of backslashes. -/
def slashed (name : List Char) : List Char :=
  name.map fun c => if c = '\\' then '/' else c

/-- The components of a path: its parts that are not empty. -/
def components (path : List Char) : List (List Char) :=
  (path.splitOn '/').filter (· ≠ [])

/-- The path with the given components. -/
def render : List (List Char) → List Char
  | [] => ['/']
  | parts => parts.flatMap ('/' :: ·)

/-- Whether a component stands for a directory relative to another. -/
def isDots (component : List Char) : Bool :=
  component == ['.'] || component == ['.', '.']

/-- The canonical form of a declared name, over characters. -/
def canonicalChars (name : List Char) : Except Fault (List Char) :=
  let path := slashed name
  if path.head? ≠ some '/' then .error .notAbsolute
  else if '\x00' ∈ path then .error .containsNul
  else if (components path).any isDots then .error .dotComponent
  else .ok (render (components path))

/-- The canonical form of a declared name. -/
def canonical (name : String) : Except Fault String :=
  (canonicalChars name.toList).map String.ofList

/-- The parts of a path that end before a slash, those in `done` being read already and a leading
slash left out. -/
def ancestorsFrom (done : List Char) : List Char → List (List Char)
  | [] => []
  | c :: rest =>
    if c = '/' ∧ done ≠ [] then done :: ancestorsFrom (done ++ [c]) rest
    else ancestorsFrom (done ++ [c]) rest

/-- The directories that a path lies in, outermost first, without the root. -/
def ancestors (path : String) : List String :=
  (ancestorsFrom [] path.toList).map String.ofList

/-- Whether a path is `base` or lies below it, over characters. -/
def isWithinChars (path base : List Char) : Bool :=
  base == ['/'] || path == base || (base ++ ['/']).isPrefixOf path

/-- Whether a path is `base` or lies below it. -/
def isWithin (path base : String) : Bool :=
  isWithinChars path.toList base.toList

end ArchivePlan.Target
