import ArchivePlan.Entry
import ArchivePlan.Glob.Match

/-! # Selecting names by patterns

A declared pattern may be written with backslashes and a leading slash; one that ends in a slash
stands for everything below, and one that ends in `/**` for the directory itself as well.  A
selection takes a name that an include matches, or any name if there are no includes, unless an
exclude matches it. -/

namespace ArchivePlan

/-- A declared pattern that is not a glob. -/
structure PatternError where
  /-- The pattern as it was declared. -/
  declared : String
  fault : Glob.Fault
  deriving DecidableEq, Repr

def PatternError.message (e : PatternError) : String :=
  s!"invalid pattern '{e.declared}': {e.fault.message}"

namespace Selection

/-- The text that a declared pattern stands for. -/
def normalized (declared : List Char) : List Char :=
  let pattern := Target.slashed declared
  let pattern := if pattern.getLast? = some '/' then pattern ++ ['*', '*'] else pattern
  pattern.dropWhile (· == '/')

/-- What stands before `/**` at the end of a pattern, if that is anything. -/
def subtreeRoot? (pattern : List Char) : Option (List Char) :=
  if ['/', '*', '*'].isSuffixOf pattern ∧ 3 < pattern.length then
    some (pattern.take (pattern.length - 3))
  else none

/-- The texts that a declared pattern is compiled from. -/
def alternatives (declared : List Char) : List (List Char) :=
  let pattern := normalized declared
  pattern :: (subtreeRoot? pattern).toList

/-- The globs of a declared pattern. -/
def compile (declared : String) : Except PatternError (List (List Glob.Token)) :=
  (alternatives declared.toList).mapM fun text =>
    (Glob.compile text).mapError fun fault => ⟨declared, fault⟩

def compileAll (declared : List String) : Except PatternError (List (List Glob.Token)) :=
  (declared.mapM compile).map List.flatten

end Selection

/-- Compiled include and exclude patterns. -/
structure Selection where
  includes : List (List Glob.Token)
  excludes : List (List Glob.Token)
  caseSensitive : Bool
  deriving DecidableEq, Repr

/-- The selection that a collection declares. -/
def Selection.make (collection : Collection) : Except PatternError Selection := do
  let includes ← Selection.compileAll collection.includes
  let excludes ← Selection.compileAll collection.excludes
  return { includes, excludes, caseSensitive := collection.caseSensitive }

/-- Whether a selection takes a name. -/
def Selection.takes (selection : Selection) (name : String) : Bool :=
  let isMatch tokens := Glob.isMatch selection.caseSensitive tokens name
  (selection.includes.isEmpty || selection.includes.any isMatch) &&
    !selection.excludes.any isMatch

end ArchivePlan
