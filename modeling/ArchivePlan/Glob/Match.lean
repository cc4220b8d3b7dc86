import ArchivePlan.Glob.Pattern

/-! # Matching names against patterns

Matching tries the lengths that a star can take from the shortest on.  A try that runs out of
characters before a token other than a star ends the whole search, because every longer stretch
would run out as well. -/

namespace ArchivePlan.Glob

/-- How a try ended. -/
inductive Outcome where
  | matched
  /-- This try fails, another stretch of a star may do. -/
  | failed
  /-- The name is too short for every further stretch. -/
  | exhausted
  deriving DecidableEq, Repr

/-- An ASCII letter in lower case, and any other character unchanged. -/
def foldCase (c : Char) : Char :=
  if 'A' ≤ c ∧ c ≤ 'Z' then Char.ofNat (c.toNat + 32) else c

/-- Whether a character stands in the name where the pattern asks for one. -/
def sameChar (caseSensitive : Bool) (a b : Char) : Bool :=
  if caseSensitive then a == b else foldCase a == foldCase b

def isLowerLetter (c : Char) : Bool :=
  'a' ≤ c && c ≤ 'z'

/-- Whether a character lies in a range that has ASCII letters at both ends, case aside. -/
def inFoldedRange (low high c : Char) : Bool :=
  let low := foldCase low
  let high := foldCase high
  let c := foldCase c
  isLowerLetter low && isLowerLetter high && low ≤ c && c ≤ high

/-- Whether a character belongs to a member of a set. -/
def Member.holds (caseSensitive : Bool) (c : Char) : Member → Bool
  | .one m => sameChar caseSensitive c m
  | .range low high =>
    (!caseSensitive && inFoldedRange low high c) || (low ≤ c && c ≤ high)

/-- Whether a token that stands for one character admits it. -/
def Token.admits (caseSensitive : Bool) (c : Char) : Token → Bool
  | .char m => sameChar caseSensitive c m
  | .any => c != '/'
  | .within members => c != '/' && members.any (·.holds caseSensitive c)
  | .outside members => c != '/' && !members.any (·.holds caseSensitive c)
  | .run => false
  | .deep => false

/-- Goes on with `next` behind each longer stretch that `*` can take. -/
def stretchRun (next : List Char → Outcome) : List Char → Outcome
  | [] => next []
  | c :: rest =>
    if c = '/' then .failed
    else
      match next rest with
      | .failed => stretchRun next rest
      | outcome => outcome

/-- Goes on with `next` behind each longer stretch that `**` can take: behind each slash. -/
def stretchDeep (next : List Char → Outcome) : List Char → Outcome
  | [] => next []
  | c :: rest =>
    if c = '/' then
      match next rest with
      | .failed => stretchDeep next rest
      | outcome => outcome
    else stretchDeep next rest

/-- Tries to match a whole name against tokens. -/
def matchTokens (caseSensitive : Bool) : List Token → List Char → Outcome
  | [], name => if name = [] then .matched else .failed
  | .run :: tokens, name =>
    match matchTokens caseSensitive tokens name with
    | .failed => stretchRun (matchTokens caseSensitive tokens) name
    | outcome => outcome
  | .deep :: tokens, name =>
    match matchTokens caseSensitive tokens name with
    | .failed => stretchDeep (matchTokens caseSensitive tokens) name
    | outcome => outcome
  | _ :: _, [] => .exhausted
  | token :: tokens, c :: name =>
    if token.admits caseSensitive c then matchTokens caseSensitive tokens name else .failed

/-- Whether a name matches tokens as a whole. -/
def isMatch (caseSensitive : Bool) (tokens : List Token) (name : String) : Bool :=
  matchTokens caseSensitive tokens name.toList == .matched

end ArchivePlan.Glob
