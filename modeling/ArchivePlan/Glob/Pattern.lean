/-! # Glob patterns

A pattern is compiled to a list of tokens.  `?` stands for any character but a slash, `*` for any
run of them, `**` as a whole component for any run of components, and brackets for a set of
characters.  `compile` reads a pattern from left to right and refuses it at the first place that has
no meaning, counted in characters. -/

namespace ArchivePlan.Glob

/-- A member of a set of characters. -/
inductive Member where
  | one (c : Char)
  | range (low high : Char)
  deriving DecidableEq, Repr

/-- A part of a compiled pattern. -/
inductive Token where
  /-- This character. -/
  | char (c : Char)
  /-- Any character but a slash. -/
  | any
  /-- Any run of characters without a slash. -/
  | run
  /-- Any run of whole components. -/
  | deep
  /-- A character of a set. -/
  | within (members : List Member)
  /-- A character outside a set. -/
  | outside (members : List Member)
  deriving DecidableEq, Repr

/-- Why a text is not a pattern. -/
inductive FaultKind where
  /-- Three or more stars in a row. -/
  | manyStars
  /-- Two stars that are not a whole component. -/
  | partialComponent
  /-- A bracket without its end. -/
  | openSet
  deriving DecidableEq, Repr

/-- Why and where a text is not a pattern. -/
structure Fault where
  position : Nat
  kind : FaultKind
  deriving DecidableEq, Repr

def FaultKind.message : FaultKind → String
  | .manyStars =>
    "wildcards are either regular \x60*\x60 or recursive \x60**\x60"
  | .partialComponent => "recursive wildcards must form a single path component"
  | .openSet => "invalid range pattern"

def Fault.message (fault : Fault) : String :=
  s!"Pattern syntax error near position {fault.position}: {fault.kind.message}"

/-- The members that the text between brackets lists. -/
def members : List Char → List Member
  | low :: '-' :: high :: rest => .range low high :: members rest
  | c :: rest => .one c :: members rest
  | [] => []

/-- The tokens of a set, given by the reversed text between its brackets. -/
def setToken (negated : Bool) (content : List Char) : Token :=
  if negated then .outside (members content.reverse) else .within (members content.reverse)

/-- Puts `**` behind the tokens read so far, which are in reverse order; a further one directly
behind it adds nothing. -/
def pushDeep (done : List Token) : List Token :=
  match done with
  | .deep :: _ :: _ => done
  | _ => .deep :: done

/-- Where the compiler stands between two characters. -/
inductive State where
  /-- Between tokens, with the character read last. -/
  | between (last : Option Char)
  /-- Inside the brackets opened at `start`, with the reversed text read in them so far. -/
  | inSet (start : Nat) (negated : Bool) (content : List Char)
  deriving DecidableEq, Repr

/-- Whether two stars behind this character can be a whole component. -/
def opensComponent : Option Char → Bool
  | none => true
  | some c => c == '/'

/-- Compiles the rest of a pattern from a position on; `done` has the tokens read so far in reverse
order. -/
def compileFrom (position : Nat) (done : List Token) :
    State → List Char → Except Fault (List Token)
  | .between _, [] => .ok done.reverse
  | .between _, '*' :: '*' :: '*' :: _ => .error ⟨position + 2, .manyStars⟩
  | .between last, '*' :: '*' :: rest =>
    if opensComponent last then
      match rest with
      | [] => .ok (pushDeep done).reverse
      | '/' :: rest => compileFrom (position + 3) (pushDeep done) (.between (some '/')) rest
      | _ => .error ⟨position + 2, .partialComponent⟩
    else .error ⟨position - 1, .partialComponent⟩
  | .between _, '*' :: rest => compileFrom (position + 1) (.run :: done) (.between (some '*')) rest
  | .between _, '?' :: rest => compileFrom (position + 1) (.any :: done) (.between (some '?')) rest
  | .between _, '[' :: rest => compileFrom (position + 1) done (.inSet position false []) rest
  | .between _, c :: rest => compileFrom (position + 1) (.char c :: done) (.between (some c)) rest
  | .inSet start _ _, [] => .error ⟨start, .openSet⟩
  | .inSet start negated content, c :: rest =>
    if c = '!' ∧ content = [] ∧ negated = false then
      compileFrom (position + 1) done (.inSet start true []) rest
    else if c = ']' ∧ content ≠ [] then
      compileFrom (position + 1) (setToken negated content :: done) (.between (some ']')) rest
    else compileFrom (position + 1) done (.inSet start negated (c :: content)) rest

/-- The tokens of a pattern. -/
def compile (pattern : List Char) : Except Fault (List Token) :=
  compileFrom 0 [] (.between none) pattern

end ArchivePlan.Glob
