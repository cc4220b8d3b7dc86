import ArchivePlan.Attributes

/-! # Rules and rulesets

A rule sets attributes of the entries that meet its condition.  A ruleset is a named list of rules;
its rules are laid over one another in order, so for each attribute the last matching rule that sets
it decides. -/

namespace ArchivePlan

/-- What an entry has to look like; a part that is left open admits everything. -/
structure Condition where
  /-- The kind it must have. -/
  kind : Option FileKind := none
  /-- The text its path must begin with. -/
  start : Option String := none
  /-- The text its path must end with. -/
  ending : Option String := none
  deriving DecidableEq, Repr

/-- Whether a path of a kind meets a condition. -/
def Condition.holds (c : Condition) (path : String) (kind : FileKind) : Bool :=
  (c.kind.all (· == kind)) && (c.start.all fun text => text.toList.isPrefixOf path.toList) &&
    (c.ending.all fun text => text.toList.isSuffixOf path.toList)

/-- Attributes for the entries that meet a condition. -/
structure Rule where
  condition : Condition := {}
  effects : Attributes := {}
  deriving DecidableEq

/-- Whether a rule applies to a path of a kind. -/
def Rule.applies (rule : Rule) (path : String) (kind : FileKind) : Bool :=
  rule.condition.holds path kind

/-- A named list of rules. -/
structure Ruleset where
  name : String
  rules : List Rule := []
  deriving DecidableEq

/-- The attributes that a list of rules sets for a path of a kind. -/
def attributesOf (rules : List Rule) (path : String) (kind : FileKind) : Attributes :=
  (rules.filter (·.applies path kind)).foldl (fun a rule => a.overlay rule.effects) .empty

/-- The attributes that a ruleset sets for a path of a kind. -/
def Ruleset.attributes (ruleset : Ruleset) (path : String) (kind : FileKind) : Attributes :=
  attributesOf ruleset.rules path kind

end ArchivePlan
