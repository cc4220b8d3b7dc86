import ArchivePlan.Metadata
import ArchivePlan.Rule

/-! # The rulesets of a build

A registry holds rulesets under distinct names and may name one of them as the default.  `make`
refuses a second ruleset of a name and a default that no ruleset has.  The metadata of a path are
the explicit attributes over those of one ruleset, the requested one or else the default, over the
defaults of the kind. -/

namespace ArchivePlan

/-- What can be wrong with the rulesets of a build or with a reference to one. -/
inductive RegistryError where
  | duplicateRuleset (name : String)
  | unknownRuleset (name : String)
  deriving DecidableEq, Repr

def RegistryError.message : RegistryError → String
  | .duplicateRuleset name => s!"duplicate ruleset '{name}'"
  | .unknownRuleset name => s!"unknown ruleset '{name}'"

/-- The first name that occurs a second time, given those that occurred before. -/
def firstRepeated (seen : List String) : List String → Option String
  | [] => none
  | name :: rest => if name ∈ seen then some name else firstRepeated (name :: seen) rest

theorem firstRepeated_eq_none {seen names : List String} (h : firstRepeated seen names = none) :
    names.Nodup ∧ ∀ name ∈ names, name ∉ seen := by
  induction names generalizing seen with
  | nil => simp
  | cons name rest ih =>
    rw [firstRepeated] at h
    split at h
    · exact absurd h (by simp)
    · next fresh =>
      obtain ⟨nodup, apart⟩ := ih h
      refine ⟨List.nodup_cons.2 ⟨fun mem => ?_, nodup⟩, ?_⟩
      · exact apart name mem List.mem_cons_self
      · intro other mem
        rcases List.mem_cons.1 mem with rfl | mem
        · exact fresh
        · exact fun old => apart other mem (List.mem_cons_of_mem _ old)

/-- The rulesets of a build under distinct names, with the name of the default. -/
structure Registry where
  rulesets : List Ruleset := []
  default : Option String := none
  nodup : (rulesets.map (·.name)).Nodup := by simp
  default_mem : ∀ name, default = some name → name ≠ "" ∧ name ∈ rulesets.map (·.name) := by simp

namespace Registry

def named (name : Option String) : Option String :=
  name.filter (· ≠ "")

theorem named_eq_some_iff {name : String} {given : Option String} :
    named given = some name ↔ given = some name ∧ name ≠ "" := by
  unfold named
  rw [Option.filter_eq_some_iff, decide_eq_true_iff]

theorem named_eq_none_iff {given : Option String} :
    named given = none ↔ given = none ∨ given = some "" := by
  unfold named
  cases given <;> simp

/-- The registry of the given rulesets; an empty default name stands for none. -/
def make (rulesets : List Ruleset) (default : Option String) : Except RegistryError Registry :=
  match repeated : firstRepeated [] (rulesets.map (·.name)) with
  | some name => .error (.duplicateRuleset name)
  | none =>
    match chosen : named default with
    | none => .ok { rulesets, default := none, nodup := (firstRepeated_eq_none repeated).1 }
    | some name =>
      if mem : name ∈ rulesets.map (·.name) then
        .ok {
          rulesets, default := some name, nodup := (firstRepeated_eq_none repeated).1
          default_mem := by
            rintro _ ⟨⟩
            have nonempty := (Option.filter_eq_some_iff.1 chosen).2
            exact ⟨by simpa using nonempty, mem⟩ }
      else .error (.unknownRuleset name)

variable (registry : Registry)

/-- The ruleset with a name. -/
def get? (name : String) : Option Ruleset :=
  registry.rulesets.find? (·.name == name)

def names : List String :=
  (registry.rulesets.map (·.name)).mergeSort fun a b => decide (a ≤ b)

/-- The name of the ruleset that applies where one may be requested. -/
def effective (requested : Option String) : Option String :=
  (named requested).or registry.default

/-- Refuses a request for a ruleset that does not exist. -/
def check (requested : Option String) : Except RegistryError Unit :=
  match registry.effective requested with
  | some name =>
    if registry.rulesets.any (·.name == name) then .ok () else .error (.unknownRuleset name)
  | none => .ok ()

/-- The attributes of a path: the explicit ones over those of the ruleset that applies. -/
def attributes (path : String) (kind : FileKind) (requested : Option String)
    (explicit : Attributes) : Except RegistryError Attributes :=
  match registry.effective requested with
  | none => .ok (Attributes.empty.overlay explicit)
  | some name =>
    match registry.get? name with
    | some ruleset => .ok ((ruleset.attributes path kind).overlay explicit)
    | none => .error (.unknownRuleset name)

/-- The metadata of a path: its attributes over the defaults of its kind. -/
def metadata (path : String) (kind : FileKind) (requested : Option String)
    (explicit : Attributes) : Except RegistryError Metadata :=
  (registry.attributes path kind requested explicit).map (Metadata.ofAttributes kind)

end Registry

end ArchivePlan
