import ArchivePlan.Entry
import ArchivePlan.Plan
import ArchivePlan.Rule
import ArchivePlan.Timestamp

/-! # Manifests

A manifest declares a whole build: rulesets, entries and settings.  `check` tells whether one is
consistent by itself, and `plan` makes the plan that fills a sink with its entries. -/

namespace ArchivePlan

/-- The declaration of a build. -/
structure Manifest where
  /-- The ruleset of entries that name none. -/
  defaultRuleset : Option String := none
  /-- Base paths at or below which parent directories are added. -/
  intermediate : List String := []
  /-- A fixed modification time. -/
  timestamp : Option Timestamp := none
  /-- The algorithm of the digests of files. -/
  digest : Algorithm := .default
  rulesets : List Ruleset := []
  entries : List Entry := []
  /-- The directory from which source files are found. -/
  baseDir : Option Location := none
  deriving DecidableEq

/-- What makes a manifest inconsistent. -/
inductive ManifestFault where
  | duplicateRuleset (name : String)
  | invalidBase (path : String) (fault : Target.Fault)
  | timestamp (e : InvalidTimestamp)
  deriving DecidableEq, Repr

def ManifestFault.message : ManifestFault → String
  | .duplicateRuleset name => s!"duplicate ruleset '{name}'"
  | .invalidBase path fault => s!"invalid intermediate directory '{path}': {fault.message}"
  | .timestamp e => e.message

namespace Manifest

variable (manifest : Manifest)

def fileName : String := "payload.toml"

/-- The fixed modification time. -/
def modified : Except InvalidTimestamp (Option Instant) :=
  match manifest.timestamp with
  | none => .ok none
  | some time => time.toInstant.map some

/-- The rulesets under their names. -/
def registry : Except RegistryError Registry :=
  Registry.make manifest.rulesets manifest.defaultRuleset

def activeEntries : List Entry :=
  manifest.entries.filter fun entry => !entry.skip

/-- Refuses base paths that are no target paths. -/
def checkBases : List String → Except ManifestFault Unit
  | [] => .ok ()
  | path :: rest =>
    match Target.canonical path with
    | .ok _ => checkBases rest
    | .error fault => .error (.invalidBase path fault)

/-- Refuses two rulesets of one name, then base paths that are no target paths, then a modification
time that is none. -/
def check : Except ManifestFault Unit := do
  match firstRepeated [] (manifest.rulesets.map (·.name)) with
  | some name => throw (.duplicateRuleset name)
  | none => checkBases manifest.intermediate
  let _ ← manifest.modified.mapError .timestamp

end Manifest

/-- The plan of a manifest. -/
def Plan.ofManifest (manifest : Manifest) (policy : Policy) : Except PlanError Plan := do
  let modified ← manifest.modified.mapError .timestamp
  let registry ← manifest.registry.mapError fun e => .resolve (.registry e)
  return {
    registry, modified, policy
    intermediate := manifest.intermediate
    digest := manifest.digest
    baseDir := manifest.baseDir }

end ArchivePlan
