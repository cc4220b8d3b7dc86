import ArchivePlan.Registry
import ArchivePlan.Sink.Basic
import ArchivePlan.Target

/-! # Adding parent directories

A layer around a sink that adds the directories an entry lies in before the entry itself, outermost
first: those at or below a base path that were not added before.  A directory that is declared later
takes the place of the added one.  Directories strictly below the root of an open collection are
left to the collection. -/

namespace ArchivePlan

/-- What a layer goes by. -/
structure ParentLayer where
  registry : Registry
  /-- The canonical paths at or below which directories are added. -/
  bases : List String
  /-- A fixed modification time. -/
  modified : Option Instant := none

/-- The canonical forms of declared base paths. -/
def canonicalBases : List String → Except ResolveError (List String)
  | [] => .ok []
  | declared :: rest =>
    match Target.canonical declared with
    | .error fault => .error (.invalidEntry declared (.badTarget fault))
    | .ok base => (canonicalBases rest).map (base :: ·)

/-- The layer with the given base paths as they were declared. -/
def ParentLayer.make (registry : Registry) (bases : List String) (modified : Option Instant) :
    Except ResolveError ParentLayer :=
  (canonicalBases bases).map fun bases => { registry, bases, modified }

/-- The state of a layer around a sink with states in `σ`. -/
structure Layered (σ : Type) where
  inner : σ
  /-- The paths of the directories that were added. -/
  emitted : List String := []
  /-- Those of them that were not declared. -/
  provisional : List String := []
  /-- The root of the open collection. -/
  collection : Option String := none
  deriving DecidableEq

namespace ParentLayer

variable {σ : Type} (layer : ParentLayer) (inner : Sink σ)

/-- Whether a directory is to be added before what lies in it. -/
def wants (state : Layered σ) (directory : String) : Bool :=
  directory ∉ state.emitted &&
    layer.bases.any (Target.isWithin directory) &&
    state.collection.all fun root => directory = root || !Target.isWithin directory root

/-- The archive entry for a directory that is not declared. -/
def parent (directory : String) : Except RegistryError Descriptor :=
  (layer.registry.metadata directory .directory none .empty).map fun metadata => {
    path := directory, kind := .directory, content := .none
    metadata := metadata.stamped layer.modified }

/-- Adds those directories that are wanted, up to the first refusal. -/
def addParents (state : Layered σ) : List String → Reply (Layered σ)
  | [] => ⟨state, none⟩
  | directory :: rest =>
    if layer.wants state directory then
      match layer.parent directory with
      | .error e => ⟨state, some (.resolve (.registry e))⟩
      | .ok d =>
        let reply := inner.add state.inner d
        match reply.refusal with
        | some e => ⟨{ state with inner := reply.state }, some e⟩
        | none =>
          let state := {
            state with
            inner := reply.state
            emitted := state.emitted.insert directory
            provisional := state.provisional.insert directory }
          addParents state rest
    else addParents state rest

/-- Adds an entry behind its parent directories. -/
def add (state : Layered σ) (d : Descriptor) : Reply (Layered σ) :=
  (layer.addParents inner state (Target.ancestors d.path)).andThen fun state =>
    if d.isDirectory ∧ d.path ∈ state.provisional then
      let state := { state with provisional := state.provisional.filter (· ≠ d.path) }
      (inner.supersede state.inner d).map fun next => { state with inner := next }
    else
      let state :=
        if d.isDirectory then { state with emitted := state.emitted.insert d.path } else state
      (inner.add state.inner d).map fun next => { state with inner := next }

/-- Puts a directory in the place of the one of the same path. -/
def supersede (state : Layered σ) (d : Descriptor) : Reply (Layered σ) :=
  let state := {
    state with
    provisional := state.provisional.filter (· ≠ d.path)
    emitted := state.emitted.insert d.path }
  (inner.supersede state.inner d).map fun next => { state with inner := next }

/-- The layer around a sink as a sink. -/
def sink : Sink (Layered σ) where
  add := layer.add inner
  supersede := supersede inner
  enter state root := { state with collection := some root, inner := inner.enter state.inner root }
  leave state := { state with collection := none, inner := inner.leave state.inner }

end ParentLayer

end ArchivePlan
