import ArchivePlan.Resolve
import ArchivePlan.Sink.Listing
import ArchivePlan.Sink.Parents

/-! # Filling a sink from declared entries

A plan resolves declared entries in order and gives the archive entries to a sink.  Entries that are
to be skipped are only noted.  An entry that cannot be resolved ends the run or is noted, as the
policy says; a refusal by the sink always ends it. -/

namespace ArchivePlan

/-- What happens when an entry cannot be resolved. -/
inductive Policy where
  /-- The run ends. -/
  | abort
  /-- The entry is noted and the run goes on. -/
  | proceed
  deriving DecidableEq, Repr

/-- What a run came to. -/
structure Report where
  /-- The number of archive entries that declared entries were resolved to. -/
  resolved : Nat := 0
  /-- The names of the entries that were skipped. -/
  skipped : List String := []
  /-- The names of the entries that could not be resolved, with the reasons. -/
  failed : List (String × ResolveError) := []
  deriving DecidableEq

/-- Whether every entry could be resolved. -/
def Report.isClean (report : Report) : Bool :=
  report.failed.isEmpty

/-- Rulesets and settings of a build. -/
structure Plan where
  registry : Registry
  /-- The declared base paths at or below which parent directories are added. -/
  intermediate : List String := []
  /-- A fixed modification time. -/
  modified : Option Instant := none
  /-- The algorithm of the digests of files. -/
  digest : Algorithm := .default
  /-- The directory from which source files are found. -/
  baseDir : Option Location := none
  policy : Policy := .abort

namespace Plan

variable (plan : Plan) (fs : FileSystem)

def resolver : Resolver where
  registry := plan.registry
  baseDir := plan.baseDir
  modified := plan.modified
  digest := plan.digest

/-- The root of the collection that an entry declares, if it declares one. -/
def collectionRoot (entry : Entry) : Except ResolveError (Option String) :=
  match entry.collect with
  | none => .ok none
  | some _ =>
    match entry.target with
    | .ok root => .ok (some root)
    | .error fault => .error (.invalidEntry entry.name fault)

/-- Gives the archive entries of one declared entry to a sink, between the marks of a collection if
there is a root.  A refusal leaves the collection open. -/
def emit {σ : Type} (sink : Sink σ) (state : σ) (root : Option String) (ds : List Descriptor) :
    Reply σ :=
  match root with
  | none => sink.addAll state ds
  | some root =>
    (sink.addAll (sink.enter state root) ds).andThen fun state => ⟨sink.leave state, none⟩

/-- Gives the archive entries of declared entries to a sink and continues a report. -/
def fillFrom {σ : Type} (sink : Sink σ) (report : Report) (state : σ) :
    List Entry → σ × Except PlanError Report
  | [] => (state, .ok report)
  | entry :: rest =>
    if entry.skip then
      fillFrom sink { report with skipped := report.skipped ++ [entry.name] } state rest
    else
      match plan.resolver.resolve fs entry with
      | .error e =>
        match plan.policy with
        | .abort => (state, .error (.resolve e))
        | .proceed =>
          fillFrom sink { report with failed := report.failed ++ [(entry.name, e)] } state rest
      | .ok ds =>
        match collectionRoot entry with
        | .error e => (state, .error (.resolve e))
        | .ok root =>
          let reply := emit sink state root ds
          match reply.refusal with
          | some e => (reply.state, .error e)
          | none =>
            fillFrom sink { report with resolved := report.resolved + ds.length } reply.state rest

/-- Gives the archive entries of declared entries to a sink, through a layer that adds parent
directories if there are base paths. -/
def fill {σ : Type} (sink : Sink σ) (state : σ) (entries : List Entry) :
    σ × Except PlanError Report :=
  if plan.intermediate = [] then plan.fillFrom fs sink {} state entries
  else
    match ParentLayer.make plan.registry plan.intermediate plan.modified with
    | .error e => (state, .error (.resolve e))
    | .ok layer =>
      let (state, result) := plan.fillFrom fs (layer.sink sink) {} { inner := state } entries
      (state.inner, result)

/-- The listing of declared entries, with the report of the run. -/
def build (entries : List Entry) : Except PlanError (Listing × Report) :=
  let (listing, result) := plan.fill fs Listing.sink .empty entries
  result.map fun report => (listing, report)

end Plan

end ArchivePlan
