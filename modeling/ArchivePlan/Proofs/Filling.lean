import ArchivePlan.Plan
import ArchivePlan.Proofs.LayerHistory

/-! # Filling a sink as a run of calls

A declared entry comes to no calls if it is skipped or cannot be resolved, and else to the calls
that add its archive entries, between the marks of a collection if it declares one (`Plan.calls`).
If a plan goes on after entries that cannot be resolved, then filling a sink that refuses nothing is
the run of the calls of all entries, and the report takes note of the entries one by one
(`fillFrom_proceed`).  So a build comes to the archive entries of all entries, or with base paths to
what a layer makes of them (`build_of_no_bases`, `build_of_bases`). -/

namespace ArchivePlan

namespace Call

/-- The calls that add entries, between the marks of a collection if there is a root. -/
def addAll (root : Option String) (ds : List Descriptor) : List Call :=
  match root with
  | none => ds.map .add
  | some root => .enter root :: (ds.map .add ++ [.leave])

theorem declarations_addAll (root : Option String) (ds : List Descriptor) :
    declarations none (addAll root ds) = ds.map fun d => ⟨root, d⟩ := by
  cases root with
  | none => exact declarations_map_add none ds
  | some root =>
      show declarations (some root) (ds.map .add ++ [.leave]) = _
      rw [declarations_append, declarations_map_add]
      exact List.append_nil _

theorem openRoot_addAll (root : Option String) (ds : List Descriptor) :
    openRoot none (addAll root ds) = none := by
  cases root with
  | none => exact openRoot_map_add none ds
  | some root =>
      show openRoot (some root) (ds.map .add ++ [.leave]) = _
      rw [openRoot_append]
      rfl

theorem declarations_flatMap {α : Type} {f : α → List Call} (h : ∀ a, openRoot none (f a) = none)
    (as : List α) :
    declarations none (as.flatMap f) = as.flatMap fun a => declarations none (f a) := by
  induction as with
  | nil => rfl
  | cons a as ih =>
      rw [List.flatMap_cons, List.flatMap_cons, declarations_append, h, ih]

end Call

namespace Plan

variable (plan : Plan) (fs : FileSystem)

/-- The archive entries that a declared entry comes to: none if it is skipped or cannot be
resolved. -/
def descriptors (entry : Entry) : List Descriptor :=
  if entry.skip then []
  else
    match plan.resolver.resolve fs entry with
    | .error _ => []
    | .ok ds => ds

/-- The calls that a declared entry comes to. -/
def calls (entry : Entry) : List Call :=
  if entry.skip then []
  else
    match plan.resolver.resolve fs entry, collectionRoot entry with
    | .ok ds, .ok root => Call.addAll root ds
    | _, _ => []

def noted (report : Report) (entry : Entry) : Report :=
  if entry.skip then { report with skipped := report.skipped ++ [entry.name] }
  else
    match plan.resolver.resolve fs entry with
    | .error e => { report with failed := report.failed ++ [(entry.name, e)] }
    | .ok ds => { report with resolved := report.resolved + ds.length }

variable {plan fs} {entry : Entry}

theorem collectionRoot_of_resolve {resolver : Resolver} {ds : List Descriptor}
    (h : resolver.resolve fs entry = .ok ds) : ∃ root, collectionRoot entry = .ok root := by
  unfold Resolver.resolve at h
  unfold collectionRoot
  cases entry.collect with
  | none => exact ⟨none, rfl⟩
  | some collection =>
      split at h
      · cases h
      · split at h
        · cases h
        · next target htarget =>
            rw [htarget]
            exact ⟨some target, rfl⟩

theorem openRoot_calls (entry : Entry) : Call.openRoot none (plan.calls fs entry) = none := by
  unfold calls
  split
  · rfl
  · split
    · exact Call.openRoot_addAll _ _
    · rfl

theorem openRoot_flatMap_calls (entries : List Entry) :
    Call.openRoot none (entries.flatMap (plan.calls fs)) = none := by
  induction entries with
  | nil => rfl
  | cons entry rest ih => rw [List.flatMap_cons, Call.openRoot_append, openRoot_calls, ih]

theorem map_entry_declarations_calls (entry : Entry) :
    (Call.declarations none (plan.calls fs entry)).map (·.entry) = plan.descriptors fs entry := by
  unfold calls descriptors
  split
  · rfl
  · cases hresolve : plan.resolver.resolve fs entry with
    | error e => rfl
    | ok ds =>
        obtain ⟨root, hroot⟩ := collectionRoot_of_resolve hresolve
        simp only [hroot]
        rw [Call.declarations_addAll, List.map_map]
        exact List.map_id ds

theorem entries_calls (entries : List Entry) :
    Call.entries (entries.flatMap (plan.calls fs)) = entries.flatMap (plan.descriptors fs) := by
  unfold Call.entries
  rw [Call.declarations_flatMap openRoot_calls, List.map_flatMap]
  exact congrArg (entries.flatMap ·) (funext map_entry_declarations_calls)

/-! ### Sinks that refuse nothing -/

variable {σ : Type} {sink : Sink σ}

theorem emit_of_accepts (h : sink.Accepts) (state : σ) (root : Option String)
    (ds : List Descriptor) :
    emit sink state root ds = ⟨sink.run state (Call.addAll root ds), none⟩ := by
  cases root with
  | none => exact Sink.addAll_of_accepts h state ds
  | some root =>
      unfold emit Call.addAll
      dsimp only
      rw [Sink.addAll_of_accepts h, Sink.run_cons, Sink.run_append]
      rfl

/-- **A run that goes on after failures is the run of the calls of its entries.** -/
theorem fillFrom_proceed (hpolicy : plan.policy = .proceed) (h : sink.Accepts) (report : Report)
    (state : σ) (entries : List Entry) :
    plan.fillFrom fs sink report state entries =
      (sink.run state (entries.flatMap (plan.calls fs)),
        .ok (entries.foldl (plan.noted fs) report)) := by
  induction entries generalizing report state with
  | nil => rfl
  | cons entry rest ih =>
      rw [List.flatMap_cons, Sink.run_append, List.foldl_cons]
      unfold fillFrom calls noted
      split
      · exact ih _ state
      · cases hresolve : plan.resolver.resolve fs entry with
        | error e =>
            simp only [hpolicy]
            exact ih _ state
        | ok ds =>
            obtain ⟨root, hroot⟩ := collectionRoot_of_resolve hresolve
            simp only [hroot, emit_of_accepts h]
            exact ih _ _

/-! ### Builds -/

variable (fs)

theorem build_of_no_bases (hpolicy : plan.policy = .proceed) (hnone : plan.intermediate = [])
    (entries : List Entry) :
    ∃ listing, plan.build fs entries = .ok (listing, entries.foldl (plan.noted fs) {}) ∧
      listing.entries = entries.flatMap (plan.descriptors fs) := by
  refine ⟨Listing.sink.run .empty (entries.flatMap (plan.calls fs)), ?_, ?_⟩
  · unfold build fill
    rw [if_pos hnone, fillFrom_proceed hpolicy Listing.sink_accepts]
    rfl
  · rw [Listing.run_sink, entries_calls]
    rfl

/-- With base paths a listing is what a layer makes of the calls. -/
theorem build_of_bases (hpolicy : plan.policy = .proceed) (hsome : plan.intermediate ≠ [])
    {bases : List String} (hok : canonicalBases plan.intermediate = .ok bases)
    (entries : List Entry) :
    plan.build fs entries =
      .ok ((ParentLayer.after ⟨plan.registry, bases, plan.modified⟩
        (entries.flatMap (plan.calls fs))).inner, entries.foldl (plan.noted fs) {}) := by
  have haccepts := ParentLayer.sink_accepts ⟨plan.registry, bases, plan.modified⟩
    Listing.sink_accepts
  unfold build fill ParentLayer.make
  rw [if_neg hsome, hok]
  simp only [Except.map, fillFrom_proceed hpolicy haccepts]
  rfl

end Plan

end ArchivePlan
