import ArchivePlan.Proofs.Filling

/-! # What failures leave behind

The two policies differ only in what a failure does to the run.  Going on after failures gives the
listing that the entries without failure give by themselves, and a report that has every entry in
one place: among the skipped, among the failed, or counted by its archive entries (`reportOn`).
Aborting gives the same while nothing fails, and the first failure of that report otherwise
(`fill_policies`).

Everything is stated of the list of failures (`failures`): a run with none does not depend on the
policy (`fillFrom_of_no_failures`), and one that aborts ends with the first
(`fillFrom_abort_of_failures`). -/

namespace ArchivePlan.Plan

variable (plan : Plan) (fs : FileSystem)

def under (policy : Policy) : Plan :=
  { plan with policy }

/-- Whether a declared entry is not skipped and can be resolved. -/
def resolves (entry : Entry) : Bool :=
  !entry.skip && (plan.resolver.resolve fs entry).isOk

/-- The name of a declared entry with the reason why it cannot be resolved, unless it is skipped. -/
def failure? (entry : Entry) : Option (String × ResolveError) :=
  if entry.skip then none
  else
    match plan.resolver.resolve fs entry with
    | .error e => some (entry.name, e)
    | .ok _ => none

/-- The failures among declared entries, in order. -/
def failures (entries : List Entry) : List (String × ResolveError) :=
  entries.filterMap (plan.failure? fs)

/-- The report of a run over all of the entries. -/
def reportOn (entries : List Entry) : Report where
  resolved := ((entries.filter (plan.resolves fs)).flatMap (plan.descriptors fs)).length
  skipped := (entries.filter (·.skip)).map (·.name)
  failed := plan.failures fs entries

variable {plan fs} {entry : Entry} {entries : List Entry}

/-! ### Single entries -/

/-- An entry is skipped, fails or resolves, and says so to the report and to the sink. -/
theorem entry_cases (plan : Plan) (fs : FileSystem) (entry : Entry) :
    (entry.skip = true ∧ plan.resolves fs entry = false ∧ plan.failure? fs entry = none) ∨
    (∃ e, entry.skip = false ∧ plan.resolver.resolve fs entry = .error e ∧
      plan.resolves fs entry = false ∧ plan.failure? fs entry = some (entry.name, e)) ∨
    ∃ ds root, entry.skip = false ∧ plan.resolver.resolve fs entry = .ok ds ∧
      collectionRoot entry = .ok root ∧ plan.resolves fs entry = true ∧
      plan.failure? fs entry = none := by
  unfold resolves failure?
  cases hskip : entry.skip with
  | true => exact Or.inl ⟨rfl, rfl, rfl⟩
  | false =>
      cases hresolve : plan.resolver.resolve fs entry with
      | error e => exact Or.inr (Or.inl ⟨e, rfl, rfl, rfl, rfl⟩)
      | ok ds =>
          obtain ⟨root, hroot⟩ := collectionRoot_of_resolve hresolve
          exact Or.inr (Or.inr ⟨ds, root, rfl, rfl, hroot, rfl, rfl⟩)

theorem calls_of_not_resolves (h : plan.resolves fs entry = false) : plan.calls fs entry = [] := by
  unfold calls
  obtain ⟨hskip, -⟩ | ⟨e, hskip, hresolve, -⟩ | ⟨ds, root, -, -, -, hresolves, -⟩ :=
    entry_cases plan fs entry
  · simp [hskip]
  · simp [hskip, hresolve]
  · rw [hresolves] at h
    cases h

theorem failure?_of_resolves (h : plan.resolves fs entry = true) :
    plan.failure? fs entry = none := by
  obtain ⟨-, -, hnone⟩ | ⟨e, -, -, hresolves, -⟩ | ⟨ds, root, -, -, -, -, hnone⟩ :=
    entry_cases plan fs entry
  · exact hnone
  · rw [hresolves] at h
    cases h
  · exact hnone

theorem flatMap_calls_filter (entries : List Entry) :
    (entries.filter (plan.resolves fs)).flatMap (plan.calls fs) =
      entries.flatMap (plan.calls fs) := by
  induction entries with
  | nil => rfl
  | cons entry rest ih =>
      rw [List.filter_cons, List.flatMap_cons, ← ih]
      split
      · rfl
      · next h => rw [calls_of_not_resolves (by simpa using h), List.nil_append]

theorem failures_filter_resolves (entries : List Entry) :
    plan.failures fs (entries.filter (plan.resolves fs)) = [] := by
  unfold failures
  rw [List.filterMap_eq_nil_iff]
  intro entry hentry
  exact failure?_of_resolves (List.mem_filter.mp hentry).2

/-! ### Reports -/

theorem foldl_noted (report : Report) (entries : List Entry) :
    entries.foldl (plan.noted fs) report = {
      resolved := report.resolved + (plan.reportOn fs entries).resolved
      skipped := report.skipped ++ (plan.reportOn fs entries).skipped
      failed := report.failed ++ (plan.reportOn fs entries).failed } := by
  induction entries generalizing report with
  | nil => simp [reportOn, failures]
  | cons entry rest ih =>
      rw [List.foldl_cons, ih]
      unfold noted
      obtain ⟨hskip, hresolves, hnone⟩ | ⟨e, hskip, hresolve, hresolves, hsome⟩ |
        ⟨ds, root, hskip, hresolve, -, hresolves, hnone⟩ := entry_cases plan fs entry
      · simp [reportOn, failures, hskip, hresolves, hnone]
      · simp [reportOn, failures, hskip, hresolve, hresolves, hsome]
      · simp [reportOn, failures, descriptors, hskip, hresolve, hresolves, hnone, Nat.add_assoc]

theorem foldl_noted_empty (entries : List Entry) :
    entries.foldl (plan.noted fs) {} = plan.reportOn fs entries := by
  rw [foldl_noted]
  simp

theorem reportOn_filter_resolves (entries : List Entry) :
    plan.reportOn fs (entries.filter (plan.resolves fs)) =
      { resolved := (plan.reportOn fs entries).resolved } := by
  have hskipped : (entries.filter (plan.resolves fs)).filter (·.skip) = [] := by
    rw [List.filter_eq_nil_iff]
    intro entry hentry hskip
    have hresolves := (List.mem_filter.mp hentry).2
    unfold resolves at hresolves
    simp [hskip] at hresolves
  unfold reportOn
  rw [hskipped, failures_filter_resolves, List.filter_filter]
  simp

/-! ### Runs into sinks that refuse nothing -/

section

variable {σ : Type} {sink : Sink σ}

/-- Without failures the policy makes no difference. -/
theorem fillFrom_of_no_failures (h : sink.Accepts) (hnone : plan.failures fs entries = [])
    (report : Report) (state : σ) :
    plan.fillFrom fs sink report state entries =
      (sink.run state (entries.flatMap (plan.calls fs)),
        .ok (entries.foldl (plan.noted fs) report)) := by
  induction entries generalizing report state with
  | nil => rfl
  | cons entry rest ih =>
      rw [List.flatMap_cons, Sink.run_append, List.foldl_cons]
      have hrest : plan.failures fs rest = [] := by
        unfold failures at hnone ⊢
        rw [List.filterMap_eq_nil_iff] at hnone ⊢
        exact fun entry hentry => hnone entry (List.mem_cons_of_mem _ hentry)
      unfold fillFrom calls noted
      obtain ⟨hskip, -⟩ | ⟨e, -, -, -, hsome⟩ | ⟨ds, root, hskip, hresolve, hroot, -⟩ :=
        entry_cases plan fs entry
      · simp only [hskip, if_true]
        exact ih hrest _ state
      · simp [failures, hsome] at hnone
      · simp only [hskip, hresolve, hroot, emit_of_accepts h]
        exact ih hrest _ _

/-- A run that aborts ends with the first failure. -/
theorem fillFrom_abort_of_failures (hpolicy : plan.policy = .abort) (h : sink.Accepts)
    {name : String} {e : ResolveError} {more : List (String × ResolveError)}
    (hfailures : plan.failures fs entries = (name, e) :: more) (report : Report) (state : σ) :
    (plan.fillFrom fs sink report state entries).2 = .error (.resolve e) := by
  induction entries generalizing report state with
  | nil => cases hfailures
  | cons entry rest ih =>
      unfold fillFrom
      obtain ⟨hskip, -, hnone⟩ | ⟨e', hskip, hresolve, -, hsome⟩ |
        ⟨ds, root, hskip, hresolve, hroot, -, hnone⟩ := entry_cases plan fs entry
      · simp only [hskip, if_true]
        exact ih (by simpa [failures, hnone] using hfailures) _ state
      · have hfirst : e' = e := by
          simp only [failures, List.filterMap_cons, hsome, List.cons.injEq, Prod.mk.injEq]
            at hfailures
          exact hfailures.1.2
        simp [hskip, hresolve, hpolicy, hfirst]
      · simp only [hskip, hresolve, hroot, emit_of_accepts h]
        exact ih (by simpa [failures, hnone] using hfailures) _ _

/-- With base paths that are target paths, filling is a run into one sink whatever the entries and
the policy are: the sink itself or a layer around it. -/
theorem fill_eq_fillFrom (plan : Plan) (fs : FileSystem) (h : sink.Accepts)
    (hbases : ∀ name ∈ plan.intermediate, ∃ base, Target.canonical name = .ok base) (state : σ) :
    ∃ (τ : Type) (outer : Sink τ) (first : τ) (back : τ → σ), outer.Accepts ∧
      ∀ policy entries, (plan.under policy).fill fs sink state entries =
        (back ((plan.under policy).fillFrom fs outer {} first entries).1,
          ((plan.under policy).fillFrom fs outer {} first entries).2) := by
  by_cases hnone : plan.intermediate = []
  · exact ⟨σ, sink, state, id, h, fun policy entries => if_pos hnone⟩
  · obtain ⟨bases, hok⟩ := canonicalBases_ok hbases
    refine ⟨Layered σ, ParentLayer.sink ⟨plan.registry, bases, plan.modified⟩ sink,
      { inner := state }, (·.inner), ParentLayer.sink_accepts _ h, fun policy entries => ?_⟩
    unfold fill ParentLayer.make under
    rw [if_neg hnone, hok]
    rfl

end

/-! ### Both policies -/

/-- **The policies agree.**  Going on after failures gives the listing that aborting gives for the
entries which are not skipped and resolve, and the report on all entries; and aborting ends in an
error if and only if there is a failure in this report, with the first one. -/
theorem fill_policies
    (hbases : ∀ name ∈ plan.intermediate, ∃ base, Target.canonical name = .ok base)
    (start : Listing) (entries : List Entry) :
    ∃ listing,
      (plan.under .proceed).fill fs Listing.sink start entries =
        (listing, .ok (plan.reportOn fs entries)) ∧
      (plan.under .abort).fill fs Listing.sink start (entries.filter (plan.resolves fs)) =
        (listing, .ok { resolved := (plan.reportOn fs entries).resolved }) ∧
      ((∃ e, ((plan.under .abort).fill fs Listing.sink start entries).2 = .error e) ↔
        (plan.reportOn fs entries).failed ≠ []) ∧
      ∀ name e more, (plan.reportOn fs entries).failed = (name, e) :: more →
        ((plan.under .abort).fill fs Listing.sink start entries).2 = .error (.resolve e) := by
  obtain ⟨τ, outer, first, back, haccepts, hfill⟩ :=
    fill_eq_fillFrom plan fs Listing.sink_accepts hbases start
  have habort : (plan.under .abort).policy = .abort := rfl
  have hproceed : (plan.under .proceed).policy = .proceed := rfl
  have hfailed : ∀ name e more, plan.failures fs entries = (name, e) :: more →
      ((plan.under .abort).fill fs Listing.sink start entries).2 = .error (.resolve e) := by
    intro name e more hfailures
    rw [hfill]
    exact fillFrom_abort_of_failures habort haccepts hfailures {} first
  refine ⟨back (outer.run first (entries.flatMap (plan.calls fs))), ?_, ?_, ?_, hfailed⟩
  · rw [hfill, fillFrom_proceed hproceed haccepts, foldl_noted_empty]
    rfl
  · have hnone : (plan.under .abort).failures fs (entries.filter (plan.resolves fs)) = [] :=
      failures_filter_resolves entries
    have hcalls : (entries.filter (plan.resolves fs)).flatMap ((plan.under .abort).calls fs) =
      entries.flatMap (plan.calls fs) := flatMap_calls_filter entries
    have hreport : (plan.under .abort).reportOn fs (entries.filter (plan.resolves fs)) =
      { resolved := (plan.reportOn fs entries).resolved } := reportOn_filter_resolves entries
    rw [hfill, fillFrom_of_no_failures haccepts hnone, foldl_noted_empty, hcalls, hreport]
  · constructor
    · rintro ⟨e, he⟩ hclean
      have hnone : (plan.under .abort).failures fs entries = [] := hclean
      rw [hfill, fillFrom_of_no_failures haccepts hnone] at he
      cases he
    · intro hsome
      obtain ⟨⟨name, e⟩, more, hfailures⟩ := List.exists_cons_of_ne_nil hsome
      exact ⟨.resolve e, hfailed name e more hfailures⟩

/-- With a base path, a skipped entry that is malformed, a file that is missing and a link whose
ruleset is: the link that remains is recorded behind its directory. -/
theorem fill_policies_two_failures :
    (∀ name ∈ ["/opt/"], ∃ base, Target.canonical name = .ok base) ∧
    ∃ listing,
      ({ registry := {}, intermediate := ["/opt/"], policy := .proceed } : Plan).fill {}
          Listing.sink .empty
          [{ name := "no path", skip := true }, { name := "/opt/f", file := some "/f" },
            { name := "/opt/l", linkTo := some "f", ruleset := some "r" },
            { name := "/opt/k", linkTo := some "f" }] =
        (listing, .ok {
          resolved := 1, skipped := ["no path"]
          failed := [("/opt/f", .missingSource "/opt/f" (.ofString "/f") (.io .notFound)),
            ("/opt/l", .registry (.unknownRuleset "r"))] }) := by
  have hbases : ∀ name ∈ ["/opt/"], ∃ base, Target.canonical name = .ok base := by
    intro name hname
    obtain rfl := List.mem_singleton.mp hname
    exact ⟨"/opt", rfl⟩
  refine ⟨hbases, ?_⟩
  obtain ⟨listing, hproceed, -⟩ :=
    @fill_policies { registry := {}, intermediate := ["/opt/"] } {} hbases .empty
      [{ name := "no path", skip := true }, { name := "/opt/f", file := some "/f" },
        { name := "/opt/l", linkTo := some "f", ruleset := some "r" },
        { name := "/opt/k", linkTo := some "f" }]
  refine ⟨listing, hproceed.trans ?_⟩
  rfl

end ArchivePlan.Plan
