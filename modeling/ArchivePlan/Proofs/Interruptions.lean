import ArchivePlan.Proofs.Requests
import ArchivePlan.Proofs.StandIns
import ArchivePlan.Sink.Gate

/-! # Runs that a sink interrupts

Filling a sink without base paths makes the calls of one entry after the other, until an entry
cannot be resolved or the sink refuses something (`Plan.Fills`).  A sink that notes down what it is
asked (`Sink.noting`) shows that these are all the requests it gets (`Plan.exists_calls`).

Collections do not nest in them (`Call.Alternate`), and what is added while one is open belongs to
the entry that declares it.  When a run ends each collection has been closed, with one exception: if
the sink refuses an entry of a collection, this collection is left open
(`Plan.collections_of_fill`).  Whoever goes on with the sink is still in it then, and a layer leaves
out directories below its root (`Plan.refused_collection_left_open`). -/

namespace ArchivePlan

namespace Call

def request : Call → Request
  | .add d => .add d
  | .enter root => .enter root
  | .leave => .leave

theorem request_injective : Function.Injective request := by
  intro a b h
  cases a <;> cases b <;> cases h <;> rfl

@[simp] theorem map_request_map_add (ds : List Descriptor) :
    (ds.map Call.add).map request = ds.map .add :=
  List.map_map

/-- Collections do not nest: one begins only where none is open, and ends only where one is. -/
def Alternate : Option String → List Call → Prop
  | _, [] => True
  | root, .add _ :: calls => Alternate root calls
  | none, .enter root :: calls => Alternate (some root) calls
  | some _, .leave :: calls => Alternate none calls
  | some _, .enter _ :: _ => False
  | none, .leave :: _ => False

theorem alternate_append (root : Option String) (before after : List Call) :
    Alternate root (before ++ after) ↔
      Alternate root before ∧ Alternate (openRoot root before) after := by
  induction before generalizing root with
  | nil => exact (iff_of_eq (true_and _)).symm
  | cons c before ih =>
      cases c <;> cases root <;> simp [Alternate, openRoot, ih]

theorem alternate_map_add (root : Option String) (ds : List Descriptor) :
    Alternate root (ds.map .add) := by
  induction ds with
  | nil => cases root <;> trivial
  | cons d ds ih => cases root <;> exact ih

/-- The calls before entries are added: the mark of a collection if there is a root. -/
def opening (root : Option String) : List Call :=
  (root.map .enter).toList

def closing (root : Option String) : List Call :=
  (root.map fun _ => .leave).toList

theorem addAll_eq (root : Option String) (ds : List Descriptor) :
    addAll root ds = opening root ++ (ds.map .add ++ closing root) := by
  cases root with
  | none => exact (List.append_nil _).symm
  | some root => rfl

@[simp] theorem openRoot_opening (root : Option String) : openRoot none (opening root) = root := by
  cases root <;> rfl

theorem alternate_opening_map_add (root : Option String) (ds : List Descriptor) :
    Alternate none (opening root ++ ds.map .add) := by
  rw [alternate_append, openRoot_opening]
  refine ⟨?_, alternate_map_add root ds⟩
  cases root <;> trivial

theorem alternate_addAll (root : Option String) (ds : List Descriptor) :
    Alternate none (addAll root ds) := by
  rw [addAll_eq, ← List.append_assoc, alternate_append, openRoot_append, openRoot_opening,
    openRoot_map_add]
  refine ⟨alternate_opening_map_add root ds, ?_⟩
  cases root <;> trivial

end Call

/-! ### Sinks that note down what they are asked -/

namespace Sink

variable {σ : Type} (sink : Sink σ)

/-- A sink that notes down each request before it answers. -/
def noting : Sink (σ × List Request) where
  add state d := (sink.add state.1 d).map fun next => (next, state.2 ++ [.add d])
  supersede state d := (sink.supersede state.1 d).map fun next => (next, state.2 ++ [.supersede d])
  enter state root := (sink.enter state.1 root, state.2 ++ [.enter root])
  leave state := (sink.leave state.1, state.2 ++ [.leave])

@[simp] theorem run_noting (state : σ) (notes : List Request) (calls : List Call) :
    sink.noting.run (state, notes) calls =
      (sink.run state calls, notes ++ calls.map Call.request) := by
  induction calls generalizing state notes with
  | nil => rw [List.map_nil, List.append_nil]; rfl
  | cons c calls ih =>
      have hstep : (sink.noting.answer (state, notes) c).state =
          ((sink.answer state c).state, notes ++ [c.request]) := by
        cases c <;> rfl
      rw [run_cons, run_cons, hstep, ih, List.append_assoc]
      rfl

/-- What adding entries comes to: the entries that the sink is asked to add, and its refusal of the
last of them. -/
inductive Adds (state : σ) (ds : List Descriptor) : List Descriptor → Option PlanError → Prop
  | all : Adds state ds ds none
  | refused (taken left : List Descriptor) (d : Descriptor) {e : PlanError}
      (split : ds = taken ++ d :: left)
      (refused : (sink.add (sink.run state (taken.map .add)) d).refusal = some e) :
      Adds state ds (taken ++ [d]) (some e)

variable {sink}

theorem Adds.cons {state : σ} {d : Descriptor} {ds given : List Descriptor}
    {refusal : Option PlanError} (h : sink.Adds (sink.add state d).state ds given refusal) :
    sink.Adds state (d :: ds) (d :: given) refusal := by
  cases h with
  | all => exact .all
  | refused taken left last split refused =>
      exact .refused (d :: taken) left last (congrArg (d :: ·) split) refused

theorem Adds.isPrefix {state : σ} {ds given : List Descriptor} {refusal : Option PlanError}
    (h : sink.Adds state ds given refusal) : given <+: ds := by
  cases h with
  | all => exact List.prefix_rfl
  | refused taken left d split =>
      exact ⟨left, by rw [split, List.append_assoc, List.singleton_append]⟩

/-- A sink is asked to add entries up to the first that it refuses, and notes that. -/
theorem exists_adds (state : σ) (notes : List Request) (ds : List Descriptor) :
    ∃ given, (sink.addAll state ds).state = sink.run state (given.map .add) ∧
      sink.noting.addAll (state, notes) ds = (sink.addAll state ds).map
        (fun next => (next, notes ++ given.map .add)) ∧
      sink.Adds state ds given (sink.addAll state ds).refusal := by
  induction ds generalizing state notes with
  | nil =>
      refine ⟨[], rfl, ?_, .all⟩
      simp [addAll, Reply.map]
  | cons d rest ih =>
      rw [addAll, addAll]
      cases hrefusal : (sink.add state d).refusal with
      | none =>
          obtain ⟨given, hstate, hnoting, hadds⟩ := ih (sink.add state d).state (notes ++ [.add d])
          refine ⟨d :: given, ?_, ?_, ?_⟩
          · simp only [Reply.andThen, hrefusal]
            exact hstate
          · simp only [noting, Reply.map, Reply.andThen, hrefusal] at hnoting ⊢
            rw [hnoting]
            simp
          · simp only [Reply.andThen, hrefusal]
            exact hadds.cons
      | some e =>
          refine ⟨[d], ?_, ?_, ?_⟩
          · simp only [Reply.andThen, hrefusal]
            rfl
          · simp only [noting, Reply.map, Reply.andThen, hrefusal, List.map_singleton]
          · simp only [Reply.andThen, hrefusal]
            exact .refused [] rest d rfl hrefusal

end Sink

/-! ### Filling a sink -/

namespace Plan

variable (plan : Plan) (fs : FileSystem) {σ : Type} (sink : Sink σ)

/-- What filling a sink comes to: the calls that are made, the root of the collection that is open
in the end, and the result. -/
inductive Fills (state : σ) (entries : List Entry) :
    List Call → Option String → Except PlanError Report → Prop
  | filled {report : Report} :
      Fills state entries (entries.flatMap (plan.calls fs)) none (.ok report)
  /-- An entry cannot be resolved. -/
  | failed (before after : List Entry) (entry : Entry) {e : ResolveError}
      (split : entries = before ++ entry :: after) (policy : plan.policy = .abort)
      (skip : entry.skip = false) (unresolved : plan.resolver.resolve fs entry = .error e) :
      Fills state entries (before.flatMap (plan.calls fs)) none (.error (.resolve e))
  /-- The sink refuses the last archive entry that is given for an entry. -/
  | refused (before after : List Entry) (entry : Entry) {root : Option String}
      {ds given : List Descriptor} {e : PlanError} (split : entries = before ++ entry :: after)
      (skip : entry.skip = false) (resolved : plan.resolver.resolve fs entry = .ok ds)
      (collects : collectionRoot entry = .ok root)
      (adds : sink.Adds (sink.run state (before.flatMap (plan.calls fs) ++ Call.opening root)) ds
        given (some e)) :
      Fills state entries
        (before.flatMap (plan.calls fs) ++ (Call.opening root ++ given.map .add)) root (.error e)

variable {plan fs sink}

theorem Fills.cons {state : σ} {entry : Entry} {rest : List Entry} {calls : List Call}
    {opened : Option String} {result : Except PlanError Report}
    (h : plan.Fills fs sink (sink.run state (plan.calls fs entry)) rest calls opened result) :
    plan.Fills fs sink state (entry :: rest) (plan.calls fs entry ++ calls) opened result := by
  cases h with
  | filled => exact .filled
  | failed before after other split policy skip unresolved =>
      exact .failed (entry :: before) after other (congrArg (entry :: ·) split) policy skip
        unresolved
  | refused before after other split skip resolved collects adds =>
      rw [← List.append_assoc]
      refine .refused (entry :: before) after other (congrArg (entry :: ·) split) skip resolved
        collects ?_
      rw [List.flatMap_cons, List.append_assoc, Sink.run_append]
      exact adds

theorem Fills.cons_of_not_resolves {state : σ} {entry : Entry} {rest : List Entry}
    {calls : List Call} {opened : Option String} {result : Except PlanError Report}
    (h : plan.Fills fs sink state rest calls opened result)
    (hresolves : plan.resolves fs entry = false) :
    plan.Fills fs sink state (entry :: rest) calls opened result := by
  have hnone : plan.calls fs entry = [] := calls_of_not_resolves hresolves
  rw [← List.nil_append calls, ← hnone]
  exact Fills.cons (by rwa [hnone])

theorem emit_eq (state : σ) (root : Option String) (ds : List Descriptor) :
    emit sink state root ds = (sink.addAll (sink.run state (Call.opening root)) ds).andThen
      fun last => ⟨sink.run last (Call.closing root), none⟩ := by
  cases root with
  | none =>
      show sink.addAll state ds = (sink.addAll state ds).andThen fun last => ⟨last, none⟩
      generalize sink.addAll state ds = reply
      obtain ⟨last, _ | e⟩ := reply <;> rfl
  | some root => rfl

/-- What giving the archive entries of one entry comes to: the calls that are made, and the refusal
of the last. -/
inductive Emits (sink : Sink σ) (state : σ) (root : Option String) (ds : List Descriptor) :
    List Call → Option PlanError → Prop
  | all : Emits sink state root ds (Call.addAll root ds) none
  | refused {given : List Descriptor} {e : PlanError}
      (adds : sink.Adds (sink.run state (Call.opening root)) ds given (some e)) :
      Emits sink state root ds (Call.opening root ++ given.map .add) (some e)

/-- The archive entries of one entry are given as a whole, or up to one that is refused, and the
sink notes that. -/
theorem exists_emitted (sink : Sink σ) (state : σ) (notes : List Request) (root : Option String)
    (ds : List Descriptor) :
    ∃ calls, (emit sink state root ds).state = sink.run state calls ∧
      emit sink.noting (state, notes) root ds = (emit sink state root ds).map
        (fun next => (next, notes ++ calls.map Call.request)) ∧
      Emits sink state root ds calls (emit sink state root ds).refusal := by
  obtain ⟨given, hstate, hnoting, hadds⟩ := sink.exists_adds (sink.run state (Call.opening root))
    (notes ++ (Call.opening root).map Call.request) ds
  rw [emit_eq, emit_eq, Sink.run_noting, hnoting]
  generalize sink.addAll (sink.run state (Call.opening root)) ds = reply at hstate hadds ⊢
  obtain ⟨last, refusal⟩ := reply
  dsimp only at hstate hadds
  subst hstate
  cases hadds with
  | all =>
      refine ⟨Call.addAll root ds, ?_, ?_, .all⟩
      · simp only [Reply.andThen, Call.addAll_eq, Sink.run_append]
      · simp only [Reply.map, Reply.andThen, Sink.run_noting, Call.addAll_eq, List.map_append,
          Call.map_request_map_add, List.append_assoc]
  | refused taken left d split refused =>
      refine ⟨_, ?_, ?_, .refused (.refused taken left d split refused)⟩
      · simp only [Reply.andThen, Sink.run_append]
      · simp only [Reply.map, Reply.andThen, List.map_append (f := Call.request),
          Call.map_request_map_add, List.append_assoc]

/-- Filling a sink makes calls and nothing else, and the sink notes them. -/
theorem exists_calls (plan : Plan) (fs : FileSystem) (sink : Sink σ) (report : Report)
    (state : σ) (notes : List Request) (entries : List Entry) :
    ∃ calls opened,
      (plan.fillFrom fs sink report state entries).1 = sink.run state calls ∧
      plan.fillFrom fs sink.noting report (state, notes) entries =
        ((sink.run state calls, notes ++ calls.map Call.request),
          (plan.fillFrom fs sink report state entries).2) ∧
      plan.Fills fs sink state entries calls opened
        (plan.fillFrom fs sink report state entries).2 := by
  induction entries generalizing report state notes with
  | nil => exact ⟨[], none, rfl, by simp [fillFrom, Sink.run], .filled⟩
  | cons entry rest ih =>
      unfold fillFrom
      obtain ⟨hskip, hresolves, -⟩ | ⟨e, hskip, hresolve, hresolves, -⟩ |
        ⟨ds, root, hskip, hresolve, hroot, -⟩ := entry_cases plan fs entry
      · simp only [hskip, if_true]
        obtain ⟨calls, opened, hstate, hnoting, hfills⟩ :=
          ih { report with skipped := report.skipped ++ [entry.name] } state notes
        exact ⟨calls, opened, hstate, hnoting, hfills.cons_of_not_resolves hresolves⟩
      · simp only [hskip, hresolve]
        cases hpolicy : plan.policy with
        | abort =>
            refine ⟨[], none, rfl, ?_, .failed [] rest entry rfl hpolicy hskip hresolve⟩
            rw [List.map_nil, List.append_nil]
            rfl
        | proceed =>
            obtain ⟨calls, opened, hstate, hnoting, hfills⟩ :=
              ih { report with failed := report.failed ++ [(entry.name, e)] } state notes
            exact ⟨calls, opened, hstate, hnoting, hfills.cons_of_not_resolves hresolves⟩
      · have hcalls : plan.calls fs entry = Call.addAll root ds :=
          calls_of_resolve hskip hresolve hroot
        obtain ⟨emitted, hstate, hnoting, hemits⟩ := exists_emitted sink state notes root ds
        simp only [hskip, hresolve, hroot]
        rw [hnoting]
        generalize emit sink state root ds = reply at hstate hemits ⊢
        obtain ⟨next, refusal⟩ := reply
        dsimp only at hstate hemits
        subst hstate
        cases hemits with
        | all =>
            obtain ⟨calls, opened, hstate, hnoting, hfills⟩ :=
              ih { report with resolved := report.resolved + ds.length }
                (sink.run state (Call.addAll root ds))
                (notes ++ (Call.addAll root ds).map Call.request)
            refine ⟨Call.addAll root ds ++ calls, opened, ?_, ?_, ?_⟩
            · rw [Sink.run_append]
              exact hstate
            · rw [Sink.run_append, List.map_append, ← List.append_assoc]
              exact hnoting
            · rw [← hcalls]
              exact Fills.cons (by rwa [hcalls])
        | refused adds =>
            exact ⟨_, root, rfl, rfl, .refused [] rest entry rfl hskip hresolve hroot adds⟩

/-! ### Collections -/

theorem alternate_flatMap_calls (entries : List Entry) :
    Call.Alternate none (entries.flatMap (plan.calls fs)) := by
  induction entries with
  | nil => trivial
  | cons entry rest ih =>
      rw [List.flatMap_cons, Call.alternate_append, openRoot_calls]
      refine ⟨?_, ih⟩
      unfold calls
      split
      · trivial
      · split
        · exact Call.alternate_addAll _ _
        · trivial

theorem mem_declarations_calls {entry : Entry} {x : Declaration}
    (hx : x ∈ Call.declarations none (plan.calls fs entry)) :
    entry.skip = false ∧ ∃ ds, plan.resolver.resolve fs entry = .ok ds ∧ x.entry ∈ ds ∧
      collectionRoot entry = .ok x.collection := by
  obtain ⟨-, hresolves, -⟩ | ⟨e, -, -, hresolves, -⟩ | ⟨ds, root, hskip, hresolve, hroot, -⟩ :=
    entry_cases plan fs entry
  · rw [calls_of_not_resolves hresolves] at hx
    cases hx
  · rw [calls_of_not_resolves hresolves] at hx
    cases hx
  · rw [calls_of_resolve hskip hresolve hroot, Call.declarations_addAll] at hx
    obtain ⟨d, hd, rfl⟩ := List.mem_map.mp hx
    exact ⟨hskip, ds, hresolve, hd, hroot⟩

namespace Fills

variable {state : σ} {entries : List Entry} {calls : List Call} {opened : Option String}
  {result : Except PlanError Report}

theorem openRoot_eq (h : plan.Fills fs sink state entries calls opened result) :
    Call.openRoot none calls = opened := by
  cases h with
  | filled => exact openRoot_flatMap_calls _
  | failed => exact openRoot_flatMap_calls _
  | refused =>
      rw [Call.openRoot_append, openRoot_flatMap_calls, Call.openRoot_append,
        Call.openRoot_opening, Call.openRoot_map_add]

theorem alternate (h : plan.Fills fs sink state entries calls opened result) :
    Call.Alternate none calls := by
  cases h with
  | filled => exact alternate_flatMap_calls _
  | failed => exact alternate_flatMap_calls _
  | refused =>
      rw [Call.alternate_append, openRoot_flatMap_calls]
      exact ⟨alternate_flatMap_calls _, Call.alternate_opening_map_add _ _⟩

theorem exists_entry (h : plan.Fills fs sink state entries calls opened result) {x : Declaration}
    (hx : x ∈ Call.declarations none calls) :
    ∃ entry ∈ entries, entry.skip = false ∧ ∃ ds, plan.resolver.resolve fs entry = .ok ds ∧
      x.entry ∈ ds ∧ collectionRoot entry = .ok x.collection := by
  have hwhole : ∀ before : List Entry, x ∈ Call.declarations none (before.flatMap (plan.calls fs)) →
      ∃ entry ∈ before, entry.skip = false ∧ ∃ ds, plan.resolver.resolve fs entry = .ok ds ∧
        x.entry ∈ ds ∧ collectionRoot entry = .ok x.collection := by
    intro before hmem
    rw [Call.declarations_flatMap openRoot_calls] at hmem
    obtain ⟨entry, hentry, hmem⟩ := List.mem_flatMap.mp hmem
    exact ⟨entry, hentry, mem_declarations_calls hmem⟩
  cases h with
  | filled => exact hwhole _ hx
  | failed before after entry split =>
      obtain ⟨other, hother, hrest⟩ := hwhole _ hx
      exact ⟨other, split ▸ List.mem_append_left _ hother, hrest⟩
  | @refused before after entry _ ds given e split skip resolved collects adds =>
      rw [Call.declarations_append, openRoot_flatMap_calls, List.mem_append] at hx
      rcases hx with hx | hx
      · obtain ⟨other, hother, hrest⟩ := hwhole _ hx
        exact ⟨other, split ▸ List.mem_append_left _ hother, hrest⟩
      · have hopening : Call.declarations none (Call.opening opened) = [] := by
          cases opened <;> rfl
        rw [Call.declarations_append, hopening, Call.openRoot_opening,
          Call.declarations_map_add, List.nil_append] at hx
        obtain ⟨d, hd, rfl⟩ := List.mem_map.mp hx
        refine ⟨entry, split ▸ List.mem_append_right _ List.mem_cons_self, skip, ds, resolved, ?_,
          collects⟩
        exact adds.isPrefix.subset hd

end Fills

/-- **Where a run leaves the collections of a sink.**  Without base paths, what a sink is asked
while it is filled are the calls of the entries up to the one that ends the run.  In them no
collection begins while another is open, and what is added while one is open is an archive entry of
the declared entry whose collection it is.  If the run succeeds or an entry cannot be resolved, each
collection that began has ended.  If the sink refuses an archive entry, the collection that it is
in, if there is one, is left open. -/
theorem collections_of_fill {plan : Plan} (hnone : plan.intermediate = []) (fs : FileSystem)
    (sink : Sink σ) (state : σ) (entries : List Entry) :
    ∃ calls opened,
      plan.fill fs sink.noting (state, []) entries =
        (((plan.fill fs sink state entries).1, calls.map Call.request),
          (plan.fill fs sink state entries).2) ∧
      plan.Fills fs sink state entries calls opened (plan.fill fs sink state entries).2 ∧
      Call.Alternate none calls ∧
      (∀ x ∈ Call.declarations none calls, ∃ entry ∈ entries, entry.skip = false ∧
        ∃ ds, plan.resolver.resolve fs entry = .ok ds ∧ x.entry ∈ ds ∧
          collectionRoot entry = .ok x.collection) ∧
      Call.openRoot none calls = opened := by
  obtain ⟨calls, opened, hstate, hnoting, hfills⟩ :=
    exists_calls plan fs sink {} state [] entries
  unfold fill
  rw [if_pos hnone, if_pos hnone]
  refine ⟨calls, opened, ?_, hfills, hfills.alternate, fun x => hfills.exists_entry,
    hfills.openRoot_eq⟩
  rw [hnoting, hstate, List.nil_append]

/-- The collection of `/t` with its links under `/opt`. -/
def collectedEntry : Entry where
  name := "/opt"
  collect := some { root := "/t", symbolicLinks := true }

theorem fill_collectedEntry (sink : Sink σ) (state : σ) :
    ({ registry := {} } : Plan).fill collectedTree sink state [collectedEntry] =
      let reply := emit sink state (some "/opt") collectedDescriptors
      (reply.state, match reply.refusal with
        | some e => .error e
        | none => .ok { resolved := 3 }) := by
  have hskip : collectedEntry.skip = false := rfl
  have hresolve : ({ registry := {} } : Plan).resolver.resolve collectedTree collectedEntry =
      .ok collectedDescriptors := resolve_collectedTree
  have hroot : collectionRoot collectedEntry = .ok (some "/opt") := rfl
  unfold fill
  rw [if_pos rfl]
  simp only [fillFrom, hskip, Bool.false_eq_true, if_false, hresolve, hroot]
  cases (emit sink state (some "/opt") collectedDescriptors).refusal <;> rfl

def collectedGate : Gate where
  closed := ["/opt/d/f"]

def interruptedCalls : List Call :=
  .enter "/opt" :: (collectedDescriptors.take 2).map .add

theorem noted_of_collectedGate :
    (({ registry := {} } : Plan).fill collectedTree Gate.sink.noting (collectedGate, [])
      [collectedEntry]).1.2 = interruptedCalls.map Call.request := by
  rw [fill_collectedEntry]
  rfl

/-- The gate is asked for the directory and the file, and is left in the collection. -/
theorem collections_of_fill_gate :
    ({ registry := {} } : Plan).intermediate = [] ∧
    ∃ calls opened,
      (({ registry := {} } : Plan).fill collectedTree Gate.sink.noting (collectedGate, [])
        [collectedEntry]).1.2 = calls.map Call.request ∧
      ({ registry := {} } : Plan).Fills collectedTree Gate.sink collectedGate [collectedEntry]
        calls opened (.error (.rejected "/opt/d/f" "rejected")) ∧
      calls = interruptedCalls ∧ opened = some "/opt" := by
  obtain ⟨calls, opened, hnoting, hfills, -, -, hopened⟩ :=
    @collections_of_fill Gate { registry := {} } rfl collectedTree Gate.sink collectedGate
      [collectedEntry]
  have hnoted := congrArg (·.1.2) hnoting
  have hcalls : calls = interruptedCalls :=
    Call.request_injective.list_map (hnoted.symm.trans noted_of_collectedGate)
  have hresult : (({ registry := {} } : Plan).fill collectedTree Gate.sink collectedGate
      [collectedEntry]).2 = .error (.rejected "/opt/d/f" "rejected") := by
    rw [fill_collectedEntry]
    rfl
  rw [hresult] at hfills
  refine ⟨rfl, calls, opened, hnoted, hfills, hcalls, ?_⟩
  rw [← hopened, hcalls]
  rfl

/-- A file that comes later, below a directory that was not added. -/
def laterFile : Descriptor where
  path := "/opt/sub/g"
  kind := .file
  content := .bytes [0x79]
  metadata := .defaultFor .file

/-- The file is refused and the collection is left open, also where the sink is a layer, which then
leaves out a directory that it would have added. -/
theorem refused_collection_left_open :
    (∃ layer : ParentLayer, ∃ state, ({ registry := {} } : Plan).fill collectedTree
        (layer.sink Gate.sink) { inner := collectedGate } [collectedEntry] =
          (state, .error (.rejected "/opt/d/f" "rejected")) ∧
      state.collection = some "/opt" ∧
      (layer.add Gate.sink state laterFile).state.inner.listing.paths =
        ["/opt", "/opt/d", "/opt/sub/g"] ∧
      (layer.add Gate.sink ((layer.sink Gate.sink).leave state)
          laterFile).state.inner.listing.paths =
        ["/opt", "/opt/d", "/opt/sub", "/opt/sub/g"]) ∧
    ¬∀ (plan : Plan) (fs : FileSystem) (σ : Type) (sink : Sink σ) (state : σ)
      (entries : List Entry), plan.intermediate = [] →
        ∃ calls, (plan.fill fs sink.noting (state, []) entries).1.2 = calls.map Call.request ∧
          Call.openRoot none calls = none := by
  constructor
  · exact ⟨⟨{}, ["/"], none⟩, _, fill_collectedEntry _ _, rfl, by rfl, by rfl⟩
  · intro hall
    obtain ⟨calls, hnoted, hclosed⟩ := hall { registry := {} } collectedTree Gate Gate.sink
      collectedGate [collectedEntry] rfl
    rw [noted_of_collectedGate] at hnoted
    rw [← Call.request_injective.list_map hnoted] at hclosed
    cases hclosed

end Plan

end ArchivePlan
