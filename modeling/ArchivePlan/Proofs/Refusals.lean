import ArchivePlan.Proofs.Requests
import ArchivePlan.Sink.Gate

/-! # What a refused entry leaves behind

A layer asks the sink below for one directory after the other and counts each once it is taken
(`addParents_eq`), so a directory that is refused leaves nothing.  The entry itself it counts before
it asks: whatever the answer, a directory that is handed on becomes emitted and stops being
provisional (`mem_add_emitted`, `mem_add_provisional`).  That an emitted directory is not
provisional is kept by every request (`IsSettled.serveAll`), so the mark of a refused directory
never goes. -/

namespace ArchivePlan

namespace Sink

variable {σ : Type} (sink : Sink σ)

/-- What a sink refuses leaves its state as it was. -/
structure RefusesCleanly (sink : Sink σ) : Prop where
  add : ∀ state d, (sink.add state d).refusal ≠ none → (sink.add state d).state = state
  supersede : ∀ state d,
    (sink.supersede state d).refusal ≠ none → (sink.supersede state d).state = state

/-- The entries of a list that a sink takes before it refuses one. -/
def accepted (state : σ) : List Descriptor → List Descriptor
  | [] => []
  | d :: rest =>
    match (sink.add state d).refusal with
    | none => d :: accepted (sink.add state d).state rest
    | some _ => []

variable {sink}

theorem accepted_of_refusal {state : σ} {d : Descriptor} {e : PlanError}
    (h : (sink.add state d).refusal = some e) (rest : List Descriptor) :
    sink.accepted state (d :: rest) = [] := by
  rw [accepted, h]

theorem accepted_of_no_refusal {state : σ} {d : Descriptor}
    (h : (sink.add state d).refusal = none) (rest : List Descriptor) :
    sink.accepted state (d :: rest) = d :: sink.accepted (sink.add state d).state rest := by
  rw [accepted, h]

theorem mem_of_mem_accepted {state : σ} {ds : List Descriptor} {d : Descriptor}
    (h : d ∈ sink.accepted state ds) : d ∈ ds := by
  induction ds generalizing state with
  | nil => exact h
  | cons first rest ih =>
      cases hfirst : (sink.add state first).refusal with
      | some e =>
          rw [accepted_of_refusal hfirst] at h
          cases h
      | none =>
          rw [accepted_of_no_refusal hfirst] at h
          rcases List.mem_cons.mp h with rfl | h
          · exact List.mem_cons_self
          · exact List.mem_cons_of_mem _ (ih h)

/-- A list is taken as a whole if and only if every entry is. -/
theorem addAll_refusal_eq_none_iff {state : σ} {ds : List Descriptor} :
    (sink.addAll state ds).refusal = none ↔ sink.accepted state ds = ds := by
  induction ds generalizing state with
  | nil => exact iff_of_true rfl rfl
  | cons d rest ih =>
      rw [addAll, Reply.andThen]
      cases hd : (sink.add state d).refusal with
      | some e =>
          rw [accepted_of_refusal hd]
          exact iff_of_false (by rintro ⟨⟩) (by rintro ⟨⟩)
      | none =>
          rw [accepted_of_no_refusal hd, List.cons_inj_right]
          exact ih

/-- After a list a sink is where the entries that it took have led it. -/
theorem RefusesCleanly.addAll_state (h : sink.RefusesCleanly) (state : σ) (ds : List Descriptor) :
    (sink.addAll state ds).state = sink.run state ((sink.accepted state ds).map .add) := by
  induction ds generalizing state with
  | nil => rfl
  | cons d rest ih =>
      rw [addAll, Reply.andThen]
      cases hd : (sink.add state d).refusal with
      | some e =>
          rw [accepted_of_refusal hd]
          exact h.add state d (by rw [hd]; rintro ⟨⟩)
      | none =>
          rw [accepted_of_no_refusal hd]
          exact ih _

end Sink

namespace Gate

theorem pass_state {gate : Gate} {d : Descriptor} {record : Listing → Descriptor → Listing}
    (h : (gate.pass d record).refusal ≠ none) : (gate.pass d record).state = gate := by
  unfold pass at h ⊢
  split at h
  · next hclosed => rw [if_pos hclosed]
  · exact absurd rfl h

theorem sink_refusesCleanly : Gate.sink.RefusesCleanly where
  add _ _ := pass_state
  supersede _ _ := pass_state

end Gate

namespace ParentLayer

variable {σ : Type} (layer : ParentLayer) (inner : Sink σ)

/-- A layer that goes on with another state below after directories were added. -/
def marked (state : Layered σ) (next : σ) (directories : List String) : Layered σ where
  inner := next
  emitted := directories.foldl (fun paths directory => paths.insert directory) state.emitted
  provisional := directories.foldl (fun paths directory => paths.insert directory) state.provisional
  collection := state.collection

/-- The entries of the directories that are wanted before an entry at a path. -/
def pending (state : Layered σ) (path : String) : List Descriptor :=
  (layer.missing state path).map layer.parentEntry

/-- Those of them that the sink below takes. -/
def acceptedParents (state : Layered σ) (path : String) : List String :=
  (inner.accepted state.inner (layer.pending state path)).map (·.path)

/-- The sink below takes every directory before the entry, so that it is asked for the entry too. -/
def HandsOn (state : Layered σ) (d : Descriptor) : Prop :=
  inner.accepted state.inner (layer.pending state d.path) = layer.pending state d.path

variable {inner}

theorem wants_marked {state : Layered σ} {next : σ} {directory other : String}
    (hne : other ≠ directory) :
    layer.wants (marked state next [directory]) other = layer.wants state other := by
  rw [Bool.eq_iff_iff, layer.wants_iff, layer.wants_iff]
  simp [marked, hne]

/-- The directories that are wanted go to the sink below as a list, and those that it takes are
marked. -/
theorem addParents_eq {state : Layered σ} {directories : List String} (h : directories.Nodup) :
    layer.addParents inner state directories =
      (inner.addAll state.inner ((directories.filter (layer.wants state)).map layer.parentEntry)).map
        fun next => marked state next ((inner.accepted state.inner
          ((directories.filter (layer.wants state)).map layer.parentEntry)).map (·.path)) := by
  induction directories generalizing state with
  | nil => rfl
  | cons directory rest ih =>
      obtain ⟨hfresh, hrest⟩ := List.nodup_cons.mp h
      unfold addParents
      split
      · next hwants =>
          rw [layer.parent_eq, List.filter_cons_of_pos hwants, List.map_cons, Sink.addAll,
            Reply.andThen]
          cases hreply : (inner.add state.inner (layer.parentEntry directory)).refusal with
          | some e =>
              rw [Sink.accepted_of_refusal hreply]
              simp only [hreply]
              rfl
          | none =>
              rw [Sink.accepted_of_no_refusal hreply]
              simp only [hreply]
              -- marking `directory` changes what is wanted at `directory` only
              have hsame : rest.filter (layer.wants (marked state
                    (inner.add state.inner (layer.parentEntry directory)).state [directory])) =
                  rest.filter (layer.wants state) := by
                refine List.filter_congr fun other hother => layer.wants_marked fun heq => ?_
                exact hfresh (heq ▸ hother)
              rw [← hsame]
              exact ih hrest
      · next hwants =>
          rw [List.filter_cons_of_neg hwants]
          exact ih hrest

variable {layer} {state : Layered σ} {d : Descriptor} {path p : String}

theorem mem_marked_emitted {next : σ} {directories : List String} :
    path ∈ (marked state next directories).emitted ↔
      path ∈ state.emitted ∨ path ∈ directories := by
  unfold marked
  rw [mem_foldl_insert, or_comm]

theorem mem_marked_provisional {next : σ} {directories : List String} :
    path ∈ (marked state next directories).provisional ↔
      path ∈ state.provisional ∨ path ∈ directories := by
  unfold marked
  rw [mem_foldl_insert, or_comm]

theorem mem_declare_emitted :
    path ∈ (declare inner state d).emitted ↔
      path ∈ state.emitted ∨
        (d.isDirectory = true ∧ d.path ∉ state.provisional) ∧ path = d.path := by
  unfold declare
  by_cases hdir : d.isDirectory = true
  · by_cases hprovisional : d.path ∈ state.provisional
    · simp [hdir, hprovisional]
    · simp [hdir, hprovisional, List.mem_insert_iff, or_comm]
  · simp [hdir]

theorem mem_declare_provisional :
    path ∈ (declare inner state d).provisional ↔
      path ∈ state.provisional ∧ ¬(d.isDirectory = true ∧ path = d.path) := by
  unfold declare
  by_cases hdir : d.isDirectory = true
  · by_cases hprovisional : d.path ∈ state.provisional
    · simp [hdir, hprovisional]
    · have hne : path ∈ state.provisional → path ≠ d.path := by
        rintro hpath rfl
        exact hprovisional hpath
      simpa [hdir, hprovisional] using hne
  · simp [hdir]

theorem mem_missing_of_mem_acceptedParents
    (h : path ∈ layer.acceptedParents inner state d.path) : path ∈ layer.missing state d.path := by
  obtain ⟨e, he, rfl⟩ := List.mem_map.mp h
  obtain ⟨directory, hdirectory, rfl⟩ := List.mem_map.mp (Sink.mem_of_mem_accepted he)
  exact hdirectory

/-! ### One entry -/

variable (layer inner) in
/-- A layer whose sink below was asked for the directories before an entry at a path. -/
def withAccepted (state : Layered σ) (path : String) : Layered σ :=
  marked state (inner.addAll state.inner (layer.pending state path)).state
    (layer.acceptedParents inner state path)

theorem addParents_ancestors (state : Layered σ) (path : String) :
    layer.addParents inner state (Target.ancestors path) =
      ⟨layer.withAccepted inner state path,
        (inner.addAll state.inner (layer.pending state path)).refusal⟩ :=
  layer.addParents_eq (Target.ancestors_nodup path)

/-- An entry that is handed on counts as declared, whatever the sink below says to it. -/
theorem add_of_handsOn (h : layer.HandsOn inner state d) :
    layer.add inner state d =
      ⟨declare inner (layer.withAccepted inner state d.path) d,
        if d.isDirectory = true ∧ d.path ∈ (layer.withAccepted inner state d.path).provisional
        then (inner.supersede (layer.withAccepted inner state d.path).inner d).refusal
        else (inner.add (layer.withAccepted inner state d.path).inner d).refusal⟩ := by
  have hnone := Sink.addAll_refusal_eq_none_iff.mpr h
  unfold add declare
  rw [addParents_ancestors]
  simp only [Reply.andThen, hnone]
  split
  · rfl
  · split <;> rfl

/-- Once a directory is refused, nothing else is asked for. -/
theorem add_of_not_handsOn (h : ¬layer.HandsOn inner state d) :
    ∃ e, layer.add inner state d = ⟨layer.withAccepted inner state d.path, some e⟩ := by
  obtain ⟨e, he⟩ := Option.ne_none_iff_exists'.mp (mt Sink.addAll_refusal_eq_none_iff.mp h)
  refine ⟨e, ?_⟩
  unfold add
  rw [addParents_ancestors]
  simp only [Reply.andThen, he]

theorem mem_withAccepted_emitted :
    p ∈ (layer.withAccepted inner state path).emitted ↔
      p ∈ state.emitted ∨ p ∈ layer.acceptedParents inner state path :=
  mem_marked_emitted

theorem mem_withAccepted_provisional :
    p ∈ (layer.withAccepted inner state path).provisional ↔
      p ∈ state.provisional ∨ p ∈ layer.acceptedParents inner state path :=
  mem_marked_provisional

/-- If what is refused leaves no trace in the sink below, a refused entry leaves only the
directories there that were taken before it. -/
theorem add_inner_of_refusal (hclean : inner.RefusesCleanly)
    (h : (layer.add inner state d).refusal ≠ none) :
    (layer.add inner state d).state.inner =
      inner.run state.inner ((inner.accepted state.inner (layer.pending state d.path)).map .add) := by
  rw [← hclean.addAll_state]
  by_cases hhanded : layer.HandsOn inner state d
  · rw [add_of_handsOn hhanded] at h ⊢
    unfold declare
    dsimp only at h ⊢
    split at h
    · next hsupersedes =>
        rw [if_pos hsupersedes]
        exact hclean.supersede _ _ h
    · next hadds =>
        rw [if_neg hadds]
        exact hclean.add _ _ h
  · obtain ⟨e, he⟩ := add_of_not_handsOn hhanded
    rw [he]
    rfl

theorem not_mem_acceptedParents_self : d.path ∉ layer.acceptedParents inner state d.path := by
  intro h
  have hmissing : d.path ∈ layer.missing state d.path := mem_missing_of_mem_acceptedParents h
  exact Target.not_mem_ancestors_self _ (layer.mem_missing_iff.mp hmissing).1

theorem mem_add_emitted_of_mem (h : path ∈ state.emitted) :
    path ∈ (layer.add inner state d).state.emitted := by
  have haccepted : path ∈ (layer.withAccepted inner state d.path).emitted :=
    mem_withAccepted_emitted.mpr (.inl h)
  by_cases hhanded : layer.HandsOn inner state d
  · rw [add_of_handsOn hhanded]
    exact mem_declare_emitted.mpr (.inl haccepted)
  · obtain ⟨e, he⟩ := add_of_not_handsOn hhanded
    rw [he]
    exact haccepted

/-- What becomes emitted: the directories that are taken before the entry, and the entry if it is a
directory that is handed on. -/
theorem mem_add_emitted (hsub : ∀ p ∈ state.provisional, p ∈ state.emitted) :
    path ∈ (layer.add inner state d).state.emitted ↔
      path ∈ state.emitted ∨ path ∈ layer.acceptedParents inner state d.path ∨
        d.isDirectory = true ∧ layer.HandsOn inner state d ∧ path = d.path := by
  by_cases h : layer.HandsOn inner state d
  · rw [add_of_handsOn h, mem_declare_emitted, mem_withAccepted_emitted,
      mem_withAccepted_provisional, or_assoc]
    constructor
    · rintro (hold | hnew | ⟨⟨hdir, -⟩, hpath⟩)
      · exact .inl hold
      · exact .inr (.inl hnew)
      · exact .inr (.inr ⟨hdir, h, hpath⟩)
    · rintro (hold | hnew | ⟨hdir, -, rfl⟩)
      · exact .inl hold
      · exact .inr (.inl hnew)
      · by_cases hprovisional : d.path ∈ state.provisional
        · exact .inl (hsub d.path hprovisional)
        · refine .inr (.inr ⟨⟨hdir, ?_⟩, rfl⟩)
          exact not_or.mpr ⟨hprovisional, not_mem_acceptedParents_self⟩
  · obtain ⟨e, he⟩ := add_of_not_handsOn h
    rw [he, mem_withAccepted_emitted]
    simp [h]

/-- What is provisional afterwards: what was before, and the directories that are taken, but not the
entry if it is a directory that is handed on. -/
theorem mem_add_provisional :
    path ∈ (layer.add inner state d).state.provisional ↔
      (path ∈ state.provisional ∨ path ∈ layer.acceptedParents inner state d.path) ∧
        ¬(d.isDirectory = true ∧ layer.HandsOn inner state d ∧ path = d.path) := by
  by_cases h : layer.HandsOn inner state d
  · rw [add_of_handsOn h, mem_declare_provisional, mem_withAccepted_provisional]
    simp [h]
  · obtain ⟨e, he⟩ := add_of_not_handsOn h
    rw [he, mem_withAccepted_provisional]
    simp [h]

/-! ### Every request -/

variable (layer inner) in
/-- A state that a fresh layer comes to. -/
def Reachable (state : Layered σ) : Prop :=
  ∃ start requests, state = (layer.sink inner).serveAll { inner := start } requests

/-- A directory that counts as declared. -/
def IsSettled (state : Layered σ) (path : String) : Prop :=
  path ∈ state.emitted ∧ path ∉ state.provisional

theorem provisional_subset_serve (hsub : ∀ p ∈ state.provisional, p ∈ state.emitted)
    (request : Request) :
    ∀ p ∈ ((layer.sink inner).serve state request).state.provisional,
      p ∈ ((layer.sink inner).serve state request).state.emitted := by
  intro p hp
  cases request with
  | add d =>
      rcases (mem_add_provisional.mp hp).1 with hold | hnew
      · exact (mem_add_emitted hsub).mpr (.inl (hsub p hold))
      · exact (mem_add_emitted hsub).mpr (.inr (.inl hnew))
  | supersede d => exact List.mem_insert_of_mem (hsub p (List.mem_of_mem_filter hp))
  | enter root => exact hsub p hp
  | leave => exact hsub p hp

theorem Reachable.provisional_subset (h : layer.Reachable inner state) :
    ∀ p ∈ state.provisional, p ∈ state.emitted := by
  obtain ⟨start, requests, rfl⟩ := h
  refine Sink.serveAll_induction
    (P := fun state : Layered σ => ∀ p ∈ state.provisional, p ∈ state.emitted) ?_ ?_ requests
  · exact fun p hp => absurd hp List.not_mem_nil
  · exact fun state request hsub => provisional_subset_serve hsub request

theorem IsSettled.serve (h : IsSettled state path) (request : Request) :
    IsSettled ((layer.sink inner).serve state request).state path := by
  obtain ⟨hemitted, hdeclared⟩ := h
  cases request with
  | add d =>
      refine ⟨mem_add_emitted_of_mem hemitted, fun hp => ?_⟩
      rcases (mem_add_provisional.mp hp).1 with hold | hnew
      · exact hdeclared hold
      · exact (layer.mem_missing_iff.mp (mem_missing_of_mem_acceptedParents hnew)).2.1 hemitted
  | supersede d =>
      exact ⟨List.mem_insert_of_mem hemitted, fun hp => hdeclared (List.mem_of_mem_filter hp)⟩
  | enter root => exact ⟨hemitted, hdeclared⟩
  | leave => exact ⟨hemitted, hdeclared⟩

theorem IsSettled.serveAll (h : IsSettled state path) (requests : List Request) :
    IsSettled ((layer.sink inner).serveAll state requests) path :=
  Sink.serveAll_induction (P := fun state => IsSettled state path) h
    (fun _ request h => h.serve request) requests

/-- A declared directory is not added before what lies in it. -/
theorem IsSettled.not_mem_missing (h : IsSettled state p) : p ∉ layer.missing state path :=
  fun hmissing => (layer.mem_missing_iff.mp hmissing).2.1 h.1

theorem isSettled_add (hsub : ∀ p ∈ state.provisional, p ∈ state.emitted)
    (hdir : d.isDirectory = true) (hhanded : layer.HandsOn inner state d) :
    IsSettled (layer.add inner state d).state d.path :=
  ⟨(mem_add_emitted hsub).mpr (.inr (.inr ⟨hdir, hhanded, rfl⟩)),
    fun h => (mem_add_provisional.mp h).2 ⟨hdir, hhanded, rfl⟩⟩

variable (layer inner) in
/-- An entry adds to the directories of a layer those that the sink below took before it, and
changes nothing else about them. -/
structure LeavesNoTrace (state : Layered σ) (d : Descriptor) : Prop where
  emitted : ∀ path, path ∈ (layer.add inner state d).state.emitted ↔
    path ∈ state.emitted ∨ path ∈ layer.acceptedParents inner state d.path
  provisional : ∀ path, path ∈ (layer.add inner state d).state.provisional ↔
    path ∈ state.provisional ∨ path ∈ layer.acceptedParents inner state d.path

/-- Only a directory that is handed on and was not declared before leaves a trace. -/
theorem leavesNoTrace_iff (hsub : ∀ p ∈ state.provisional, p ∈ state.emitted) :
    layer.LeavesNoTrace inner state d ↔
      (d.isDirectory = true → layer.HandsOn inner state d → IsSettled state d.path) := by
  constructor
  · rintro ⟨hemitted, hprovisional⟩ hdir hhanded
    obtain ⟨hmarked, hdeclared⟩ := isSettled_add hsub hdir hhanded
    rw [hemitted] at hmarked
    rw [hprovisional] at hdeclared
    exact ⟨hmarked.resolve_right not_mem_acceptedParents_self, fun h => hdeclared (.inl h)⟩
  · intro h
    constructor
    · intro path
      rw [mem_add_emitted hsub, ← or_assoc, or_iff_left_iff_imp]
      rintro ⟨hdir, hhanded, rfl⟩
      exact .inl (h hdir hhanded).1
    · intro path
      rw [mem_add_provisional, and_iff_left_iff_imp]
      rintro hpath ⟨hdir, hhanded, rfl⟩
      rcases hpath with hold | hnew
      · exact (h hdir hhanded).2 hold
      · exact not_mem_acceptedParents_self hnew

/-- **What an entry leaves behind if it is refused.**  Whatever the sink below says to the entry
itself, the directories that it took before the entry become emitted and provisional, and a
directory that is handed on becomes emitted and is not provisional any more; so there is no trace if
and only if the entry is no such directory, or was declared before.  The sink below has only what it
took.  And the trace stays: whatever is asked later, the directory counts as declared, so it is
added before nothing that lies in it, and a second declaration does not go where the added directory
is. -/
theorem trace_of_refused (hreachable : layer.Reachable inner state)
    (hclean : inner.RefusesCleanly) (hrefused : (layer.add inner state d).refusal ≠ none) :
    (∀ path, path ∈ (layer.add inner state d).state.emitted ↔
      path ∈ state.emitted ∨ path ∈ layer.acceptedParents inner state d.path ∨
        d.isDirectory = true ∧ layer.HandsOn inner state d ∧ path = d.path) ∧
    (∀ path, path ∈ (layer.add inner state d).state.provisional ↔
      (path ∈ state.provisional ∨ path ∈ layer.acceptedParents inner state d.path) ∧
        ¬(d.isDirectory = true ∧ layer.HandsOn inner state d ∧ path = d.path)) ∧
    (layer.LeavesNoTrace inner state d ↔
      (d.isDirectory = true → layer.HandsOn inner state d → IsSettled state d.path)) ∧
    (layer.add inner state d).state.inner =
      inner.run state.inner ((inner.accepted state.inner (layer.pending state d.path)).map .add) ∧
    (d.isDirectory = true → layer.HandsOn inner state d → ∀ later path,
      d.path ∉ layer.missing
        ((layer.sink inner).serveAll (layer.add inner state d).state later) path ∧
      d.path ∉ ((layer.sink inner).serveAll (layer.add inner state d).state later).provisional) := by
  have hsub := hreachable.provisional_subset
  refine ⟨fun _ => mem_add_emitted hsub, fun _ => mem_add_provisional, leavesNoTrace_iff hsub,
    add_inner_of_refusal hclean hrefused, fun hdir hhanded later path => ?_⟩
  have hsettled : IsSettled
      ((layer.sink inner).serveAll (layer.add inner state d).state later) d.path :=
    (isSettled_add hsub hdir hhanded).serveAll later
  exact ⟨hsettled.not_mem_missing, hsettled.2⟩

def rootLayer : ParentLayer := { registry := {}, bases := ["/"] }

/-- The layer over a gate that refuses `/x/a`, after a file in `/x`. -/
def gatedState : Layered Gate :=
  (rootLayer.sink Gate.sink).serveAll { inner := { closed := ["/x/a"] } }
    [.add ⟨"/x/f", .file, .bytes [], .defaultFor .file, none⟩]

def gatedDirectory : Descriptor := ⟨"/x/a", .directory, .none, .defaultFor .directory, none⟩

/-- The directory `/x` was added before the file; `/x/a` is refused, leaves its trace, and is added
before nothing that lies in it. -/
theorem trace_of_refused_gate :
    rootLayer.Reachable Gate.sink gatedState ∧ Gate.sink.RefusesCleanly ∧
      (rootLayer.add Gate.sink gatedState gatedDirectory).refusal =
        some (.rejected "/x/a" "rejected") ∧
      (rootLayer.add Gate.sink gatedState gatedDirectory).state.emitted = ["/x/a", "/x"] ∧
      (rootLayer.add Gate.sink gatedState gatedDirectory).state.provisional = ["/x"] ∧
      ¬rootLayer.LeavesNoTrace Gate.sink gatedState gatedDirectory ∧
      ∀ later path, "/x/a" ∉ rootLayer.missing ((rootLayer.sink Gate.sink).serveAll
        (rootLayer.add Gate.sink gatedState gatedDirectory).state later) path := by
  have hreachable : rootLayer.Reachable Gate.sink gatedState := ⟨_, _, rfl⟩
  have hhanded : rootLayer.HandsOn Gate.sink gatedState gatedDirectory := rfl
  have hrefused : (rootLayer.add Gate.sink gatedState gatedDirectory).refusal =
      some (.rejected "/x/a" "rejected") := rfl
  obtain ⟨-, -, htrace, -, hlater⟩ := trace_of_refused hreachable Gate.sink_refusesCleanly
    (hrefused ▸ Option.some_ne_none _)
  refine ⟨hreachable, Gate.sink_refusesCleanly, hrefused, rfl, rfl, fun hnone => ?_,
    fun later path => (hlater rfl hhanded later path).1⟩
  have hemitted : "/x/a" ∈ gatedState.emitted := (htrace.mp hnone rfl hhanded).1
  exact absurd hemitted (by decide)

/-- A fresh layer over a gate that refuses `/a`. -/
def closedState : Layered Gate := { inner := { closed := ["/a"] } }

def closedDirectory : Descriptor := ⟨"/a", .directory, .none, .defaultFor .directory, none⟩

/-- The gate takes nothing when the directory `/a` is declared, but `/a` becomes emitted: a file in
it is then recorded without it. -/
theorem refused_directory_emitted :
    rootLayer.Reachable Gate.sink closedState ∧ Gate.sink.RefusesCleanly ∧
      (rootLayer.add Gate.sink closedState closedDirectory).refusal =
        some (.rejected "/a" "rejected") ∧
      (rootLayer.add Gate.sink closedState closedDirectory).state.inner.listing.entries = [] ∧
      ¬rootLayer.LeavesNoTrace Gate.sink closedState closedDirectory ∧
      ∃ later, rootLayer.add Gate.sink
          (rootLayer.add Gate.sink closedState closedDirectory).state
          ⟨"/a/b", .file, .bytes [], .defaultFor .file, none⟩ = ⟨later, none⟩ ∧
        later.inner.listing.paths = ["/a/b"] := by
  refine ⟨⟨_, [], rfl⟩, Gate.sink_refusesCleanly, rfl, rfl, fun hnone => ?_, _, rfl, rfl⟩
  have hemitted : "/a" ∈ (rootLayer.add Gate.sink closedState closedDirectory).state.emitted := by
    decide
  rcases (hnone.emitted "/a").mp hemitted with hold | hnew
  · exact absurd hold (by decide)
  · exact absurd hnew (by decide)

end ParentLayer

end ArchivePlan
