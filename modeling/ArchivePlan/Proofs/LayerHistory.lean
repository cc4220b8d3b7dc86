import ArchivePlan.Proofs.AddedParents

/-! # What the state of a parent layer says about its calls

After any calls a layer over a listing is `Consistent` with the declarations they made: the
directories that it counts as emitted are those that some declaration needs or declares, those that
it counts as provisional were never declared, and the listing holds a directory at exactly the
emitted paths.  Every recorded entry was declared or is the entry of a directory that nobody
declared, and what a provisional directory lies in is recorded before it, also when it was added
inside a collection.

`Consistent.add_cases` derives from this all that one more entry can do, and `Consistent.run` gives
the invariant for every run.  Whatever else each call preserves holds after all calls by
`after_induction`. -/

namespace ArchivePlan

/-- A directory is declared under a path. -/
def DirectoryDeclared (history : List Declaration) (path : String) : Prop :=
  ∃ x ∈ history, x.entry.isDirectory = true ∧ x.entry.path = path

theorem directoryDeclared_concat {history : List Declaration} {x : Declaration} {path : String} :
    DirectoryDeclared (history ++ [x]) path ↔
      DirectoryDeclared history path ∨ x.entry.isDirectory = true ∧ x.entry.path = path := by
  simp only [DirectoryDeclared, List.mem_append, List.mem_singleton, or_and_right, exists_or,
    exists_eq_left]

/-- No path is declared twice. -/
def DistinctPaths (history : List Declaration) : Prop :=
  (history.map (·.entry.path)).Nodup

theorem distinctPaths_concat {history : List Declaration} {x : Declaration} :
    DistinctPaths (history ++ [x]) ↔
      DistinctPaths history ∧ ∀ y ∈ history, y.entry.path ≠ x.entry.path := by
  unfold DistinctPaths
  rw [List.map_append, List.nodup_append]
  simp

theorem DistinctPaths.perm {history history' : List Declaration} (h : DistinctPaths history)
    (hperm : history.Perm history') : DistinctPaths history' :=
  (hperm.map _).nodup_iff.mp h

namespace ParentLayer

variable (layer : ParentLayer)

/-- A directory that has to be there before a declared entry. -/
def Needs (x : Declaration) (directory : String) : Prop :=
  directory ∈ Target.ancestors x.entry.path ∧ layer.covers x.collection directory = true

/-- A directory that has to be there before one of the declared entries. -/
def Needed (history : List Declaration) (directory : String) : Prop :=
  ∃ x ∈ history, layer.Needs x directory

theorem needed_concat {history : List Declaration} {x : Declaration} {directory : String} :
    layer.Needed (history ++ [x]) directory ↔
      layer.Needed history directory ∨ layer.Needs x directory := by
  simp only [Needed, List.mem_append, List.mem_singleton, or_and_right, exists_or, exists_eq_left]

/-- A directory that is there only because of what was declared inside it. -/
def Implied (history : List Declaration) (directory : String) : Prop :=
  layer.Needed history directory ∧ ¬DirectoryDeclared history directory

theorem implied_concat_self {history : List Declaration} {x : Declaration} :
    layer.Implied (history ++ [x]) x.entry.path ↔
      x.entry.isDirectory = false ∧ layer.Implied history x.entry.path := by
  unfold Implied
  rw [layer.needed_concat, directoryDeclared_concat]
  constructor
  · rintro ⟨hneeded, hnone⟩
    have hself : ¬layer.Needs x x.entry.path := fun hneeds =>
      Target.not_mem_ancestors_self _ hneeds.1
    refine ⟨?_, hneeded.resolve_right hself, fun hold => hnone (Or.inl hold)⟩
    rw [Bool.eq_false_iff]
    exact fun hdir => hnone (Or.inr ⟨hdir, rfl⟩)
  · rintro ⟨hdir, hneeded, hnone⟩
    refine ⟨Or.inl hneeded, ?_⟩
    rintro (hold | ⟨hx, -⟩)
    · exact hnone hold
    · rw [hdir] at hx
      cases hx

/-- The state of a layer over a listing agrees with the declarations that were made. -/
structure Consistent (history : List Declaration) (state : Layered Listing) : Prop where
  indexed : state.inner.IsIndexed
  emitted : ∀ path, path ∈ state.emitted ↔
    layer.Needed history path ∨ DirectoryDeclared history path
  provisional : ∀ path, path ∈ state.provisional ↔
    path ∈ state.emitted ∧ ¬DirectoryDeclared history path
  directories : ∀ path, path ∈ state.emitted ↔
    ∃ e ∈ state.inner.entries, e.isDirectory = true ∧ e.path = path
  origin : ∀ e ∈ state.inner.entries,
    (∃ x ∈ history, x.entry = e) ∨ ∃ directory, e = layer.parentEntry directory
  before : ∀ path ∈ state.provisional, ∃ i, state.inner.slot? path = some i ∧
    ∀ outer ∈ Target.ancestors path, (∃ base ∈ layer.bases, Target.isWithin outer base = true) →
      Listing.RecordedBefore state.inner.entries i outer

variable {layer} {history : List Declaration} {state : Layered Listing}

theorem consistent_fresh : layer.Consistent [] { inner := .empty } where
  indexed := Listing.isIndexed_empty
  emitted _ := by simp [Needed, DirectoryDeclared]
  provisional _ := by simp
  directories _ := by simp [Listing.empty]
  origin e he := absurd he List.not_mem_nil
  before path hpath := absurd hpath List.not_mem_nil

/-- A directory is declared that was added before: the slot of its path, which holds `old`, is the
one that it goes to. -/
structure Supersedes (state : Layered Listing) (d : Descriptor) (i : Nat) (old : Descriptor) :
    Prop where
  isDirectory : d.isDirectory = true
  provisional : d.path ∈ state.provisional
  slot : state.inner.slot? d.path = some i
  entry : state.inner.entries[i]? = some old
  path : old.path = d.path

/-- The state once a directory that was added before is declared. -/
def superseded (state : Layered Listing) (i : Nat) (d : Descriptor) : Layered Listing :=
  { state with
    inner := { state.inner with entries := state.inner.entries.set i d }
    provisional := state.provisional.filter (· ≠ d.path) }

@[simp] theorem superseded_entries (i : Nat) (d : Descriptor) :
    (superseded state i d).inner.entries = state.inner.entries.set i d := rfl

@[simp] theorem superseded_emitted (i : Nat) (d : Descriptor) :
    (superseded state i d).emitted = state.emitted := rfl

theorem mem_superseded_provisional {i : Nat} {d : Descriptor} {path : String} :
    path ∈ (superseded state i d).provisional ↔ path ∈ state.provisional ∧ path ≠ d.path := by
  unfold superseded
  rw [List.mem_filter, decide_eq_true_iff]

theorem Supersedes.getElem?_self {d old : Descriptor} {i : Nat} (hs : Supersedes state d i old) :
    (superseded state i d).inner.entries[i]? = some d :=
  List.getElem?_set_self (List.getElem?_eq_some_iff.mp hs.entry).1

theorem Supersedes.grows {d old : Descriptor} {i : Nat} (hs : Supersedes state d i old) :
    Listing.Grows state.inner.entries (superseded state i d).inner.entries :=
  Listing.grows_set hs.isDirectory hs.entry hs.path

namespace Consistent

theorem withCollection (h : layer.Consistent history state) (root : Option String) :
    layer.Consistent history { state with collection := root } :=
  ⟨h.indexed, h.emitted, h.provisional, h.directories, h.origin, h.before⟩

theorem mem_emitted_of_provisional (h : layer.Consistent history state) {path : String}
    (hpath : path ∈ state.provisional) : path ∈ state.emitted :=
  ((h.provisional path).mp hpath).1

theorem mem_provisional_iff (h : layer.Consistent history state) {path : String} :
    path ∈ state.provisional ↔ layer.Implied history path := by
  rw [h.provisional, h.emitted, Implied]
  exact and_congr_left fun hnone => or_iff_left hnone

/-- What an added directory lies in is recorded already, so nothing is missing before it. -/
theorem missing_eq_nil (h : layer.Consistent history state) {path : String}
    (hpath : path ∈ state.provisional) : layer.missing state path = [] := by
  rw [List.eq_nil_iff_forall_not_mem]
  intro directory hmissing
  obtain ⟨hmem, hfresh, hcovers⟩ := layer.mem_missing_iff.mp hmissing
  obtain ⟨i, -, hbefore⟩ := h.before path hpath
  obtain ⟨j, -, e, he, hdir, rfl⟩ := hbefore directory hmem (layer.covers_iff.mp hcovers).1
  exact hfresh ((h.directories e.path).mpr ⟨e, List.mem_of_getElem? he, hdir, rfl⟩)

/-- The recorded directory at a provisional path is the one that was added. -/
theorem eq_parentEntry (h : layer.Consistent history state) {e : Descriptor}
    (he : e ∈ state.inner.entries) (hdir : e.isDirectory = true)
    (hpath : e.path ∈ state.provisional) : e = layer.parentEntry e.path := by
  rcases h.origin e he with ⟨x, hx, rfl⟩ | ⟨directory, rfl⟩
  · exact absurd ⟨x, hx, hdir, rfl⟩ ((h.provisional x.entry.path).mp hpath).2
  · rfl

/-! ### One more entry -/

/-- Everything that one more entry can do. -/
theorem add_cases (h : layer.Consistent history state) (d : Descriptor) :
    (∃ i old, Supersedes state d i old ∧
      layer.add Listing.sink state d = ⟨superseded state i d, none⟩) ∨
    ¬(d.isDirectory = true ∧ d.path ∈ state.provisional) ∧
      layer.add Listing.sink state d = ⟨layer.recorded state d, none⟩ := by
  rw [layer.add_listing]
  by_cases hd : d.isDirectory = true ∧ d.path ∈ state.provisional
  · obtain ⟨i, hslot, -⟩ := h.before d.path hd.2
    obtain ⟨old, hold, hpath⟩ := h.indexed.holds hslot
    refine Or.inl ⟨i, old, ⟨hd.1, hd.2, hslot, hold, hpath⟩, ?_⟩
    rw [if_pos hd]
    unfold replaced
    rw [h.missing_eq_nil hd.2]
    show Reply.mk _ none = _
    simp only [withParents, List.map_nil, List.foldl_nil]
    rw [show state.inner.addMany [] = state.inner from rfl, Listing.supersede_of_slot? hslot]
    rfl
  · exact Or.inr ⟨hd, by rw [if_neg hd]⟩

theorem not_mem_emitted (h : layer.Consistent history state) {d : Descriptor}
    (hundeclared : ∀ x ∈ history, x.entry.path ≠ d.path)
    (hnot : ¬(d.isDirectory = true ∧ d.path ∈ state.provisional)) :
    d.isDirectory = true → d.path ∉ state.emitted := by
  intro hdir hemitted
  refine hnot ⟨hdir, (h.provisional d.path).mpr ⟨hemitted, ?_⟩⟩
  rintro ⟨x, hx, -, hsame⟩
  exact hundeclared x hx hsame

/-- A directory that was emitted, or that is among the first missing ones, is recorded before the
others and before the entry. -/
theorem recordedBefore (h : layer.Consistent history state) (d : Descriptor) {directory : String}
    {k : Nat} (hdir : directory ∈ state.emitted ∨
      ∃ j < k, (layer.missing state d.path)[j]? = some directory) :
    Listing.RecordedBefore (layer.recorded state d).inner.entries
      (state.inner.entries.length + k) directory := by
  rcases hdir with hemitted | ⟨j, hjk, hj⟩
  · obtain ⟨e, he, hdir, rfl⟩ := (h.directories directory).mp hemitted
    exact (Listing.recordedBefore_of_mem he hdir).grows (layer.grows_recorded state d) (by omega)
  · exact ⟨state.inner.entries.length + j, by omega, layer.parentEntry directory,
      layer.recorded_getElem?_missing hj, rfl, rfl⟩

theorem recordedBefore_missing (h : layer.Consistent history state) (d : Descriptor)
    {outer directory : String} {k : Nat} (hk : (layer.missing state d.path)[k]? = some directory)
    (houter : outer ∈ Target.ancestors directory)
    (hbase : ∃ base ∈ layer.bases, Target.isWithin outer base = true) :
    Listing.RecordedBefore (layer.recorded state d).inner.entries
      (state.inner.entries.length + k) outer := by
  obtain ⟨hmem, -, hcovers⟩ := layer.mem_missing_iff.mp (List.mem_of_getElem? hk)
  by_cases hemitted : outer ∈ state.emitted
  · exact h.recordedBefore d (Or.inl hemitted)
  · have hmissing : outer ∈ layer.missing state d.path := layer.mem_missing_iff.mpr
      ⟨Target.mem_ancestors_trans houter hmem, hemitted,
        layer.covers_of_mem_ancestors houter hcovers hbase⟩
    obtain ⟨j, hj⟩ := List.mem_iff_getElem?.mp hmissing
    obtain ⟨hjlt, hjeq⟩ := List.getElem?_eq_some_iff.mp hj
    obtain ⟨hklt, hkeq⟩ := List.getElem?_eq_some_iff.mp hk
    -- `outer` is the shorter of the two, and the missing directories come shortest first
    have hlen := Target.length_lt_of_mem_ancestors houter
    refine h.recordedBefore d (Or.inr ⟨j, ?_, hj⟩)
    by_contra hge
    rcases Nat.lt_or_eq_of_le (Nat.le_of_not_lt hge) with hkj | rfl
    · have hpair := List.pairwise_iff_getElem.mp (layer.missing_pairwise_length state d.path)
        k j hklt hjlt hkj
      rw [hjeq, hkeq] at hpair
      omega
    · rw [← hjeq, ← hkeq] at hlen
      omega

theorem recordedBefore_entry (h : layer.Consistent history state) (d : Descriptor)
    {directory : String} (hneeds : layer.Needs ⟨state.collection, d⟩ directory) :
    Listing.RecordedBefore (layer.recorded state d).inner.entries
      (state.inner.entries.length + (layer.missing state d.path).length) directory := by
  by_cases hemitted : directory ∈ state.emitted
  · exact h.recordedBefore d (Or.inl hemitted)
  · have hmissing : directory ∈ layer.missing state d.path :=
      layer.mem_missing_iff.mpr ⟨hneeds.1, hemitted, hneeds.2⟩
    obtain ⟨j, hj⟩ := List.mem_iff_getElem?.mp hmissing
    exact h.recordedBefore d (Or.inr ⟨j, (List.getElem?_eq_some_iff.mp hj).1, hj⟩)

theorem replace (h : layer.Consistent history state) {d old : Descriptor} {i : Nat}
    (hs : Supersedes state d i old) :
    layer.Consistent (history ++ [⟨state.collection, d⟩]) (superseded state i d) where
  indexed := h.indexed.set hs.slot
  emitted path := by
    have hneeds : layer.Needs ⟨state.collection, d⟩ path → path ∈ state.emitted := fun hneeds => by
      by_contra hfresh
      have hmissing := layer.mem_missing_iff.mpr ⟨hneeds.1, hfresh, hneeds.2⟩
      rw [h.missing_eq_nil hs.provisional] at hmissing
      exact absurd hmissing List.not_mem_nil
    have hdeclared : d.isDirectory = true ∧ d.path = path → path ∈ state.emitted := by
      rintro ⟨-, rfl⟩
      exact h.mem_emitted_of_provisional hs.provisional
    rw [layer.needed_concat, directoryDeclared_concat, superseded_emitted]
    rw [h.emitted] at hneeds hdeclared ⊢
    constructor
    · rintro (hold | hold)
      · exact Or.inl (Or.inl hold)
      · exact Or.inr (Or.inl hold)
    · rintro ((hold | hnew) | hold | hnew)
      · exact Or.inl hold
      · exact hneeds hnew
      · exact Or.inr hold
      · exact hdeclared hnew
  provisional path := by
    have hdeclared : d.isDirectory = true ∧ d.path = path ↔ path = d.path :=
      ⟨fun hx => hx.2.symm, fun heq => ⟨hs.isDirectory, heq.symm⟩⟩
    rw [directoryDeclared_concat, hdeclared, mem_superseded_provisional, superseded_emitted,
      h.provisional, not_or, and_assoc]
  directories path := by
    rw [superseded_emitted, h.directories]
    constructor
    · rintro ⟨e, he, hedir, rfl⟩
      obtain ⟨j, hj⟩ := List.mem_iff_getElem?.mp he
      obtain ⟨e', he', hpath', hdir'⟩ := hs.grows j e hj
      exact ⟨e', List.mem_of_getElem? he', hdir' hedir, hpath'⟩
    · rintro ⟨e, he, hedir, rfl⟩
      rcases List.mem_or_eq_of_mem_set he with he | rfl
      · exact ⟨e, he, hedir, rfl⟩
      · exact (h.directories _).mp (h.mem_emitted_of_provisional hs.provisional)
  origin e he := by
    rcases List.mem_or_eq_of_mem_set he with he | rfl
    · rcases h.origin e he with ⟨x, hx, hxe⟩ | hparent
      · exact Or.inl ⟨x, List.mem_append_left _ hx, hxe⟩
      · exact Or.inr hparent
    · exact Or.inl ⟨_, List.mem_append_right _ List.mem_cons_self, rfl⟩
  before path hp := by
    obtain ⟨j, hj, hbefore⟩ := h.before path (mem_superseded_provisional.mp hp).1
    refine ⟨j, hj, fun outer houter hbase => ?_⟩
    exact (hbefore outer houter hbase).grows hs.grows (Nat.le_refl j)

theorem record (h : layer.Consistent history state) {d : Descriptor}
    (hd : ¬(d.isDirectory = true ∧ d.path ∈ state.provisional)) :
    layer.Consistent (history ++ [⟨state.collection, d⟩]) (layer.recorded state d) where
  indexed := layer.recorded_isIndexed h.indexed d
  emitted path := by
    have hdeclared : d.isDirectory = true ∧ path = d.path ↔
        d.isDirectory = true ∧ d.path = path := and_congr_right fun _ => eq_comm
    have hneeds : path ∈ layer.missing state d.path ∨ path ∈ state.emitted ↔
        layer.Needs ⟨state.collection, d⟩ path ∨ path ∈ state.emitted := by
      rw [layer.mem_missing_iff]
      by_cases hemitted : path ∈ state.emitted
      · simp [hemitted]
      · simp [hemitted, Needs]
    rw [layer.needed_concat, directoryDeclared_concat, layer.mem_recorded_emitted, hdeclared,
      ← or_assoc, hneeds, h.emitted, or_assoc, or_assoc, or_assoc, or_left_comm]
  provisional path := by
    have hold := h.emitted path
    rw [directoryDeclared_concat, layer.mem_recorded_provisional, layer.mem_recorded_emitted,
      h.provisional]
    constructor
    · rintro (hmissing | ⟨hemitted, hnone⟩)
      · obtain ⟨hmem, hfresh, -⟩ := layer.mem_missing_iff.mp hmissing
        refine ⟨Or.inl hmissing, ?_⟩
        rintro (hx | ⟨-, rfl⟩)
        · exact hfresh (hold.mpr (Or.inr hx))
        · exact Target.not_mem_ancestors_self _ hmem
      · refine ⟨Or.inr (Or.inl hemitted), ?_⟩
        rintro (hx | ⟨hdir, rfl⟩)
        · exact hnone hx
        · exact hd ⟨hdir, (h.provisional _).mpr ⟨hemitted, hnone⟩⟩
    · rintro ⟨hmissing | hemitted | hx, hnone⟩
      · exact Or.inl hmissing
      · exact Or.inr ⟨hemitted, fun hx => hnone (Or.inl hx)⟩
      · exact absurd (Or.inr ⟨hx.1, hx.2.symm⟩) hnone
  directories path := by
    rw [layer.mem_recorded_emitted, h.directories, layer.recorded_entries]
    simp only [List.mem_append, List.mem_map, List.mem_singleton]
    constructor
    · rintro (hmissing | ⟨e, he, hdir, rfl⟩ | ⟨hdir, rfl⟩)
      · exact ⟨layer.parentEntry path, Or.inl (Or.inr ⟨path, hmissing, rfl⟩), rfl, rfl⟩
      · exact ⟨e, Or.inl (Or.inl he), hdir, rfl⟩
      · exact ⟨d, Or.inr rfl, hdir, rfl⟩
    · rintro ⟨e, (he | ⟨directory, hmissing, rfl⟩) | rfl, hdir, rfl⟩
      · exact Or.inr (Or.inl ⟨e, he, hdir, rfl⟩)
      · exact Or.inl hmissing
      · exact Or.inr (Or.inr ⟨hdir, rfl⟩)
  origin e he := by
    rw [layer.recorded_entries] at he
    simp only [List.mem_append, List.mem_map, List.mem_singleton] at he
    rcases he with (he | ⟨directory, -, rfl⟩) | rfl
    · rcases h.origin e he with ⟨x, hx, hxe⟩ | hparent
      · exact Or.inl ⟨x, List.mem_append_left _ hx, hxe⟩
      · exact Or.inr hparent
    · exact Or.inr ⟨directory, rfl⟩
    · exact Or.inl ⟨_, List.mem_append_right _ List.mem_cons_self, rfl⟩
  before path hp := by
    have hindexed := layer.recorded_isIndexed h.indexed d
    rcases layer.mem_recorded_provisional.mp hp with hmissing | hp
    · obtain ⟨k, hk⟩ := List.mem_iff_getElem?.mp hmissing
      have hentry := layer.recorded_getElem?_missing hk
      obtain ⟨i, hi⟩ := hindexed.found _ (List.mem_of_getElem? hentry)
      refine ⟨i, hi, fun outer houter hbase => ?_⟩
      exact (h.recordedBefore_missing d hk houter hbase).grows (Listing.Grows.refl _)
        (hindexed.last hi hentry rfl)
    · obtain ⟨j, hj, hbefore⟩ := h.before path hp
      have hgrows := layer.grows_recorded state d
      obtain ⟨i, hi, hji⟩ := Listing.slot?_le_of_grows hindexed h.indexed hgrows hj
      exact ⟨i, hi, fun outer houter hbase => (hbefore outer houter hbase).grows hgrows hji⟩

theorem add (h : layer.Consistent history state) (d : Descriptor) :
    layer.Consistent (history ++ [⟨state.collection, d⟩])
      (layer.add Listing.sink state d).state := by
  obtain ⟨i, old, hs, heq⟩ | ⟨hd, heq⟩ := h.add_cases d
  · rw [heq]
    exact h.replace hs
  · rw [heq]
    exact h.record hd

theorem grows_add (h : layer.Consistent history state) (d : Descriptor) :
    Listing.Grows state.inner.entries (layer.add Listing.sink state d).state.inner.entries := by
  obtain ⟨i, old, hs, heq⟩ | ⟨-, heq⟩ := h.add_cases d
  · rw [heq]
    exact hs.grows
  · rw [heq]
    exact layer.grows_recorded state d

end Consistent

/-! ### Runs -/

variable (layer) in
/-- What every call preserves holds along every run. -/
theorem run_induction {P : List Declaration → Layered Listing → Prop}
    (hopen : ∀ {history state} (root : Option String), P history state →
      P history { state with collection := root })
    (hadd : ∀ {history state} (d : Descriptor), P history state →
      P (history ++ [⟨state.collection, d⟩]) (layer.add Listing.sink state d).state)
    (h : P history state) (calls : List Call) :
    P (history ++ Call.declarations state.collection calls)
      ((layer.sink Listing.sink).run state calls) := by
  induction calls generalizing history state with
  | nil => rwa [Call.declarations, List.append_nil]
  | cons c calls ih =>
      cases c with
      | add d =>
          have hstep := ih (hadd d h)
          rw [List.append_assoc, List.singleton_append, layer.add_collection] at hstep
          exact hstep
      | enter root => exact ih (hopen (some root) h)
      | leave => exact ih (hopen none h)

/-- **The invariant holds along every run.** -/
theorem Consistent.run (h : layer.Consistent history state) (calls : List Call) :
    layer.Consistent (history ++ Call.declarations state.collection calls)
      ((layer.sink Listing.sink).run state calls) :=
  layer.run_induction (fun root h => h.withCollection root) (fun d h => h.add d) h calls

theorem Consistent.grows_run (h : layer.Consistent history state) (calls : List Call) :
    Listing.Grows state.inner.entries
      ((layer.sink Listing.sink).run state calls).inner.entries := by
  have hrun := layer.run_induction
    (P := fun history' state' => layer.Consistent history' state' ∧
      Listing.Grows state.inner.entries state'.inner.entries)
    (fun root h => ⟨h.1.withCollection root, h.2⟩)
    (fun d h => ⟨h.1.add d, h.2.trans (h.1.grows_add d)⟩) ⟨h, Listing.Grows.refl _⟩ calls
  exact hrun.2

variable (layer)

/-- A layer around an empty listing after some calls. -/
def after (calls : List Call) : Layered Listing :=
  (layer.sink Listing.sink).run { inner := .empty } calls

theorem after_append (before calls : List Call) :
    layer.after (before ++ calls) = (layer.sink Listing.sink).run (layer.after before) calls :=
  Sink.run_append _ _ _ _

theorem after_concat_add (calls : List Call) (d : Descriptor) :
    layer.after (calls ++ [.add d]) = (layer.add Listing.sink (layer.after calls) d).state :=
  layer.after_append calls [.add d]

theorem after_collection (calls : List Call) :
    (layer.after calls).collection = Call.openRoot none calls :=
  layer.run_collection _ _

theorem consistent_after (calls : List Call) :
    layer.Consistent (Call.declarations none calls) (layer.after calls) :=
  consistent_fresh.run calls

theorem after_induction {P : List Declaration → Layered Listing → Prop}
    (hfresh : P [] { inner := .empty })
    (hopen : ∀ {history state} (root : Option String), P history state →
      P history { state with collection := root })
    (hadd : ∀ {history state} (d : Descriptor), layer.Consistent history state → P history state →
      P (history ++ [⟨state.collection, d⟩]) (layer.add Listing.sink state d).state)
    (calls : List Call) : P (Call.declarations none calls) (layer.after calls) := by
  have hrun := layer.run_induction
    (P := fun history state => layer.Consistent history state ∧ P history state)
    (fun root h => ⟨h.1.withCollection root, hopen root h.2⟩)
    (fun d h => ⟨h.1.add d, hadd d h.1 h.2⟩) ⟨consistent_fresh, hfresh⟩ calls
  exact hrun.2

end ParentLayer

end ArchivePlan
