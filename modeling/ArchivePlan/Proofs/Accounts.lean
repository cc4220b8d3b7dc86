import ArchivePlan.Proofs.LayerHistory
import Mathlib.Data.List.Induction
import Mathlib.Data.List.Nodup

/-! # What a parent layer accounts for

The two sets of a layer over an empty listing say exactly what is recorded.  A directory is emitted
if and only if the listing holds a directory at its path.  It is provisional if and only if some
call added it (`added`) and none declared it, and each provisional directory stands for one entry
that nobody declared, so that the length of the listing follows from the number of declarations
(`state_accounts_for_calls`).

What carries the proof is that nothing is added twice or after its declaration, because whatever was
added or declared is emitted and an emitted directory is not missing (`Accounted`). -/

namespace ArchivePlan.ParentLayer

variable (layer : ParentLayer)

/-! ### The directories that calls add -/

/-- The directories that a call adds: what `addParents` puts behind the recorded entries before the
declared entry is handed on. -/
def addedBy (state : Layered Listing) : Call → List String
  | .add d =>
    ((layer.addParents Listing.sink state (Target.ancestors d.path)).state.inner.entries.drop
      state.inner.entries.length).map (·.path)
  | .enter _ | .leave => []

/-- The directories that calls add, in the order in which they are added. -/
def added (state : Layered Listing) : List Call → List String
  | [] => []
  | c :: calls =>
    layer.addedBy state c ++ added ((layer.sink Listing.sink).answer state c).state calls

theorem addedBy_add (state : Layered Listing) (d : Descriptor) :
    layer.addedBy state (.add d) = layer.missing state d.path := by
  have hpaths : ((layer.missing state d.path).map layer.parentEntry).map (·.path) =
      layer.missing state d.path := by
    rw [List.map_map]
    exact List.map_id _
  unfold addedBy
  dsimp only
  rw [layer.addParents_listing (Target.ancestors_nodup d.path), ← missing]
  simp only [withParents, Listing.entries_addMany, List.drop_left]
  exact hpaths

theorem added_append (state : Layered Listing) (before later : List Call) :
    layer.added state (before ++ later) =
      layer.added state before ++ layer.added ((layer.sink Listing.sink).run state before) later := by
  induction before generalizing state with
  | nil => rfl
  | cons c before ih => rw [List.cons_append, added, added, ih, List.append_assoc, Sink.run_cons]

theorem added_concat (calls : List Call) (c : Call) :
    layer.added { inner := .empty } (calls ++ [c]) =
      layer.added { inner := .empty } calls ++ layer.addedBy (layer.after calls) c := by
  rw [layer.added_append, added, added, List.append_nil]
  rfl

/-! ### Lists as sets -/

theorem nodup_foldl_insert {paths : List String} (h : paths.Nodup) (directories : List String) :
    (directories.foldl (fun paths directory => paths.insert directory) paths).Nodup := by
  induction directories generalizing paths with
  | nil => exact h
  | cons directory directories ih => exact ih (List.Nodup.insert h)

theorem length_foldl_insert {paths directories : List String} (hdirectories : directories.Nodup)
    (hnew : ∀ directory ∈ directories, directory ∉ paths) :
    (directories.foldl (fun paths directory => paths.insert directory) paths).length =
      paths.length + directories.length := by
  induction directories generalizing paths with
  | nil => rfl
  | cons directory directories ih =>
      obtain ⟨hfresh, hrest⟩ := List.nodup_cons.mp hdirectories
      rw [List.foldl_cons, ih hrest, List.length_insert_of_not_mem (hnew _ List.mem_cons_self),
        List.length_cons]
      · omega
      · intro other hother hmem
        rcases List.mem_insert_iff.mp hmem with rfl | hold
        · exact hfresh hother
        · exact hnew other (List.mem_cons_of_mem _ hother) hold

theorem length_filter_ne {paths : List String} (h : paths.Nodup) {path : String}
    (hpath : path ∈ paths) : (paths.filter (· ≠ path)).length + 1 = paths.length := by
  have herase : paths.filter (· ≠ path) = paths.erase path := by
    rw [h.erase_eq_filter]
    refine List.filter_congr fun other _ => ?_
    rw [Bool.eq_iff_iff, decide_eq_true_iff, bne_iff_ne]
  have hpos := List.length_pos_of_mem hpath
  rw [herase, List.length_erase_of_mem hpath]
  omega

/-! ### One call -/

variable {layer} {history : List Declaration} {directories : List String}
  {state : Layered Listing} {path : String}

theorem not_mem_emitted_of_addedBy {c : Call} (h : path ∈ layer.addedBy state c) :
    path ∉ state.emitted := by
  cases c with
  | add d =>
      rw [addedBy_add] at h
      exact (layer.mem_missing_iff.mp h).2.1
  | enter root | leave => exact absurd h List.not_mem_nil

/-- The state accounts for the declarations and for the directories that were added. -/
structure Accounted (history : List Declaration) (directories : List String)
    (state : Layered Listing) : Prop where
  emitted : ∀ path, path ∈ state.emitted ↔ path ∈ directories ∨ DirectoryDeclared history path
  nodup : directories.Nodup
  provisional_nodup : state.provisional.Nodup
  length : state.inner.entries.length = history.length + state.provisional.length

namespace Accounted

/-- A declared directory that was added before turns one entry into a declared one. -/
theorem replace (ha : Accounted history directories state) (h : layer.Consistent history state)
    {d old : Descriptor} {i : Nat} (hs : Supersedes state d i old) :
    Accounted (history ++ [⟨state.collection, d⟩]) directories (superseded state i d) where
  emitted path := by
    have hself : d.isDirectory = true ∧ d.path = path → path ∈ state.emitted := by
      rintro ⟨-, rfl⟩
      exact h.mem_emitted_of_provisional hs.provisional
    rw [superseded_emitted, directoryDeclared_concat, ← or_assoc, ← ha.emitted]
    exact (or_iff_left_of_imp hself).symm
  nodup := ha.nodup
  provisional_nodup := ha.provisional_nodup.filter _
  length := by
    have hone := length_filter_ne ha.provisional_nodup hs.provisional
    have hlength := ha.length
    rw [superseded_entries, List.length_set, List.length_append, List.length_singleton]
    show _ = _ + (state.provisional.filter (· ≠ d.path)).length
    omega

/-- Any other entry comes behind the missing directories, each of which is new and counts as
provisional. -/
theorem record (ha : Accounted history directories state) (h : layer.Consistent history state)
    (d : Descriptor) :
    Accounted (history ++ [⟨state.collection, d⟩]) (directories ++ layer.missing state d.path)
      (layer.recorded state d) where
  emitted path := by
    rw [layer.mem_recorded_emitted, directoryDeclared_concat, List.mem_append, ha.emitted,
      eq_comm (a := path)]
    tauto
  nodup := by
    refine ha.nodup.append (layer.missing_nodup state d.path) fun directory hold hnew => ?_
    exact (layer.mem_missing_iff.mp hnew).2.1 ((ha.emitted directory).mpr (Or.inl hold))
  provisional_nodup := nodup_foldl_insert ha.provisional_nodup _
  length := by
    have hnew : ∀ directory ∈ layer.missing state d.path, directory ∉ state.provisional :=
      fun directory hdirectory hold =>
        (layer.mem_missing_iff.mp hdirectory).2.1 (h.mem_emitted_of_provisional hold)
    have hprovisional : (layer.recorded state d).provisional.length =
        state.provisional.length + (layer.missing state d.path).length :=
      length_foldl_insert (layer.missing_nodup state d.path) hnew
    have hlength := ha.length
    rw [hprovisional, layer.recorded_entries]
    simp only [List.length_append, List.length_map, List.length_singleton]
    omega

theorem add (ha : Accounted history directories state) (h : layer.Consistent history state)
    (d : Descriptor) :
    Accounted (history ++ [⟨state.collection, d⟩]) (directories ++ layer.addedBy state (.add d))
      (layer.add Listing.sink state d).state := by
  rw [addedBy_add]
  obtain ⟨i, old, hs, heq⟩ | ⟨-, heq⟩ := h.add_cases d
  · rw [heq, h.missing_eq_nil hs.provisional, List.append_nil]
    exact ha.replace h hs
  · rw [heq]
    exact ha.record h d

end Accounted

/-! ### All calls -/

variable (layer)

theorem accounted_after (calls : List Call) :
    Accounted (Call.declarations none calls) (layer.added { inner := .empty } calls)
      (layer.after calls) := by
  induction calls using List.reverseRecOn with
  | nil =>
      refine ⟨fun path => ?_, List.nodup_nil, List.nodup_nil, rfl⟩
      exact iff_of_false List.not_mem_nil (by simp [added, Call.declarations, DirectoryDeclared])
  | append_singleton calls c ih =>
      rw [layer.added_concat, Call.declarations_append, ← layer.after_collection]
      cases c with
      | add d =>
          rw [layer.after_concat_add]
          exact ih.add (layer.consistent_after calls) d
      | enter root | leave =>
          rw [layer.after_append]
          simp only [addedBy, Call.declarations, List.append_nil]
          exact ⟨ih.emitted, ih.nodup, ih.provisional_nodup, ih.length⟩

/-- No directory is added after its declaration. -/
theorem not_mem_added_of_declared {before : List Call} {path : String}
    (h : DirectoryDeclared (Call.declarations none before) path) (later : List Call) :
    path ∉ layer.added (layer.after before) later := by
  induction later using List.reverseRecOn with
  | nil => exact List.not_mem_nil
  | append_singleton later c ih =>
      rw [layer.added_append, ← layer.after_append, List.mem_append, not_or]
      refine ⟨ih, fun hadded => ?_⟩
      rw [added, added, List.append_nil] at hadded
      obtain ⟨x, hx, hdeclared⟩ := h
      refine not_mem_emitted_of_addedBy hadded (((layer.accounted_after _).emitted path).mpr ?_)
      rw [Call.declarations_append]
      exact Or.inr ⟨x, List.mem_append_left _ hx, hdeclared⟩

/-- **The state of a layer accounts for its calls.**  The emitted paths are those of the recorded
directories.  The provisional ones, all of them emitted, are the directories that were added and
never declared; nothing is added twice, or once it is declared; and besides the declared entries
there is one recorded entry for each provisional directory. -/
theorem state_accounts_for_calls (calls : List Call) :
    (∀ path, path ∈ (layer.after calls).emitted ↔
      ∃ e ∈ (layer.after calls).inner.entries, e.kind = .directory ∧ e.path = path) ∧
    (∀ path ∈ (layer.after calls).provisional, path ∈ (layer.after calls).emitted) ∧
    (∀ path, path ∈ (layer.after calls).provisional ↔
      path ∈ layer.added { inner := .empty } calls ∧
        ¬∃ d ∈ Call.entries calls, d.kind = .directory ∧ d.path = path) ∧
    (layer.added { inner := .empty } calls).Nodup ∧
    (∀ before later, calls = before ++ later →
      ∀ d ∈ Call.entries before, d.kind = .directory →
        d.path ∉ layer.added (layer.after before) later) ∧
    (layer.after calls).provisional.Nodup ∧
    (layer.after calls).inner.entries.length =
      (Call.entries calls).length + (layer.after calls).provisional.length := by
  have h := layer.consistent_after calls
  have ha := layer.accounted_after calls
  have hdirectory : ∀ d : Descriptor, d.isDirectory = true ↔ d.kind = .directory :=
    fun d => beq_iff_eq
  have hdeclared : ∀ (calls : List Call) (path : String),
      DirectoryDeclared (Call.declarations none calls) path ↔
        ∃ d ∈ Call.entries calls, d.kind = .directory ∧ d.path = path := by
    intro calls path
    simp [DirectoryDeclared, Call.entries, hdirectory]
  refine ⟨fun path => ?_, fun path => h.mem_emitted_of_provisional, fun path => ?_, ha.nodup, ?_,
    ha.provisional_nodup, ?_⟩
  · simp only [h.directories, hdirectory]
  · rw [h.provisional, ha.emitted, ← hdeclared]
    exact and_congr_left fun hnone => or_iff_left hnone
  · intro before later _ d hd hkind
    exact layer.not_mem_added_of_declared ((hdeclared before d.path).mpr ⟨d, hd, hkind, rfl⟩) later
  · rw [ha.length, Call.entries, List.length_map]

end ArchivePlan.ParentLayer
