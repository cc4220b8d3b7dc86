import ArchivePlan.Proofs.LayerHistory
import Mathlib.Data.List.Induction

/-! # The listing in two passes

A layer adds directories as it meets them and puts a declared one in the place of an added one when
it comes.  If all entries are known the same listing can be made in two passes: `layout` gives every
entry and every directory around it a place, in the order in which they are first needed, and `fill`
puts into each place what was declared there, or the entry of a directory that nobody declared.

`twoPass_eq_entries` says that the results are equal, for canonical and distinct paths.  The
relation that each call preserves is `Laid`: the listing is the layout of what was declared so far,
filled with what was declared so far. -/

namespace ArchivePlan

/-- A place in a listing. -/
inductive Place where
  /-- The place of a declared entry. -/
  | entry (d : Descriptor)
  /-- The place of a directory that a declared entry lies in. -/
  | directory (path : String)

namespace Place

/-- The path of the directory that goes to a place, if it is one. -/
def directory? : Place → Option String
  | .entry d => if d.isDirectory then some d.path else none
  | .directory path => some path

theorem directory?_entry {d : Descriptor} {path : String} :
    (entry d).directory? = some path ↔ d.isDirectory = true ∧ d.path = path := by
  unfold directory?
  split <;> simp_all

/-- Two places are not for one directory. -/
def Apart (a b : Place) : Prop :=
  ∀ path, a.directory? = some path → b.directory? ≠ some path

end Place

def hasDirectory (places : List Place) (path : String) : Bool :=
  places.any (·.directory? = some path)

theorem hasDirectory_iff {places : List Place} {path : String} :
    hasDirectory places path = true ↔ ∃ place ∈ places, place.directory? = some path := by
  unfold hasDirectory
  simp

/-- The directory that is declared under a path. -/
def declaredDirectory? (history : List Declaration) (path : String) : Option Descriptor :=
  (history.map (·.entry)).find? fun d => d.isDirectory && d.path = path

theorem declaredDirectory?_eq_none {history : List Declaration} {path : String}
    (h : ¬DirectoryDeclared history path) : declaredDirectory? history path = none := by
  unfold declaredDirectory?
  rw [List.find?_eq_none]
  intro d hd hboth
  rw [Bool.and_eq_true, decide_eq_true_iff] at hboth
  obtain ⟨x, hx, rfl⟩ := List.mem_map.mp hd
  exact h ⟨x, hx, hboth⟩

theorem declaredDirectory?_some {history : List Declaration} {path : String} {d : Descriptor}
    (h : declaredDirectory? history path = some d) : d.isDirectory = true ∧ d.path = path := by
  have hboth := List.find?_some h
  rwa [Bool.and_eq_true, decide_eq_true_iff] at hboth

theorem declaredDirectory?_concat {history : List Declaration} {x : Declaration} {path : String} :
    declaredDirectory? (history ++ [x]) path = (declaredDirectory? history path).or
      (if x.entry.isDirectory = true ∧ x.entry.path = path then some x.entry else none) := by
  unfold declaredDirectory?
  rw [List.map_append, List.find?_append, List.map_singleton, List.find?_singleton]
  simp

namespace ParentLayer

variable (layer : ParentLayer)

/-- Places for the directories that an entry needs and that have none, shallowest first. -/
def wantedPlaces (places : List Place) (x : Declaration) : List Place :=
  ((Target.parents x.entry.path).filter fun directory =>
    layer.covers x.collection directory && !hasDirectory places directory).map .directory

/-- Lays out one more entry: behind the places for the directories that it needs comes its own,
unless it is a directory that has a place. -/
def layOut (places : List Place) (x : Declaration) : List Place :=
  let places := places ++ layer.wantedPlaces places x
  if x.entry.isDirectory && hasDirectory places x.entry.path then places
  else places ++ [.entry x.entry]

def layout (history : List Declaration) : List Place :=
  history.foldl layer.layOut []

/-- What goes to a place once everything is declared. -/
def fill (history : List Declaration) : Place → Except RegistryError Descriptor
  | .entry d => .ok d
  | .directory path =>
    match declaredDirectory? history path with
    | some d => .ok d
    | none => (layer.registry.metadata path .directory none .empty).map fun metadata =>
      ⟨path, .directory, .none, metadata.stamped layer.modified, none⟩

def twoPass (history : List Declaration) : Except RegistryError (List Descriptor) :=
  (layer.layout history).mapM (layer.fill history)

/-! ### The first pass -/

variable {layer} {history : List Declaration}

theorem layout_concat (x : Declaration) :
    layer.layout (history ++ [x]) = layer.layOut (layer.layout history) x :=
  List.foldl_append

theorem mem_wantedPlaces {places : List Place} {x : Declaration} {place : Place}
    (h : place ∈ layer.wantedPlaces places x) :
    ∃ directory, place = .directory directory ∧ hasDirectory places directory = false := by
  obtain ⟨directory, hdir, rfl⟩ := List.mem_map.mp h
  refine ⟨directory, rfl, ?_⟩
  simpa using (Bool.and_eq_true_iff.mp (List.mem_filter.mp hdir).2).2

theorem entry_mem_layout {d : Descriptor} (h : .entry d ∈ layer.layout history) :
    ∃ x ∈ history, x.entry = d := by
  induction history using List.reverseRecOn with
  | nil => exact absurd h List.not_mem_nil
  | append_singleton history x ih =>
      rw [layout_concat] at h
      unfold layOut at h
      have hplaces : .entry d ∈ layer.layout history ++ layer.wantedPlaces (layer.layout history) x →
          ∃ y ∈ history ++ [x], y.entry = d := by
        intro hmem
        rcases List.mem_append.mp hmem with hmem | hmem
        · obtain ⟨y, hy, heq⟩ := ih hmem
          exact ⟨y, List.mem_append_left _ hy, heq⟩
        · obtain ⟨directory, heq, -⟩ := mem_wantedPlaces hmem
          cases heq
      dsimp only at h
      split at h
      · exact hplaces h
      · rcases List.mem_append.mp h with h | h
        · exact hplaces h
        · cases List.mem_singleton.mp h
          exact ⟨x, by simp, rfl⟩

theorem wantedPlaces_pairwise (places : List Place) (x : Declaration) :
    (layer.wantedPlaces places x).Pairwise Place.Apart := by
  unfold wantedPlaces
  rw [List.pairwise_map]
  apply ((Target.parents_nodup x.entry.path).filter _).imp
  intro a b hne path ha hb
  exact hne (Option.some.inj (ha.trans hb.symm))

variable (layer) in
/-- No directory has two places. -/
theorem layout_pairwise (history : List Declaration) :
    (layer.layout history).Pairwise Place.Apart := by
  induction history using List.reverseRecOn with
  | nil => exact List.Pairwise.nil
  | append_singleton history x ih =>
      rw [layout_concat]
      unfold layOut
      have hplaces : (layer.layout history ++
          layer.wantedPlaces (layer.layout history) x).Pairwise Place.Apart := by
        refine List.pairwise_append.mpr ⟨ih, wantedPlaces_pairwise _ x, ?_⟩
        intro p hp q hq path hpath hqpath
        obtain ⟨directory, rfl, hnone⟩ := mem_wantedPlaces hq
        obtain rfl := Option.some.inj hqpath
        rw [hasDirectory_iff.mpr ⟨p, hp, hpath⟩] at hnone
        cases hnone
      dsimp only
      split
      · exact hplaces
      · next hnew =>
          refine List.pairwise_append.mpr ⟨hplaces, List.pairwise_singleton _ _, ?_⟩
          intro p hp q hq path hpath hqpath
          obtain rfl := List.mem_singleton.mp hq
          obtain ⟨hdir, rfl⟩ := Place.directory?_entry.mp hqpath
          rw [hdir, Bool.true_and] at hnew
          exact hnew (hasDirectory_iff.mpr ⟨p, hp, hpath⟩)

/-! ### The second pass -/

variable (layer) in
def filled (history : List Declaration) : Place → Descriptor
  | .entry d => d
  | .directory path => (declaredDirectory? history path).getD (layer.parentEntry path)

theorem filled_directory (path : String) : layer.filled history (.directory path) =
    (declaredDirectory? history path).getD (layer.parentEntry path) := rfl

theorem fill_eq (place : Place) : layer.fill history place = .ok (layer.filled history place) := by
  cases place with
  | entry d => rfl
  | directory path =>
      cases hdeclared : declaredDirectory? history path with
      | some d => simp only [fill, filled_directory, hdeclared, Option.getD_some]
      | none =>
          simp only [fill, filled_directory, hdeclared, Option.getD_none]
          exact layer.parent_eq path

theorem twoPass_eq (history : List Declaration) :
    layer.twoPass history = .ok ((layer.layout history).map (layer.filled history)) := by
  unfold twoPass
  rw [funext fill_eq]
  exact List.mapM_pure

theorem filled_directory_iff {place : Place} {path : String} :
    (layer.filled history place).isDirectory = true ∧ (layer.filled history place).path = path ↔
      place.directory? = some path := by
  cases place with
  | entry d => exact Place.directory?_entry.symm
  | directory directory =>
      rw [filled_directory]
      cases hdeclared : declaredDirectory? history directory with
      | none => simp [Place.directory?]
      | some d =>
          obtain ⟨hdir, hpath⟩ := declaredDirectory?_some hdeclared
          simp [Place.directory?, hdir, hpath]

/-- A later declaration only matters to the place of its directory. -/
theorem filled_concat {place : Place} {x : Declaration}
    (h : x.entry.isDirectory = true → place.directory? ≠ some x.entry.path) :
    layer.filled (history ++ [x]) place = layer.filled history place := by
  cases place with
  | entry d => rfl
  | directory path =>
      have hother : ¬(x.entry.isDirectory = true ∧ x.entry.path = path) := by
        rintro ⟨hdir, rfl⟩
        exact h hdir rfl
      rw [filled_directory, declaredDirectory?_concat, if_neg hother, Option.or_none,
        filled_directory]

theorem filled_concat_self {x : Declaration} (hdir : x.entry.isDirectory = true)
    (hnone : ¬DirectoryDeclared history x.entry.path) :
    layer.filled (history ++ [x]) (.directory x.entry.path) = x.entry := by
  rw [filled_directory, declaredDirectory?_concat, declaredDirectory?_eq_none hnone,
    if_pos ⟨hdir, rfl⟩, Option.none_or, Option.getD_some]

/-! ### Each call -/

variable {state : Layered Listing} {d : Descriptor}

variable (layer) in
/-- The listing is what two passes over the declarations so far make. -/
def Laid (history : List Declaration) (state : Layered Listing) : Prop :=
  state.inner.entries = (layer.layout history).map (layer.filled history)

/-- The directories that have places are those that were emitted. -/
theorem Laid.hasDirectory_iff (hl : layer.Laid history state) (h : layer.Consistent history state)
    {path : String} : hasDirectory (layer.layout history) path = true ↔ path ∈ state.emitted := by
  rw [h.directories, hl, ArchivePlan.hasDirectory_iff]
  simp only [List.mem_map, exists_exists_and_eq_and, filled_directory_iff]

/-- The directories that get places are those that are missing. -/
theorem Laid.wantedPlaces_eq (hl : layer.Laid history state) (h : layer.Consistent history state)
    (hcanonical : Target.IsCanonical d.path) :
    layer.wantedPlaces (layer.layout history) ⟨state.collection, d⟩ =
      (layer.missing state d.path).map .directory := by
  unfold wantedPlaces missing
  rw [Target.ancestors_eq_parents hcanonical]
  congr 1
  apply List.filter_congr
  intro directory _
  rw [Bool.eq_iff_iff, layer.wants_iff, ← hl.hasDirectory_iff h, Bool.and_eq_true, and_comm]
  simp

theorem Laid.layout_record (hl : layer.Laid history state) (h : layer.Consistent history state)
    (hcanonical : Target.IsCanonical d.path)
    (hnew : d.isDirectory = true → d.path ∉ state.emitted) :
    layer.layout (history ++ [⟨state.collection, d⟩]) =
      layer.layout history ++ (layer.missing state d.path).map .directory ++ [.entry d] := by
  rw [layout_concat]
  unfold layOut
  rw [hl.wantedPlaces_eq h hcanonical]
  refine if_neg fun hplace => ?_
  rw [Bool.and_eq_true] at hplace
  obtain ⟨hdir, hhas⟩ := hplace
  obtain ⟨place, hmem, hpath⟩ := ArchivePlan.hasDirectory_iff.mp hhas
  rcases List.mem_append.mp hmem with hmem | hmem
  · apply hnew hdir
    exact (hl.hasDirectory_iff h).mp (ArchivePlan.hasDirectory_iff.mpr ⟨place, hmem, hpath⟩)
  · obtain ⟨directory, hmissing, rfl⟩ := List.mem_map.mp hmem
    obtain rfl := Option.some.inj hpath
    exact Target.not_mem_ancestors_self _ (layer.mem_missing_iff.mp hmissing).1

theorem filled_missing (h : layer.Consistent history state) {directory : String}
    (hmissing : directory ∈ layer.missing state d.path) :
    layer.filled (history ++ [⟨state.collection, d⟩]) (.directory directory) =
      layer.parentEntry directory := by
  obtain ⟨hmem, hfresh, -⟩ := layer.mem_missing_iff.mp hmissing
  have hnone : ¬DirectoryDeclared history directory := fun hdeclared =>
    hfresh ((h.emitted directory).mpr (Or.inr hdeclared))
  rw [filled_concat]
  · rw [filled_directory, declaredDirectory?_eq_none hnone, Option.getD_none]
  · rintro - hpath
    obtain rfl := Option.some.inj hpath
    exact Target.not_mem_ancestors_self _ hmem

theorem Laid.record (hl : layer.Laid history state) (h : layer.Consistent history state)
    (hcanonical : Target.IsCanonical d.path)
    (hnew : d.isDirectory = true → d.path ∉ state.emitted) :
    layer.Laid (history ++ [⟨state.collection, d⟩]) (layer.recorded state d) := by
  have hold : ∀ place ∈ layer.layout history,
      layer.filled (history ++ [⟨state.collection, d⟩]) place = layer.filled history place := by
    intro place hplace
    refine filled_concat fun hdir hpath => hnew hdir ?_
    exact (hl.hasDirectory_iff h).mp (ArchivePlan.hasDirectory_iff.mpr ⟨place, hplace, hpath⟩)
  have hadded := List.map_congr_left fun directory => filled_missing (d := d) h
  unfold Laid
  rw [layer.recorded_entries, hl.layout_record h hcanonical hnew, hl, List.map_append,
    List.map_append, List.map_map, List.map_congr_left hold]
  exact congrArg (_ ++ · ++ [d]) hadded.symm

theorem Laid.layout_getElem? (hl : layer.Laid history state) {i : Nat} {e : Descriptor}
    (he : state.inner.entries[i]? = some e) (hundeclared : ∀ x ∈ history, x.entry.path ≠ e.path) :
    (layer.layout history)[i]? = some (.directory e.path) := by
  rw [hl, List.getElem?_map, Option.map_eq_some_iff] at he
  obtain ⟨place, hplace, rfl⟩ := he
  rw [hplace]
  cases place with
  | entry d =>
      obtain ⟨x, hx, rfl⟩ := entry_mem_layout (List.mem_of_getElem? hplace)
      exact absurd rfl (hundeclared x hx)
  | directory path =>
      have hpath : (layer.filled history (.directory path)).path = path :=
        (filled_directory_iff.mpr rfl).2
      rw [hpath]

theorem directory?_ne_of_layout {i j : Nat} {path : String} {place : Place}
    (hi : (layer.layout history)[i]? = some (.directory path))
    (hj : (layer.layout history)[j]? = some place) (hij : i ≠ j) :
    place.directory? ≠ some path := by
  obtain ⟨hilt, hieq⟩ := List.getElem?_eq_some_iff.mp hi
  obtain ⟨hjlt, rfl⟩ := List.getElem?_eq_some_iff.mp hj
  have hapart := List.pairwise_iff_getElem.mp (layer.layout_pairwise history)
  have hself : (layer.layout history)[i].directory? = some path := by
    rw [hieq]
    rfl
  intro hsame
  rcases Nat.lt_or_gt_of_ne hij with hlt | hgt
  · exact hapart i j hilt hjlt hlt path hself hsame
  · exact hapart j i hjlt hilt hgt path hsame hself

/-- When an implied directory is declared, both passes change the one place that it has. -/
theorem Laid.replace (hl : layer.Laid history state) (h : layer.Consistent history state)
    (hcanonical : Target.IsCanonical d.path) (hundeclared : ∀ x ∈ history, x.entry.path ≠ d.path)
    {i : Nat} {old : Descriptor} (hs : Supersedes state d i old) :
    layer.Laid (history ++ [⟨state.collection, d⟩]) (superseded state i d) := by
  have hnone : ¬DirectoryDeclared history d.path := by
    rintro ⟨x, hx, -, hsame⟩
    exact hundeclared x hx hsame
  have hlayout : layer.layout (history ++ [⟨state.collection, d⟩]) = layer.layout history := by
    have hplace := (hl.hasDirectory_iff h).mpr (h.mem_emitted_of_provisional hs.provisional)
    rw [layout_concat]
    unfold layOut
    rw [hl.wantedPlaces_eq h hcanonical, h.missing_eq_nil hs.provisional, List.map_nil,
      List.append_nil]
    exact if_pos (Bool.and_eq_true_iff.mpr ⟨hs.isDirectory, hplace⟩)
  have hplace : (layer.layout history)[i]? = some (.directory d.path) := by
    rw [← hs.path] at hundeclared ⊢
    exact hl.layout_getElem? hs.entry hundeclared
  unfold Laid
  apply List.ext_getElem?
  intro j
  rw [hlayout, List.getElem?_map]
  by_cases hij : i = j
  · subst hij
    have hself : layer.filled (history ++ [⟨state.collection, d⟩]) (.directory d.path) = d :=
      filled_concat_self hs.isDirectory hnone
    rw [hs.getElem?_self, hplace]
    exact congrArg some hself.symm
  · rw [superseded_entries, List.getElem?_set_ne hij, hl, List.getElem?_map]
    cases hj : (layer.layout history)[j]? with
    | none => rfl
    | some other =>
        have hother := directory?_ne_of_layout hplace hj hij
        rw [Option.map_some, Option.map_some, filled_concat fun _ => hother]

theorem Laid.add (hl : layer.Laid history state) (h : layer.Consistent history state)
    (hcanonical : Target.IsCanonical d.path)
    (hundeclared : ∀ x ∈ history, x.entry.path ≠ d.path) :
    layer.Laid (history ++ [⟨state.collection, d⟩]) (layer.add Listing.sink state d).state := by
  obtain ⟨i, old, hs, heq⟩ | ⟨hnot, heq⟩ := h.add_cases d
  · rw [heq]
    exact hl.replace h hcanonical hundeclared hs
  · rw [heq]
    exact hl.record h hcanonical (h.not_mem_emitted hundeclared hnot)

variable (layer) in
/-- The relation along a run, while no path is declared twice. -/
theorem laid_after (calls : List Call)
    (hcanonical : ∀ x ∈ Call.declarations none calls, Target.IsCanonical x.entry.path)
    (hdistinct : DistinctPaths (Call.declarations none calls)) :
    layer.Laid (Call.declarations none calls) (layer.after calls) := by
  have hrun := layer.after_induction
    (P := fun history state => (∀ x ∈ history, Target.IsCanonical x.entry.path) →
      DistinctPaths history → layer.Laid history state)
    (fun _ _ => rfl) (fun _ hl => hl) (fun d h hl hcanonical hdistinct => ?_) calls
  · exact hrun hcanonical hdistinct
  · obtain ⟨hdistinct, hundeclared⟩ := distinctPaths_concat.mp hdistinct
    have hbefore := hl (fun x hx => hcanonical x (List.mem_append_left _ hx)) hdistinct
    have hself := hcanonical _ (List.mem_append_right _ List.mem_cons_self)
    exact hbefore.add h hself hundeclared

variable (layer)

/-- **One pass makes what two passes make.**  If the declared paths are canonical and distinct, the
entries that a layer leaves in a listing, call by call and refusing none, are those of the two
passes over all declarations, which succeed. -/
theorem twoPass_eq_entries (calls : List Call)
    (hcanonical : ∀ d ∈ Call.entries calls, Target.IsCanonical d.path)
    (hdistinct : ((Call.entries calls).map (·.path)).Nodup) :
    (layer.sink Listing.sink).Accepts ∧
      layer.twoPass (Call.declarations none calls) = .ok (layer.after calls).inner.entries := by
  have hlaid : layer.Laid (Call.declarations none calls) (layer.after calls) := by
    apply layer.laid_after calls
    · exact fun x hx => hcanonical x.entry (List.mem_map_of_mem hx)
    · rwa [Call.entries, List.map_map] at hdistinct
  rw [twoPass_eq]
  exact ⟨layer.sink_accepts Listing.sink_accepts, congrArg Except.ok hlaid.symm⟩

/-- A file below `/opt`, its directory declared after it, and a file that a collection found. -/
theorem twoPass_eq_entries_collection :
    (∀ d ∈ Call.entries
        [.add ⟨"/opt/app/run", .file, .bytes [], .defaultFor .file, none⟩,
          .add ⟨"/opt/app", .directory, .none, .defaultFor .directory, none⟩,
          .enter "/opt/doc", .add ⟨"/opt/doc/a/b", .file, .bytes [], .defaultFor .file, none⟩,
          .leave], Target.IsCanonical d.path) ∧
    twoPass { registry := {}, bases := ["/opt"] }
        [⟨none, ⟨"/opt/app/run", .file, .bytes [], .defaultFor .file, none⟩⟩,
          ⟨none, ⟨"/opt/app", .directory, .none, .defaultFor .directory, none⟩⟩,
          ⟨some "/opt/doc", ⟨"/opt/doc/a/b", .file, .bytes [], .defaultFor .file, none⟩⟩] =
      .ok (after { registry := {}, bases := ["/opt"] }
        [.add ⟨"/opt/app/run", .file, .bytes [], .defaultFor .file, none⟩,
          .add ⟨"/opt/app", .directory, .none, .defaultFor .directory, none⟩,
          .enter "/opt/doc", .add ⟨"/opt/doc/a/b", .file, .bytes [], .defaultFor .file, none⟩,
          .leave]).inner.entries := by
  have hcanonical : ∀ d ∈ Call.entries
      [.add ⟨"/opt/app/run", .file, .bytes [], .defaultFor .file, none⟩,
        .add ⟨"/opt/app", .directory, .none, .defaultFor .directory, none⟩,
        .enter "/opt/doc", .add ⟨"/opt/doc/a/b", .file, .bytes [], .defaultFor .file, none⟩,
        .leave], Target.IsCanonical d.path := by
    simp only [Call.entries_cons_add, Call.entries_cons_enter, Call.entries_cons_leave,
      List.forall_mem_cons]
    exact ⟨rfl, rfl, rfl, fun d hd => absurd hd List.not_mem_nil⟩
  exact ⟨hcanonical,
    (twoPass_eq_entries { registry := {}, bases := ["/opt"] } _ hcanonical (by decide)).2⟩

end ParentLayer

end ArchivePlan
