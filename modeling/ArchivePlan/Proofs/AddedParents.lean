import ArchivePlan.Proofs.Calls
import ArchivePlan.Proofs.Recording
import ArchivePlan.Proofs.TargetPath
import ArchivePlan.Sink.Parents

/-! # One call of a parent layer

The entry of a directory that nobody declares never fails, because a registry has the ruleset that
it names as its default (`parent_eq`); so a layer refuses only what the sink below refuses
(`sink_accepts`).

Over a listing the directories that one call adds are those of the path that are `missing`, in the
order of `ancestors`, and `add_listing` says what the whole call does: the entry goes behind them
(`recorded`), or it is a directory that takes the place of one added before (`replaced`). -/

namespace ArchivePlan

/-! ### The entries of directories that are not declared -/

namespace Registry

variable (registry : Registry)

def defaultRules : List Rule :=
  ((registry.default.bind registry.get?).map (·.rules)).getD []

theorem get?_isSome {name : String} (h : name ∈ registry.rulesets.map (·.name)) :
    ∃ ruleset, registry.get? name = some ruleset := by
  obtain ⟨ruleset, hmem, rfl⟩ := List.mem_map.mp h
  refine Option.isSome_iff_exists.mp ?_
  unfold get?
  rw [List.find?_isSome]
  exact ⟨ruleset, hmem, by simp⟩

theorem attributes_none (path : String) (kind : FileKind) (explicit : Attributes) :
    registry.attributes path kind none explicit =
      .ok ((attributesOf registry.defaultRules path kind).overlay explicit) := by
  have heff : registry.effective none = registry.default := rfl
  unfold attributes defaultRules
  rw [heff]
  cases hdefault : registry.default with
  | none => rfl
  | some name =>
      obtain ⟨ruleset, hget⟩ := registry.get?_isSome (registry.default_mem name hdefault).2
      simp only [Option.bind_some, hget]
      rfl

end Registry

/-! ### Base paths -/

theorem canonicalBases_ok {declared : List String}
    (h : ∀ name ∈ declared, ∃ base, Target.canonical name = .ok base) :
    ∃ bases, canonicalBases declared = .ok bases := by
  induction declared with
  | nil => exact ⟨[], rfl⟩
  | cons name rest ih =>
      obtain ⟨base, hbase⟩ := h name List.mem_cons_self
      obtain ⟨bases, hbases⟩ := ih fun other hother => h other (List.mem_cons_of_mem _ hother)
      refine ⟨base :: bases, ?_⟩
      rw [canonicalBases, hbase, hbases]
      rfl

theorem isRendered_of_mem_bases {declared bases : List String}
    (h : canonicalBases declared = .ok bases) {base : String} (hbase : base ∈ bases) :
    Target.IsRendered base := by
  induction declared generalizing bases with
  | nil =>
      obtain rfl := Except.ok.inj h
      exact absurd hbase List.not_mem_nil
  | cons name rest ih =>
      rw [canonicalBases] at h
      split at h
      · cases h
      · next first hfirst =>
          cases hrest : canonicalBases rest with
          | error e =>
              rw [hrest] at h
              cases h
          | ok others =>
              rw [hrest] at h
              obtain rfl := Except.ok.inj h
              rcases List.mem_cons.mp hbase with rfl | hbase
              · exact Target.isRendered_of_canonical hfirst
              · exact ih hrest hbase

theorem ParentLayer.make_eq_ok_iff {registry : Registry} {declared : List String}
    {modified : Option Instant} {layer : ParentLayer} :
    ParentLayer.make registry declared modified = .ok layer ↔
      ∃ bases, canonicalBases declared = .ok bases ∧ layer = ⟨registry, bases, modified⟩ := by
  unfold ParentLayer.make
  cases canonicalBases declared with
  | error e => simp [Except.map]
  | ok bases => simp [Except.map, eq_comm]

theorem ParentLayer.isRendered_of_make {registry : Registry} {declared : List String}
    {modified : Option Instant} {layer : ParentLayer}
    (h : ParentLayer.make registry declared modified = .ok layer) {base : String}
    (hbase : base ∈ layer.bases) : Target.IsRendered base := by
  obtain ⟨bases, hbases, rfl⟩ := make_eq_ok_iff.mp h
  exact isRendered_of_mem_bases hbases hbase

namespace ParentLayer

variable (layer : ParentLayer)

/-- The entry of a directory that is not declared. -/
def parentEntry (directory : String) : Descriptor where
  path := directory
  kind := .directory
  content := .none
  metadata := (Metadata.ofAttributes .directory
    (attributesOf layer.registry.defaultRules directory .directory)).stamped layer.modified

@[simp] theorem parentEntry_path (directory : String) :
    (layer.parentEntry directory).path = directory := rfl

@[simp] theorem parentEntry_isDirectory (directory : String) :
    (layer.parentEntry directory).isDirectory = true := rfl

theorem parent_eq (directory : String) :
    layer.parent directory = .ok (layer.parentEntry directory) := by
  unfold parent Registry.metadata
  rw [Registry.attributes_none, Attributes.overlay_empty]
  rfl

/-- A directory at or below a base path that is not left to the collection with the given root. -/
def covers (root : Option String) (directory : String) : Bool :=
  layer.bases.any (Target.isWithin directory) &&
    root.all fun root => directory = root || !Target.isWithin directory root

theorem covers_iff {root : Option String} {directory : String} :
    layer.covers root directory = true ↔
      (∃ base ∈ layer.bases, Target.isWithin directory base = true) ∧
        ∀ r, root = some r → directory = r ∨ ¬Target.isWithin directory r = true := by
  unfold covers
  rw [Bool.and_eq_true, List.any_eq_true]
  cases root with
  | none => simp
  | some r => simp

/-- A directory that lies strictly outside a covered one is left to no collection either. -/
theorem covers_of_mem_ancestors {root : Option String} {outer directory : String}
    (h : outer ∈ Target.ancestors directory) (hcovers : layer.covers root directory = true)
    (hbase : ∃ base ∈ layer.bases, Target.isWithin outer base = true) :
    layer.covers root outer = true := by
  refine (layer.covers_iff).mpr ⟨hbase, fun r hr => Or.inr fun hwithin => ?_⟩
  rcases (layer.covers_iff.mp hcovers).2 r hr with rfl | hnot
  · exact Target.not_isWithin_of_mem_ancestors h hwithin
  · exact hnot (Target.isWithin_of_mem_ancestors h hwithin)

variable {σ : Type} {inner : Sink σ}

theorem wants_iff {state : Layered σ} {directory : String} :
    layer.wants state directory = true ↔
      directory ∉ state.emitted ∧ layer.covers state.collection directory = true := by
  unfold wants covers
  rw [Bool.and_assoc, Bool.and_eq_true, decide_eq_true_iff]

/-! ### Refusals -/

theorem addParents_refusal (h : inner.Accepts) (state : Layered σ) (directories : List String) :
    (layer.addParents inner state directories).refusal = none := by
  induction directories generalizing state with
  | nil => rfl
  | cons directory rest ih =>
      unfold addParents
      split
      · simp only [layer.parent_eq, h.add]
        exact ih _
      · exact ih _

theorem sink_accepts (h : inner.Accepts) : (layer.sink inner).Accepts where
  add state d := by
    show (layer.add inner state d).refusal = none
    unfold add Reply.andThen
    rw [layer.addParents_refusal h]
    simp only
    split
    · exact h.supersede _ _
    · exact h.add _ _
  supersede state d := h.supersede _ _

theorem addParents_collection (state : Layered σ) (directories : List String) :
    (layer.addParents inner state directories).state.collection = state.collection := by
  induction directories generalizing state with
  | nil => rfl
  | cons directory rest ih =>
      unfold addParents
      split
      · simp only [layer.parent_eq]
        split
        · rfl
        · rw [ih]
      · exact ih _

theorem add_collection (state : Layered σ) (d : Descriptor) :
    (layer.add inner state d).state.collection = state.collection := by
  have hparents : (layer.addParents inner state (Target.ancestors d.path)).state.collection =
      state.collection := layer.addParents_collection state _
  unfold add Reply.andThen
  split
  · rw [← hparents]
    dsimp only
    split
    · rfl
    · split <;> rfl
  · exact hparents

theorem run_collection (state : Layered σ) (calls : List Call) :
    ((layer.sink inner).run state calls).collection =
      Call.openRoot state.collection calls := by
  induction calls generalizing state with
  | nil => rfl
  | cons c calls ih =>
      rw [Sink.run_cons, ih]
      cases c with
      | add d => exact congrArg (Call.openRoot · calls) (layer.add_collection state d)
      | enter root => rfl
      | leave => rfl

/-! ### Over a listing -/

/-- The directories that are added before an entry at a path. -/
def missing (state : Layered σ) (path : String) : List String :=
  (Target.ancestors path).filter (layer.wants state)

theorem mem_missing_iff {state : Layered σ} {path directory : String} :
    directory ∈ layer.missing state path ↔ directory ∈ Target.ancestors path ∧
      directory ∉ state.emitted ∧ layer.covers state.collection directory = true := by
  unfold missing
  rw [List.mem_filter, layer.wants_iff]

theorem missing_pairwise_length (state : Layered σ) (path : String) :
    (layer.missing state path).Pairwise (fun a b => a.length < b.length) :=
  (Target.ancestors_pairwise_length path).filter _

theorem missing_nodup (state : Layered σ) (path : String) : (layer.missing state path).Nodup :=
  (Target.ancestors_nodup path).filter _

/-- A layer around a listing to which directories were added. -/
def withParents (state : Layered Listing) (directories : List String) : Layered Listing where
  inner := state.inner.addMany (directories.map layer.parentEntry)
  emitted := directories.foldl (fun paths directory => paths.insert directory) state.emitted
  provisional := directories.foldl (fun paths directory => paths.insert directory) state.provisional
  collection := state.collection

theorem mem_foldl_insert {path : String} {paths directories : List String} :
    path ∈ directories.foldl (fun paths directory => paths.insert directory) paths ↔
      path ∈ directories ∨ path ∈ paths := by
  induction directories generalizing paths with
  | nil => simp
  | cons directory directories ih =>
      rw [List.foldl_cons, ih, List.mem_insert_iff, List.mem_cons, or_left_comm, or_assoc]

theorem addParents_listing {state : Layered Listing} {directories : List String}
    (h : directories.Nodup) :
    layer.addParents Listing.sink state directories =
      ⟨layer.withParents state (directories.filter (layer.wants state)), none⟩ := by
  induction directories generalizing state with
  | nil => rfl
  | cons directory rest ih =>
      obtain ⟨hfresh, hrest⟩ := List.nodup_cons.mp h
      unfold addParents
      split
      · next hwants =>
          rw [layer.parent_eq, List.filter_cons_of_pos hwants]
          simp only [Listing.sink]
          rw [← Listing.sink, ih hrest]
          -- adding `directory` changes what is wanted at `directory` only
          have hsame : rest.filter (layer.wants (layer.withParents state [directory])) =
              rest.filter (layer.wants state) := by
            refine List.filter_congr fun other hother => ?_
            have hne : other ≠ directory := fun heq => hfresh (heq ▸ hother)
            rw [Bool.eq_iff_iff, layer.wants_iff, layer.wants_iff]
            simp [withParents, hne]
          exact congrArg (fun ds => Reply.mk (layer.withParents state (directory :: ds)) none) hsame
      · next hwants =>
          rw [List.filter_cons_of_neg hwants]
          exact ih hrest

/-- The entry goes behind the directories that are missing. -/
def recorded (state : Layered Listing) (d : Descriptor) : Layered Listing :=
  let state := layer.withParents state (layer.missing state d.path)
  { state with
    inner := state.inner.add d
    emitted := if d.isDirectory then state.emitted.insert d.path else state.emitted }

/-- The entry takes the place of a directory that was added. -/
def replaced (state : Layered Listing) (d : Descriptor) : Layered Listing :=
  let state := layer.withParents state (layer.missing state d.path)
  { state with
    inner := state.inner.supersede d
    provisional := state.provisional.filter (· ≠ d.path) }

theorem add_listing (state : Layered Listing) (d : Descriptor) :
    layer.add Listing.sink state d =
      ⟨if d.isDirectory = true ∧ d.path ∈ state.provisional then layer.replaced state d
        else layer.recorded state d, none⟩ := by
  have hself : d.path ∈ (layer.withParents state (layer.missing state d.path)).provisional ↔
      d.path ∈ state.provisional := by
    have hnot : d.path ∉ layer.missing state d.path := fun h =>
      Target.not_mem_ancestors_self _ (layer.mem_missing_iff.mp h).1
    simp only [withParents, mem_foldl_insert, hnot, false_or]
  unfold add
  rw [layer.addParents_listing (Target.ancestors_nodup d.path)]
  simp only [Reply.andThen]
  rw [← missing]
  by_cases hd : d.isDirectory = true ∧ d.path ∈ state.provisional
  · rw [if_pos hd, if_pos ⟨hd.1, hself.mpr hd.2⟩]
    rfl
  · rw [if_neg hd, if_neg fun h => hd ⟨h.1, hself.mp h.2⟩]
    unfold recorded
    split
    · rfl
    · rfl

theorem recorded_entries (state : Layered Listing) (d : Descriptor) :
    (layer.recorded state d).inner.entries =
      state.inner.entries ++ (layer.missing state d.path).map layer.parentEntry ++ [d] := by
  simp [recorded, withParents]

theorem grows_recorded (state : Layered Listing) (d : Descriptor) :
    Listing.Grows state.inner.entries (layer.recorded state d).inner.entries := by
  rw [layer.recorded_entries, List.append_assoc]
  exact Listing.grows_append _ _

theorem recorded_getElem?_missing {state : Layered Listing} {d : Descriptor} {directory : String}
    {k : Nat} (hk : (layer.missing state d.path)[k]? = some directory) :
    (layer.recorded state d).inner.entries[state.inner.entries.length + k]? =
      some (layer.parentEntry directory) := by
  have hlt := (List.getElem?_eq_some_iff.mp hk).1
  rw [layer.recorded_entries, List.append_assoc, List.getElem?_append_right (by omega),
    List.getElem?_append_left (by rw [List.length_map]; omega), Nat.add_sub_cancel_left,
    List.getElem?_map, hk]
  rfl

theorem mem_recorded_emitted {state : Layered Listing} {d : Descriptor} {path : String} :
    path ∈ (layer.recorded state d).emitted ↔
      path ∈ layer.missing state d.path ∨ path ∈ state.emitted ∨
        d.isDirectory = true ∧ path = d.path := by
  unfold recorded
  simp only
  split
  · next hd =>
      rw [List.mem_insert_iff, withParents, mem_foldl_insert, or_comm, or_assoc]
      simp [hd]
  · next hd =>
      rw [withParents, mem_foldl_insert]
      simp [hd]

theorem mem_recorded_provisional {state : Layered Listing} {d : Descriptor} {path : String} :
    path ∈ (layer.recorded state d).provisional ↔
      path ∈ layer.missing state d.path ∨ path ∈ state.provisional := by
  simp only [recorded, withParents, mem_foldl_insert]

theorem recorded_isIndexed {state : Layered Listing} (h : state.inner.IsIndexed) (d : Descriptor) :
    (layer.recorded state d).inner.IsIndexed :=
  (h.addMany _).add d

theorem recorded_slot? (state : Layered Listing) (d : Descriptor) :
    (layer.recorded state d).inner.slot? d.path =
      some (state.inner.entries.length + (layer.missing state d.path).length) := by
  simp [recorded, withParents, Listing.slot?_add]

theorem recorded_slot?_of_ne {state : Layered Listing} {d : Descriptor} {path : String}
    (hpath : d.path ≠ path) (hmissing : path ∉ layer.missing state d.path) :
    (layer.recorded state d).inner.slot? path = state.inner.slot? path := by
  show ((state.inner.addMany _).add d).slot? path = _
  rw [Listing.slot?_add, if_neg hpath.symm]
  refine Listing.slot?_addMany_of_ne fun e he => ?_
  obtain ⟨directory, hdir, rfl⟩ := List.mem_map.mp he
  rintro rfl
  exact hmissing hdir

end ParentLayer

end ArchivePlan
