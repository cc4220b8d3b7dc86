import ArchivePlan.Proofs.LayerHistory

/-! # Parents stand before their content

Whatever was added before, an entry finds every directory that it lies in, that a base path covers
and that is not left to the open collection, recorded before its own slot, and no later call takes
one of them away (`parents_stand_before`).  The directories that the call itself adds stand directly
before the entry, shallowest first.

The slot is the end of the listing, or the one of a directory that was added for an earlier entry;
in that case the invariant of the layer has its parents before it (`Consistent.slot_of_add`). -/

namespace ArchivePlan.ParentLayer

variable {layer : ParentLayer} {history : List Declaration} {state : Layered Listing}

theorem Consistent.slot_of_add (h : layer.Consistent history state) (d : Descriptor) :
    ∃ i, (layer.add Listing.sink state d).state.inner.slot? d.path = some i ∧
      (layer.add Listing.sink state d).state.inner.entries[i]? = some d ∧
      ∀ directory, layer.Needs ⟨state.collection, d⟩ directory →
        Listing.RecordedBefore (layer.add Listing.sink state d).state.inner.entries i directory := by
  obtain ⟨i, old, hs, heq⟩ | ⟨-, heq⟩ := h.add_cases d
  · obtain ⟨k, hk, hbefore⟩ := h.before d.path hs.provisional
    obtain rfl := Option.some.inj (hs.slot.symm.trans hk)
    rw [heq]
    refine ⟨i, hs.slot, hs.getElem?_self, fun directory hneeds => ?_⟩
    exact (hbefore directory hneeds.1 (layer.covers_iff.mp hneeds.2).1).grows hs.grows
      (Nat.le_refl i)
  · rw [heq]
    refine ⟨_, layer.recorded_slot? state d, ?_, fun _ => h.recordedBefore_entry d⟩
    rw [layer.recorded_entries]
    simp

/-- The directories that one entry brings with it stand directly before it. -/
theorem Consistent.entries_of_add (h : layer.Consistent history state) (d : Descriptor) :
    (∃ i, (layer.add Listing.sink state d).state.inner.slot? d.path = some i ∧
      (layer.add Listing.sink state d).state.inner.entries = state.inner.entries.set i d) ∨
    (layer.add Listing.sink state d).state.inner.entries =
      state.inner.entries ++ (layer.missing state d.path).map layer.parentEntry ++ [d] := by
  obtain ⟨i, old, hs, heq⟩ | ⟨-, heq⟩ := h.add_cases d
  · rw [heq]
    exact Or.inl ⟨i, hs.slot, rfl⟩
  · rw [heq]
    exact Or.inr (layer.recorded_entries state d)

variable (layer)

/-- Every parent of a path that is a base path or lies below one, and that does not lie strictly
below the root of the open collection, is recorded as a directory before a slot. -/
def ParentsBefore (root : Option String) (path : String) (entries : List Descriptor) (i : Nat) :
    Prop :=
  ∀ directory, Target.IsParent directory path →
    (∃ base ∈ layer.bases, Target.IsBelow directory base) →
    (∀ r, root = some r → directory = r ∨ ¬Target.IsBelow directory r) →
    Listing.RecordedBefore entries i directory

variable {layer}

theorem needs_of_isParent {x : Declaration} {directory : String}
    (hbases : ∀ base ∈ layer.bases, Target.IsRendered base)
    (hroot : ∀ r, x.collection = some r → Target.IsCanonical r)
    (hcanonical : Target.IsCanonical x.entry.path)
    (hparent : Target.IsParent directory x.entry.path)
    (hbase : ∃ base ∈ layer.bases, Target.IsBelow directory base)
    (houtside : ∀ r, x.collection = some r → directory = r ∨ ¬Target.IsBelow directory r) :
    layer.Needs x directory := by
  have hdir := hparent.isRendered
  refine ⟨(Target.mem_ancestors_iff_isParent hcanonical).mpr hparent, layer.covers_iff.mpr ⟨?_, ?_⟩⟩
  · obtain ⟨base, hmem, hbelow⟩ := hbase
    exact ⟨base, hmem, (Target.isWithin_iff_isBelow hdir (hbases base hmem)).mpr hbelow⟩
  · intro r hr
    rw [Target.isWithin_iff_isBelow hdir (hroot r hr).isRendered]
    exact houtside r hr

/-- **Parents stand before their content.**  Adding an entry succeeds; either it takes an existing
slot, or the added directories, which are parents of it in order of depth, and then the entry go to
the end.  After any later calls the slot has the path still, the parents stand before it, and the
path is found there or further on. -/
theorem parents_stand_before {registry : Registry} {declared : List String}
    {modified : Option Instant} (hmake : ParentLayer.make registry declared modified = .ok layer)
    (before later : List Call) (d : Descriptor)
    (hroot : ∀ r, Call.openRoot none before = some r → Target.IsCanonical r)
    (hd : Target.IsCanonical d.path) :
    (layer.add Listing.sink (layer.after before) d).refusal = none ∧
    ∃ i added, (layer.after (before ++ [.add d])).inner.slot? d.path = some i ∧
      (layer.after (before ++ [.add d])).inner.entries[i]? = some d ∧
      (added = [] ∧ (layer.after (before ++ [.add d])).inner.entries =
          (layer.after before).inner.entries.set i d ∨
        (layer.after (before ++ [.add d])).inner.entries =
          (layer.after before).inner.entries ++ added.map layer.parentEntry ++ [d]) ∧
      (∀ directory ∈ added, Target.IsParent directory d.path) ∧
      added.Pairwise (fun a b => Target.depth a < Target.depth b) ∧
      (∃ e, (layer.after (before ++ .add d :: later)).inner.entries[i]? = some e ∧
        e.path = d.path) ∧
      (∃ j, (layer.after (before ++ .add d :: later)).inner.slot? d.path = some j ∧ i ≤ j) ∧
      layer.ParentsBefore (Call.openRoot none before) d.path
        (layer.after (before ++ .add d :: later)).inner.entries i := by
  have h := layer.consistent_after before
  have hadd := h.add d
  have hlater : layer.after (before ++ .add d :: later) =
      (layer.sink Listing.sink).run (layer.add Listing.sink (layer.after before) d).state later :=
    layer.after_append before (.add d :: later)
  have hgrows := hadd.grows_run later
  obtain ⟨i, hslot, hentry, hrecorded⟩ := h.slot_of_add d
  rw [layer.after_concat_add, hlater]
  refine ⟨(layer.sink_accepts Listing.sink_accepts).add _ d, i, ?_⟩
  have hmoved := Listing.slot?_le_of_grows (hadd.run later).indexed hadd.indexed hgrows hslot
  have hkept : ∃ e, ((layer.sink Listing.sink).run
      (layer.add Listing.sink (layer.after before) d).state later).inner.entries[i]? = some e ∧
      e.path = d.path := by
    obtain ⟨e, he, hpath, -⟩ := hgrows i d hentry
    exact ⟨e, he, hpath⟩
  have hparents : layer.ParentsBefore (Call.openRoot none before) d.path ((layer.sink
      Listing.sink).run (layer.add Listing.sink (layer.after before) d).state later).inner.entries
      i := by
    intro directory hparent hbase houtside
    rw [← layer.after_collection] at hroot houtside
    have hneeds : layer.Needs ⟨(layer.after before).collection, d⟩ directory :=
      needs_of_isParent (fun _ => isRendered_of_make hmake) hroot hd hparent hbase houtside
    exact (hrecorded directory hneeds).grows hgrows (Nat.le_refl i)
  rcases h.entries_of_add d with ⟨j, hj, hset⟩ | happend
  · obtain rfl := Option.some.inj (hslot.symm.trans hj)
    exact ⟨[], hslot, hentry, Or.inl ⟨rfl, hset⟩, by simp, List.Pairwise.nil, hkept, hmoved,
      hparents⟩
  · refine ⟨layer.missing (layer.after before) d.path, hslot, hentry, Or.inr happend, ?_, ?_, hkept,
      hmoved, hparents⟩
    · intro directory hmissing
      exact (Target.mem_ancestors_iff_isParent hd).mp (layer.mem_missing_iff.mp hmissing).1
    · exact (Target.ancestors_pairwise_depth hd).filter _

/-- A plugin that a collection rooted at `/opt/lib` finds in `/opt/lib/x`, below the base path
`/opt`: the root of the collection stands before it, also after `/opt` was declared. -/
theorem parents_stand_before_plugin :
    ParentLayer.make {} ["/opt/"] none = .ok { registry := {}, bases := ["/opt"] } ∧
    Target.IsCanonical "/opt/lib" ∧ Target.IsCanonical "/opt/lib/x/plugin" ∧
    ∃ i, ({ registry := {}, bases := ["/opt"] } : ParentLayer).ParentsBefore (some "/opt/lib")
        "/opt/lib/x/plugin" (after { registry := {}, bases := ["/opt"] }
          [.enter "/opt/lib", .add ⟨"/opt/lib/x/plugin", .file, .bytes [], .defaultFor .file, none⟩,
            .leave, .add ⟨"/opt", .directory, .none, .defaultFor .directory, none⟩]).inner.entries i ∧
      Target.IsParent "/opt/lib" "/opt/lib/x/plugin" ∧ Target.IsBelow "/opt/lib" "/opt" := by
  have hmake : ParentLayer.make {} ["/opt/"] none =
      .ok { registry := {}, bases := ["/opt"] } := rfl
  have hroot : ∀ r, some "/opt/lib" = some r → Target.IsCanonical r := by
    rintro r ⟨⟩
    rfl
  have hcanonical : Target.IsCanonical "/opt/lib/x/plugin" := rfl
  obtain ⟨-, i, -, -, -, -, -, -, -, -, hparents⟩ :=
    parents_stand_before hmake [.enter "/opt/lib"]
      [.leave, .add ⟨"/opt", .directory, .none, .defaultFor .directory, none⟩]
      ⟨"/opt/lib/x/plugin", .file, .bytes [], .defaultFor .file, none⟩ hroot hcanonical
  refine ⟨hmake, rfl, hcanonical, i, hparents, ?_, [['l', 'i', 'b']], by decide⟩
  exact ⟨[['o', 'p', 't'], ['l', 'i', 'b']], [['x'], ['p', 'l', 'u', 'g', 'i', 'n']],
    by decide, by decide, by decide, by decide⟩

end ArchivePlan.ParentLayer
