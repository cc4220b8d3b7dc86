import ArchivePlan.Proofs.Filling
import Mathlib.Data.List.Induction

/-! # Collections that declare their directories

While a collection is open a layer leaves the directories strictly below its root to the collection.
If the entries declare each such directory before what lies in it, the layer would pass over them
anyway: `DeclaresInside` says so of a list of entries, and then the marks of the collection change
nothing (`run_addAll_eq_run_add`). -/

namespace ArchivePlan

/-- Each directory that an entry lies in, strictly below a root, is declared before the entry. -/
def DeclaresInside (root : String) (ds : List Descriptor) : Prop :=
  ∀ before d after, ds = before ++ d :: after → ∀ directory ∈ Target.ancestors d.path,
    Target.isWithin directory root = true → directory ≠ root →
      ∃ outer ∈ before, outer.isDirectory = true ∧ outer.path = directory

namespace ParentLayer

variable (layer : ParentLayer) {state : Layered Listing} {root : String} {d : Descriptor}

/-- Where the layer has emitted what it would leave to a collection, an open collection makes no
difference to what is missing. -/
theorem missing_open (h : ∀ directory ∈ Target.ancestors d.path,
      Target.isWithin directory root = true → directory ≠ root → directory ∈ state.emitted) :
    layer.missing { state with collection := some root } d.path =
      layer.missing { state with collection := none } d.path := by
  refine List.filter_congr fun directory hdirectory => ?_
  rw [Bool.eq_iff_iff, layer.wants_iff, layer.wants_iff, layer.covers_iff, layer.covers_iff]
  refine and_congr_right fun hfresh => and_congr_right fun _ => ?_
  refine iff_of_true ?_ (by rintro r ⟨⟩)
  rintro r ⟨⟩
  by_cases heq : directory = root
  · exact Or.inl heq
  · exact Or.inr fun hwithin => hfresh (h directory hdirectory hwithin heq)

theorem add_open (h : ∀ directory ∈ Target.ancestors d.path,
      Target.isWithin directory root = true → directory ≠ root → directory ∈ state.emitted) :
    (layer.add Listing.sink { state with collection := some root } d).state =
      { (layer.add Listing.sink { state with collection := none } d).state with
        collection := some root } := by
  have hmissing := layer.missing_open h
  rw [layer.add_listing, layer.add_listing]
  unfold replaced recorded withParents
  dsimp only
  rw [hmissing]
  split
  · rfl
  · rfl

/-- The entries of a collection that declares its directories lead to the same whether it is open or
not, up to any of them. -/
theorem run_open {ds : List Descriptor} (hds : DeclaresInside root ds) {calls : List Call}
    (hclosed : Call.openRoot none calls = none) (before after : List Descriptor)
    (hsplit : ds = before ++ after) :
    (layer.sink Listing.sink).run { layer.after calls with collection := some root }
        (before.map .add) =
      { layer.after (calls ++ before.map .add) with collection := some root } := by
  induction before using List.reverseRecOn generalizing after with
  | nil => simp [Sink.run]
  | append_singleton before d ih =>
      rw [List.append_assoc, List.singleton_append] at hsplit
      have hhistory : Call.openRoot none (calls ++ before.map .add) = none := by
        rw [Call.openRoot_append, hclosed, Call.openRoot_map_add]
      have hconsistent := layer.consistent_after (calls ++ before.map .add)
      rw [Call.declarations_append, hclosed, Call.declarations_map_add] at hconsistent
      have hcollection := layer.after_collection (calls ++ before.map .add)
      rw [hhistory] at hcollection
      have hemitted : ∀ directory ∈ Target.ancestors d.path,
          Target.isWithin directory root = true → directory ≠ root →
            directory ∈ (layer.after (calls ++ before.map .add)).emitted := by
        intro directory hdirectory hwithin hne
        obtain ⟨outer, houter, hdir, rfl⟩ := hds _ _ _ hsplit directory hdirectory hwithin hne
        refine (hconsistent.emitted _).mpr (Or.inr ⟨⟨none, outer⟩, ?_, hdir, rfl⟩)
        exact List.mem_append_right _ (List.mem_map_of_mem houter)
      have hstep := layer.add_open hemitted
      rw [List.map_append, Sink.run_append, ih _ hsplit, ← List.append_assoc, List.map_singleton,
        layer.after_concat_add]
      rw [← hcollection] at hstep
      exact hstep

/-- **The marks of a collection that declares its directories change nothing.** -/
theorem run_addAll_eq_run_add {ds : List Descriptor} (hds : DeclaresInside root ds)
    {calls : List Call} (hclosed : Call.openRoot none calls = none) :
    (layer.sink Listing.sink).run (layer.after calls) (Call.addAll (some root) ds) =
      (layer.sink Listing.sink).run (layer.after calls) (ds.map .add) := by
  have hopen := layer.run_open hds hclosed ds [] (List.append_nil ds).symm
  have hcollection := layer.after_collection (calls ++ ds.map .add)
  rw [Call.openRoot_append, hclosed, Call.openRoot_map_add] at hcollection
  rw [Call.addAll, Sink.run_cons, Sink.run_append, ← layer.after_append]
  show { (layer.sink Listing.sink).run { layer.after calls with collection := some root }
    (ds.map .add) with collection := none } = _
  rw [hopen, ← hcollection]

end ParentLayer

theorem Listing.run_addAll_eq_run_add (listing : Listing) (root : String) (ds : List Descriptor) :
    Listing.sink.run listing (Call.addAll (some root) ds) =
      Listing.sink.run listing (ds.map .add) := by
  rw [Call.addAll, Sink.run_cons, Sink.run_append]
  rfl

end ArchivePlan
