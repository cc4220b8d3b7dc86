import ArchivePlan.Proofs.Filling
import ArchivePlan.Proofs.LayerHistory
import Mathlib.Data.List.Nodup
import Mathlib.Data.List.Perm.Basic

/-! # The order of declarations

While no path is declared twice, a layer records every declaration and the entry of every directory
that stays implied, each of them once (`Faithful`), and nothing else (`Faithful.mem_entries_iff`).
Neither of these depends on the order in which the declarations came, so the listings that a layer
makes of the same declarations are permutations of each other (`after_perm`), and so are those that
a plan makes of the same declared entries (`build_perm`). -/

namespace ArchivePlan

/-- What no two recorded entries have in common. -/
def Descriptor.key (d : Descriptor) : String × Bool :=
  (d.path, d.isDirectory)

namespace ParentLayer

variable {layer : ParentLayer} {history : List Declaration} {state : Layered Listing}
  {d : Descriptor}

/-- Every declaration is recorded, and no entry twice. -/
structure Faithful (history : List Declaration) (state : Layered Listing) : Prop where
  declared : ∀ x ∈ history, x.entry ∈ state.inner.entries
  nodup : (state.inner.entries.map Descriptor.key).Nodup

/-- Exactly the declarations and the entries of implied directories are recorded. -/
theorem Faithful.mem_entries_iff (hf : Faithful history state)
    (h : layer.Consistent history state) {e : Descriptor} :
    e ∈ state.inner.entries ↔ (∃ x ∈ history, x.entry = e) ∨
      ∃ directory, layer.Implied history directory ∧ e = layer.parentEntry directory := by
  constructor
  · intro he
    rcases h.origin e he with hdeclared | ⟨directory, rfl⟩
    · exact Or.inl hdeclared
    · have hemitted := (h.directories directory).mpr ⟨_, he, rfl, rfl⟩
      by_cases hnone : DirectoryDeclared history directory
      -- the declaration has the same key, so it is this entry
      · obtain ⟨x, hx, hdir, hpath⟩ := hnone
        have hkey : x.entry.key = (layer.parentEntry directory).key := Prod.ext hpath hdir
        exact Or.inl ⟨x, hx, List.inj_on_of_nodup_map hf.nodup (hf.declared x hx) he hkey⟩
      · refine Or.inr ⟨directory, ?_, rfl⟩
        exact h.mem_provisional_iff.mp ((h.provisional directory).mpr ⟨hemitted, hnone⟩)
  · rintro (⟨x, hx, rfl⟩ | ⟨directory, himplied, rfl⟩)
    · exact hf.declared x hx
    · have hp := h.mem_provisional_iff.mpr himplied
      obtain ⟨e, he, hdir, rfl⟩ := (h.directories directory).mp (h.mem_emitted_of_provisional hp)
      rw [← h.eq_parentEntry he hdir hp]
      exact he

theorem Consistent.isDirectory_of_undeclared (h : layer.Consistent history state) {e : Descriptor}
    (he : e ∈ state.inner.entries) (hundeclared : ∀ x ∈ history, x.entry.path ≠ e.path) :
    e.isDirectory = true := by
  rcases h.origin e he with ⟨x, hx, rfl⟩ | ⟨directory, rfl⟩
  · exact absurd rfl (hundeclared x hx)
  · rfl

theorem Faithful.replace (hf : Faithful history state) (h : layer.Consistent history state)
    (hundeclared : ∀ x ∈ history, x.entry.path ≠ d.path) {i : Nat} {old : Descriptor}
    (hs : Supersedes state d i old) :
    Faithful (history ++ [⟨state.collection, d⟩]) (superseded state i d) where
  declared x hx := by
    rcases List.mem_append.mp hx with hx | hx
    · obtain ⟨j, hj⟩ := List.mem_iff_getElem?.mp (hf.declared x hx)
      have hij : i ≠ j := by
        rintro rfl
        obtain rfl := Option.some.inj (hs.entry.symm.trans hj)
        exact hundeclared x hx hs.path
      exact List.mem_of_getElem? ((List.getElem?_set_ne hij).trans hj)
    · obtain rfl := List.mem_singleton.mp hx
      exact List.mem_of_getElem? hs.getElem?_self
  nodup := by
    have holddir : old.isDirectory = true := by
      apply h.isDirectory_of_undeclared (List.mem_of_getElem? hs.entry)
      rwa [hs.path]
    have hkey : old.key = d.key := Prod.ext hs.path (holddir.trans hs.isDirectory.symm)
    rw [superseded_entries, Listing.map_set Descriptor.key hs.entry hkey]
    exact hf.nodup

theorem Faithful.record (hf : Faithful history state) (h : layer.Consistent history state)
    (hundeclared : ∀ x ∈ history, x.entry.path ≠ d.path)
    (hnew : d.isDirectory = true → d.path ∉ state.emitted) :
    Faithful (history ++ [⟨state.collection, d⟩]) (layer.recorded state d) where
  declared x hx := by
    rw [layer.recorded_entries]
    rcases List.mem_append.mp hx with hx | hx
    · exact List.mem_append_left _ (List.mem_append_left _ (hf.declared x hx))
    · exact List.mem_append_right _ (by simpa using congrArg Declaration.entry (by simpa using hx))
  nodup := by
    have hadded : (((layer.missing state d.path).map layer.parentEntry).map
        Descriptor.key).Nodup := by
      rw [List.map_map]
      refine List.Nodup.map (fun a b heq => congrArg Prod.fst heq) ?_
      exact layer.missing_nodup state d.path
    have hparents : ∀ e ∈ state.inner.entries, ∀ p ∈ (layer.missing state d.path).map
        layer.parentEntry, e.key ≠ p.key := by
      intro e he p hp heq
      obtain ⟨directory, hmissing, rfl⟩ := List.mem_map.mp hp
      refine (layer.mem_missing_iff.mp hmissing).2.1 ((h.directories directory).mpr ?_)
      exact ⟨e, he, congrArg Prod.snd heq, congrArg Prod.fst heq⟩
    have hself : ∀ e ∈ state.inner.entries ++ (layer.missing state d.path).map layer.parentEntry,
        e.key ≠ d.key := by
      intro e he heq
      have hpath : e.path = d.path := congrArg Prod.fst heq
      have hkind : e.isDirectory = d.isDirectory := congrArg Prod.snd heq
      rcases List.mem_append.mp he with he | he
      · have hdir : e.isDirectory = true := h.isDirectory_of_undeclared he (by rwa [hpath])
        refine hnew (hkind.symm.trans hdir) ((h.directories d.path).mpr ⟨e, he, hdir, hpath⟩)
      · obtain ⟨directory, hmissing, rfl⟩ := List.mem_map.mp he
        obtain rfl : directory = d.path := hpath
        exact Target.not_mem_ancestors_self _ (layer.mem_missing_iff.mp hmissing).1
    unfold List.Nodup
    rw [List.pairwise_map, layer.recorded_entries, List.pairwise_append, List.pairwise_append]
    refine ⟨⟨List.pairwise_map.mp hf.nodup, List.pairwise_map.mp hadded, hparents⟩,
      List.pairwise_singleton _ _, ?_⟩
    intro e he p hp
    obtain rfl := List.mem_singleton.mp hp
    exact hself e he

theorem Faithful.add (hf : Faithful history state) (h : layer.Consistent history state)
    (hundeclared : ∀ x ∈ history, x.entry.path ≠ d.path) :
    Faithful (history ++ [⟨state.collection, d⟩]) (layer.add Listing.sink state d).state := by
  obtain ⟨i, old, hs, heq⟩ | ⟨hnot, heq⟩ := h.add_cases d
  · rw [heq]
    exact hf.replace h hundeclared hs
  · rw [heq]
    exact hf.record h hundeclared (h.not_mem_emitted hundeclared hnot)

variable (layer) in
theorem faithful_after (calls : List Call)
    (hdistinct : DistinctPaths (Call.declarations none calls)) :
    Faithful (Call.declarations none calls) (layer.after calls) := by
  have hrun := layer.after_induction
    (P := fun history state => DistinctPaths history → Faithful history state)
    (fun _ => ⟨fun x hx => absurd hx List.not_mem_nil, List.nodup_nil⟩)
    (fun root hf hdistinct => ⟨(hf hdistinct).declared, (hf hdistinct).nodup⟩)
    (fun d h hf hdistinct => ?_) calls
  · exact hrun hdistinct
  · obtain ⟨hdistinct, hundeclared⟩ := distinctPaths_concat.mp hdistinct
    exact (hf hdistinct).add h hundeclared

/-! ### Orders -/

theorem implied_congr {history history' : List Declaration} (hperm : history.Perm history')
    (directory : String) :
    layer.Implied history directory ↔ layer.Implied history' directory := by
  simp only [Implied, Needed, DirectoryDeclared, hperm.mem_iff]

variable (layer)

/-- The same declarations make the same entries, in whatever order they come. -/
theorem after_perm {calls calls' : List Call}
    (hperm : (Call.declarations none calls).Perm (Call.declarations none calls'))
    (hdistinct : DistinctPaths (Call.declarations none calls)) :
    (layer.after calls).inner.entries.Perm (layer.after calls').inner.entries := by
  have hf := layer.faithful_after calls hdistinct
  have hf' := layer.faithful_after calls' (hdistinct.perm hperm)
  apply (List.perm_ext_iff_of_nodup (hf.nodup.of_map _) (hf'.nodup.of_map _)).mpr
  intro e
  rw [hf.mem_entries_iff (layer.consistent_after calls),
    hf'.mem_entries_iff (layer.consistent_after calls')]
  simp only [hperm.mem_iff, implied_congr hperm]

end ParentLayer

namespace Plan

variable {plan : Plan} {fs : FileSystem}

/-- **The order of declarations decides positions only.**  If a plan goes on after entries that
cannot be resolved and no two archive entries have one path, it builds listings from the declared
entries in any two orders, and these are permutations of each other. -/
theorem build_perm (hpolicy : plan.policy = .proceed)
    (hbases : ∀ name ∈ plan.intermediate, ∃ base, Target.canonical name = .ok base)
    {entries entries' : List Entry} (hperm : entries.Perm entries')
    (hdistinct : ((entries.flatMap (plan.descriptors fs)).map (·.path)).Nodup) :
    ∃ listing report listing' report', plan.build fs entries = .ok (listing, report) ∧
      plan.build fs entries' = .ok (listing', report') ∧
      listing.entries.Perm listing'.entries := by
  by_cases hnone : plan.intermediate = []
  · obtain ⟨listing, hbuild, hlisting⟩ := build_of_no_bases fs hpolicy hnone entries
    obtain ⟨listing', hbuild', hlisting'⟩ := build_of_no_bases fs hpolicy hnone entries'
    refine ⟨_, _, _, _, hbuild, hbuild', ?_⟩
    rw [hlisting, hlisting']
    exact hperm.flatMap_right _
  · obtain ⟨bases, hok⟩ := canonicalBases_ok hbases
    refine ⟨_, _, _, _, build_of_bases fs hpolicy hnone hok entries,
      build_of_bases fs hpolicy hnone hok entries', ?_⟩
    apply ParentLayer.after_perm
    · rw [Call.declarations_flatMap openRoot_calls, Call.declarations_flatMap openRoot_calls]
      exact hperm.flatMap_right _
    · rw [← entries_calls, Call.entries, List.map_map] at hdistinct
      exact hdistinct

/-- A directory that is declared before and after a link in it, and a file that is not found. -/
theorem build_perm_directory :
    (({ registry := {}, policy := .proceed } : Plan).policy = .proceed ∧
      ∀ name ∈ ["/opt/"], ∃ base, Target.canonical name = .ok base) ∧
    ∃ listing report listing' report',
      ({ registry := {}, intermediate := ["/opt/"], policy := .proceed } : Plan).build {}
        [{ name := "/opt/app", directory := some true }, { name := "/opt/f", file := some "f" },
          { name := "/opt/app/x", linkTo := some "y" }] = .ok (listing, report) ∧
      ({ registry := {}, intermediate := ["/opt/"], policy := .proceed } : Plan).build {}
        [{ name := "/opt/app/x", linkTo := some "y" },
          { name := "/opt/app", directory := some true }, { name := "/opt/f", file := some "f" }] =
        .ok (listing', report') ∧
      listing.entries.Perm listing'.entries := by
  have hbases : ∀ name ∈ ["/opt/"], ∃ base, Target.canonical name = .ok base := by
    intro name hname
    obtain rfl := List.mem_singleton.mp hname
    exact ⟨"/opt", rfl⟩
  refine ⟨⟨rfl, hbases⟩, ?_⟩
  apply build_perm rfl hbases
  · decide
  · decide

end Plan

end ArchivePlan
