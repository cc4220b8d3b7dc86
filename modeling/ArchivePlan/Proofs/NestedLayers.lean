import ArchivePlan.Proofs.Requests
import Mathlib.Data.List.Induction

/-! # A layer around a layer

To the inner one of two layers the directories that the outer one adds are entries like any other.
Together they do what one layer with the base paths of both does (`nested_eq_single`), although the
inner one may pass over a directory at first and add it only before the next one that the outer one
wants.

`Folds` says how the sets of three layers belong together: the single layer has emitted what the
inner one has, and a directory that is provisional in it is provisional in one of the two.  Both are
the same after any prefix of the directories of a path, once the inner layer has caught up
(`Folds.introduce_prefix`), and every request preserves it (`Folds.serve`). -/

namespace ArchivePlan

/-! ### Base paths of both -/

theorem canonicalBases_append {declared declared' bases bases' : List String}
    (h : canonicalBases declared = .ok bases) (h' : canonicalBases declared' = .ok bases') :
    canonicalBases (declared ++ declared') = .ok (bases ++ bases') := by
  induction declared generalizing bases with
  | nil =>
      obtain rfl := Except.ok.inj h
      exact h'
  | cons name rest ih =>
      rw [canonicalBases] at h
      rw [List.cons_append, canonicalBases]
      split at h
      · cases h
      · next base hbase =>
          cases hrest : canonicalBases rest with
          | error e =>
              rw [hrest] at h
              cases h
          | ok others =>
              rw [hrest] at h
              obtain rfl := Except.ok.inj h
              rw [ih hrest]
              rfl

namespace ParentLayer

variable {σ : Type}

def joined (outer inner : ParentLayer) : ParentLayer :=
  { outer with bases := outer.bases ++ inner.bases }

variable {outer inner : ParentLayer} {base : Sink σ}

theorem make_append {registry : Registry} {declared declared' : List String}
    {modified : Option Instant} (h : make registry declared modified = .ok outer)
    (h' : make registry declared' modified = .ok inner) :
    make registry (declared ++ declared') modified = .ok (outer.joined inner) ∧
      ∀ directory, inner.parentEntry directory = outer.parentEntry directory := by
  obtain ⟨bases, hbases, rfl⟩ := make_eq_ok_iff.mp h
  obtain ⟨bases', hbases', rfl⟩ := make_eq_ok_iff.mp h'
  have happend := canonicalBases_append hbases hbases'
  exact ⟨make_eq_ok_iff.mpr ⟨_, happend, rfl⟩, fun directory => rfl⟩

theorem covers_joined {root : Option String} {directory : String} :
    (outer.joined inner).covers root directory = true ↔
      outer.covers root directory = true ∨ inner.covers root directory = true := by
  have hmem : ∀ b, b ∈ (outer.joined inner).bases ↔ b ∈ outer.bases ∨ b ∈ inner.bases :=
    fun b => List.mem_append
  simp only [covers_iff, hmem, or_and_right, exists_or]

/-! ### Two layers and one -/

/-- Two layers around a sink are in the states that belong to one state of a single layer. -/
structure Folds (outer inner : ParentLayer) (nested : Layered (Layered σ)) (single : Layered σ) :
    Prop where
  same : nested.inner.inner = single.inner
  outerCollection : nested.collection = single.collection
  innerCollection : nested.inner.collection = single.collection
  emitted : ∀ path, path ∈ single.emitted ↔
    path ∈ nested.emitted ∨ path ∈ nested.inner.provisional
  innerEmitted : ∀ path, path ∈ nested.inner.emitted ↔ path ∈ single.emitted
  provisional : ∀ path, path ∈ single.provisional ↔
    path ∈ nested.provisional ∨ path ∈ nested.inner.provisional
  outerProvisional : ∀ path ∈ nested.provisional, path ∈ nested.emitted
  /-- What the inner layer added by itself is nothing to the outer one. -/
  apart : ∀ path ∈ nested.inner.provisional, path ∉ nested.emitted ∧
    ∀ b ∈ outer.bases, ¬Target.isWithin path b = true
  /-- A directory was added after those that it lies in. -/
  closed : ∀ path ∈ single.provisional, ∀ directory ∈ Target.ancestors path,
    (∃ b ∈ (outer.joined inner).bases, Target.isWithin directory b = true) →
      directory ∈ single.emitted

namespace Folds

variable {nested : Layered (Layered σ)} {single : Layered σ} {path directory : String}

theorem fresh (b : σ) :
    Folds outer inner { inner := { inner := b } } { inner := b } where
  same := rfl
  outerCollection := rfl
  innerCollection := rfl
  emitted _ := by simp
  innerEmitted _ := Iff.rfl
  provisional _ := by simp
  outerProvisional _ h := h
  apart _ h := absurd h List.not_mem_nil
  closed _ h := absurd h List.not_mem_nil

theorem not_covers (h : Folds outer inner nested single)
    (hprovisional : path ∈ nested.inner.provisional) (root : Option String) :
    ¬outer.covers root path = true := by
  intro hcovers
  obtain ⟨⟨b, hb, hwithin⟩, -⟩ := outer.covers_iff.mp hcovers
  exact (h.apart path hprovisional).2 b hb hwithin

/-- The outer layer wants what it covers of the directories that the single layer has not
emitted. -/
theorem wants_outer (h : Folds outer inner nested single) :
    outer.wants nested directory = true ↔
      directory ∉ single.emitted ∧ outer.covers single.collection directory = true := by
  rw [wants_iff, h.outerCollection, h.emitted, not_or, and_assoc]
  refine and_congr_right fun _ => ⟨fun hcovers => ⟨fun hp => ?_, hcovers⟩, And.right⟩
  exact h.not_covers hp _ hcovers

theorem wants_inner (h : Folds outer inner nested single) :
    inner.wants nested.inner directory = true ↔
      directory ∉ single.emitted ∧ inner.covers single.collection directory = true := by
  rw [wants_iff, h.innerCollection, h.innerEmitted]

theorem wants_joined (h : Folds outer inner nested single) :
    (outer.joined inner).wants single directory = true ↔
      outer.wants nested directory = true ∨ inner.wants nested.inner directory = true := by
  rw [wants_iff, covers_joined, and_or_left, h.wants_outer, h.wants_inner]

theorem closed_insert (h : Folds outer inner nested single)
    (hbefore : ∀ q ∈ Target.ancestors directory,
      (outer.joined inner).covers single.collection q = true → q ∈ single.emitted)
    (hwants : (outer.joined inner).wants single directory = true) :
    ∀ path, path ∈ single.provisional.insert directory → ∀ q ∈ Target.ancestors path,
      (∃ b ∈ (outer.joined inner).bases, Target.isWithin q b = true) →
        q ∈ single.emitted.insert directory := by
  intro path hpath q hq hb
  rw [List.mem_insert_iff] at hpath ⊢
  rcases hpath with rfl | hold
  · have hcovers := ((wants_iff _).mp hwants).2
    exact Or.inr (hbefore q hq ((outer.joined inner).covers_of_mem_ancestors hq hcovers hb))
  · exact Or.inr (h.closed path hold q hq hb)

/-- A directory that the outer layer wants is declared to the inner one. -/
theorem introduce_outer (h : Folds outer inner nested single) (base : Sink σ)
    (hentry : inner.parentEntry directory = outer.parentEntry directory)
    (hbefore : ∀ q ∈ Target.ancestors directory,
      (outer.joined inner).covers single.collection q = true → q ∈ single.emitted)
    (hwants : outer.wants nested directory = true) :
    Folds outer inner
      { nested with
        inner := declare base nested.inner (outer.parentEntry directory)
        emitted := nested.emitted.insert directory
        provisional := nested.provisional.insert directory }
      ((outer.joined inner).introduce base single directory) := by
  have hjoined := h.wants_joined.mpr (Or.inl hwants)
  obtain ⟨hfresh, hcovers⟩ := h.wants_outer.mp hwants
  have hnot : directory ∉ nested.inner.provisional := fun hp => h.not_covers hp _ hcovers
  unfold introduce
  rw [if_pos hjoined]
  unfold declare
  rw [if_neg fun hp => hnot hp.2]
  simp only [parentEntry_isDirectory, parentEntry_path, if_true]
  refine ⟨?_, h.outerCollection, h.innerCollection, ?_, ?_, ?_, ?_, ?_, ?_⟩
  · rw [h.same]
    rfl
  · intro path
    simp only [List.mem_insert_iff, h.emitted, or_assoc]
  · intro path
    simp only [List.mem_insert_iff, h.innerEmitted]
  · intro path
    simp only [List.mem_insert_iff, h.provisional, or_assoc]
  · intro path hpath
    rw [List.mem_insert_iff] at hpath ⊢
    exact hpath.imp_right (h.outerProvisional path)
  · intro path hpath
    obtain ⟨hemitted, hbases⟩ := h.apart path hpath
    refine ⟨fun hmem => ?_, hbases⟩
    rcases List.mem_insert_iff.mp hmem with rfl | hold
    · exact hnot hpath
    · exact hemitted hold
  · exact h.closed_insert hbefore hjoined

/-- What the outer layer does not want, the inner one wants if the single layer does. -/
theorem introduce_inner (h : Folds outer inner nested single) (base : Sink σ)
    (hentry : inner.parentEntry directory = outer.parentEntry directory)
    (hbefore : ∀ q ∈ Target.ancestors directory,
      (outer.joined inner).covers single.collection q = true → q ∈ single.emitted)
    (hwants : ¬outer.wants nested directory = true) :
    Folds outer inner { nested with inner := inner.introduce base nested.inner directory }
      ((outer.joined inner).introduce base single directory) := by
  unfold introduce
  by_cases hinner : inner.wants nested.inner directory = true
  · have hjoined := h.wants_joined.mpr (Or.inr hinner)
    obtain ⟨hfresh, hcovers⟩ := h.wants_inner.mp hinner
    rw [if_pos hjoined, if_pos hinner]
    refine ⟨?_, h.outerCollection, h.innerCollection, ?_, ?_, ?_, h.outerProvisional, ?_, ?_⟩
    · rw [h.same, hentry]
      rfl
    · intro path
      simp only [List.mem_insert_iff, h.emitted, or_left_comm]
    · intro path
      simp only [List.mem_insert_iff, h.innerEmitted]
    · intro path
      simp only [List.mem_insert_iff, h.provisional, or_left_comm]
    · intro path hpath
      rcases List.mem_insert_iff.mp hpath with rfl | hold
      · refine ⟨fun hmem => hfresh ((h.emitted path).mpr (Or.inl hmem)), fun b hb hwithin => ?_⟩
        refine hwants (h.wants_outer.mpr ⟨hfresh, outer.covers_iff.mpr ⟨⟨b, hb, hwithin⟩, ?_⟩⟩)
        exact (inner.covers_iff.mp hcovers).2
      · exact h.apart path hold
    · exact h.closed_insert hbefore hjoined
  · rw [if_neg hinner, if_neg fun hjoined => (h.wants_joined.mp hjoined).elim hwants hinner]
    exact h

/-- **After any of the directories of a path both are the same**, once the inner layer has met the
directories that the outer one has met. -/
theorem introduce_prefix (h : Folds outer inner nested single) (hbase : base.Accepts)
    (hentry : ∀ directory, inner.parentEntry directory = outer.parentEntry directory)
    (directories rest : List String) (hsplit : Target.ancestors path = directories ++ rest) :
    Folds outer inner
      { directories.foldl (outer.introduce (inner.sink base)) nested with
        inner := directories.foldl (inner.introduce base)
          (directories.foldl (outer.introduce (inner.sink base)) nested).inner }
      (directories.foldl ((outer.joined inner).introduce base) single) := by
  induction directories using List.reverseRecOn generalizing rest with
  | nil => exact h
  | append_singleton met directory ih =>
      rw [List.append_assoc, List.singleton_append] at hsplit
      have hmet := ih _ hsplit
      have hancestors := Target.ancestors_eq_of_append hsplit
      simp only [List.foldl_append, List.foldl_cons, List.foldl_nil]
      generalize hout : met.foldl (outer.introduce (inner.sink base)) nested = out at hmet ⊢
      generalize hone : met.foldl ((outer.joined inner).introduce base) single = one at hmet ⊢
      have hbefore : ∀ q ∈ Target.ancestors directory,
          (outer.joined inner).covers one.collection q = true → q ∈ one.emitted := by
        intro q hq hcovers
        rw [← hone, foldl_introduce_collection] at hcovers
        rw [← hone]
        exact mem_emitted_of_covers (hancestors ▸ hq) hcovers
      by_cases hwants : outer.wants out directory = true
      · have hstep := hmet.introduce_outer base (hentry directory) hbefore hwants
        -- the inner layer has met the directories before this one when it is declared to it
        have hself : outer.introduce (inner.sink base) out directory =
            { out with
              inner := declare base (met.foldl (inner.introduce base) out.inner)
                (outer.parentEntry directory)
              emitted := out.emitted.insert directory
              provisional := out.provisional.insert directory } := by
          rw [introduce, if_pos hwants, sink_add, inner.add_of_accepts hbase, parentEntry_path,
            ← hancestors]
        generalize declare base _ (outer.parentEntry directory) = declared at hself hstep
        have hemitted : ∀ q ∈ met ++ [directory], inner.covers declared.collection q = true →
            q ∈ declared.emitted := by
          intro q hq hcovers
          rw [hstep.innerCollection, introduce_collection] at hcovers
          rw [hstep.innerEmitted, mem_introduce_emitted]
          rcases List.mem_append.mp hq with hq | hq
          · exact Or.inl (hbefore q (hancestors ▸ hq) (covers_joined.mpr (Or.inr hcovers)))
          · rw [List.mem_singleton.mp hq]
            exact Or.inr ⟨hmet.wants_joined.mpr (Or.inl hwants), rfl⟩
        have hpassed : (met ++ [directory]).foldl (inner.introduce base) declared = declared :=
          foldl_introduce_eq_self hemitted
        rw [List.foldl_append] at hpassed
        simp only [List.foldl_cons, List.foldl_nil] at hpassed
        rw [hself, hpassed]
        exact hstep
      · have hstep := hmet.introduce_inner base (hentry directory) hbefore hwants
        have hself : outer.introduce (inner.sink base) out directory = out := if_neg hwants
        rw [hself]
        exact hstep

theorem mem_iff_or_eq {paths : List String} (h : path ∈ paths) (p : String) :
    p ∈ paths ↔ p ∈ paths ∨ p = path :=
  (or_iff_left_of_imp fun heq => heq ▸ h).symm

theorem mem_iff_and_ne {paths : List String} (h : path ∉ paths) (p : String) :
    p ∈ paths ↔ p ∈ paths ∧ p ≠ path :=
  (and_iff_left_of_imp fun hp (heq : p = path) => h (heq ▸ hp)).symm

theorem mem_insert_iff_or_eq {paths : List String} (p : String) :
    p ∈ paths.insert path ↔ p ∈ paths ∨ p = path := by
  rw [List.mem_insert_iff, or_comm]

theorem mem_filter_ne_iff {paths : List String} (p : String) :
    p ∈ paths.filter (· ≠ path) ↔ p ∈ paths ∧ p ≠ path := by
  rw [List.mem_filter, decide_eq_true_iff]

/-- All three layers take note of a directory at a path, which is provisional in none of them from
then on. -/
theorem settle (h : Folds outer inner nested single) (path : String)
    {nested' : Layered (Layered σ)} {single' : Layered σ}
    (hsame : nested'.inner.inner = single'.inner)
    (hcollection : nested'.collection = nested.collection ∧
      nested'.inner.collection = nested.inner.collection ∧ single'.collection = single.collection)
    (hemitted : ∀ p, p ∈ single'.emitted ↔ p ∈ single.emitted ∨ p = path)
    (houterEmitted : ∀ p, p ∈ nested'.emitted ↔ p ∈ nested.emitted ∨ p = path)
    (hinnerEmitted : ∀ p, p ∈ nested'.inner.emitted ↔ p ∈ nested.inner.emitted ∨ p = path)
    (hprovisional : ∀ p, p ∈ single'.provisional ↔ p ∈ single.provisional ∧ p ≠ path)
    (houterProvisional : ∀ p, p ∈ nested'.provisional ↔ p ∈ nested.provisional ∧ p ≠ path)
    (hinnerProvisional : ∀ p, p ∈ nested'.inner.provisional ↔
      p ∈ nested.inner.provisional ∧ p ≠ path) :
    Folds outer inner nested' single' where
  same := hsame
  outerCollection := by rw [hcollection.1, hcollection.2.2, h.outerCollection]
  innerCollection := by rw [hcollection.2.1, hcollection.2.2, h.innerCollection]
  emitted p := by
    rw [hemitted, houterEmitted, hinnerProvisional, h.emitted]
    by_cases hp : p = path
    · simp [hp]
    · simp [hp]
  innerEmitted p := by rw [hinnerEmitted, hemitted, h.innerEmitted]
  provisional p := by
    rw [hprovisional, houterProvisional, hinnerProvisional, h.provisional, or_and_right]
  outerProvisional p hp := by
    rw [houterProvisional] at hp
    rw [houterEmitted]
    exact Or.inl (h.outerProvisional p hp.1)
  apart p hp := by
    rw [hinnerProvisional] at hp
    obtain ⟨hnot, hbases⟩ := h.apart p hp.1
    rw [houterEmitted]
    exact ⟨fun hor => hor.elim hnot hp.2, hbases⟩
  closed p hp directory hdir hb := by
    rw [hprovisional] at hp
    rw [hemitted]
    exact Or.inl (h.closed p hp.1 directory hdir hb)

/-- A directory that the outer layer added takes its place in the sink below both. -/
theorem declare_provisional (h : Folds outer inner nested single) {d : Descriptor}
    (hdir : d.isDirectory = true) (hp : d.path ∈ nested.provisional) :
    Folds outer inner (declare (inner.sink base) nested d) (declare base single d) := by
  have hsingle : d.path ∈ single.provisional := (h.provisional _).mpr (Or.inl hp)
  have hemitted := h.outerProvisional _ hp
  unfold declare
  rw [if_pos ⟨hdir, hp⟩, if_pos ⟨hdir, hsingle⟩]
  refine h.settle d.path ?_ ⟨rfl, rfl, rfl⟩ ?_ ?_ ?_ ?_ ?_ ?_
  · simp only [sink_supersede, supersede, Reply.map, h.same]
  · exact mem_iff_or_eq ((h.emitted _).mpr (Or.inl hemitted))
  · exact mem_iff_or_eq hemitted
  · exact mem_insert_iff_or_eq
  · exact mem_filter_ne_iff
  · exact mem_filter_ne_iff
  · exact mem_filter_ne_iff

/-- Any other entry is declared to the inner layer like the directories before it. -/
theorem declare_other {out : Layered (Layered σ)} {caught : Layered σ} {d : Descriptor}
    (h : Folds outer inner { out with inner := caught } single)
    (hcaught : ((inner.sink base).add out.inner d).state = declare base caught d)
    (hd : ¬(d.isDirectory = true ∧ d.path ∈ out.provisional)) :
    Folds outer inner (declare (inner.sink base) out d) (declare base single d) := by
  rw [declare, if_neg hd, hcaught]
  have hsame : caught.inner = single.inner := h.same
  unfold declare
  by_cases hdir : d.isDirectory = true
  · have houter : d.path ∉ out.provisional := fun hp => hd ⟨hdir, hp⟩
    have hsingle : d.path ∈ single.provisional ↔ d.path ∈ caught.provisional :=
      (h.provisional _).trans (or_iff_right houter)
    simp only [hdir, true_and, if_true]
    by_cases hp : d.path ∈ caught.provisional
    · have hemitted : d.path ∈ single.emitted := (h.emitted _).mpr (Or.inr hp)
      rw [if_pos hp, if_pos (hsingle.mpr hp)]
      refine h.settle d.path ?_ ⟨rfl, rfl, rfl⟩ ?_ ?_ ?_ ?_ ?_ ?_
      · simp only [hsame]
      · exact mem_iff_or_eq hemitted
      · exact mem_insert_iff_or_eq
      · exact mem_iff_or_eq ((h.innerEmitted _).mpr hemitted)
      · exact mem_filter_ne_iff
      · exact mem_iff_and_ne houter
      · exact mem_filter_ne_iff
    · rw [if_neg hp, if_neg (mt hsingle.mp hp)]
      refine h.settle d.path ?_ ⟨rfl, rfl, rfl⟩ ?_ ?_ ?_ ?_ ?_ ?_
      · simp only [hsame]
      · exact mem_insert_iff_or_eq
      · exact mem_insert_iff_or_eq
      · exact mem_insert_iff_or_eq
      · exact mem_iff_and_ne (mt hsingle.mp hp)
      · exact mem_iff_and_ne houter
      · exact mem_iff_and_ne hp
  · simp only [hdir, false_and, if_false, Bool.false_eq_true]
    exact { h with same := by simp only [hsame] }

theorem add (h : Folds outer inner nested single) (hbase : base.Accepts)
    (hentry : ∀ directory, inner.parentEntry directory = outer.parentEntry directory)
    (d : Descriptor) :
    Folds outer inner (outer.add (inner.sink base) nested d).state
      ((outer.joined inner).add base single d).state := by
  rw [outer.add_of_accepts (inner.sink_accepts hbase), add_of_accepts _ hbase]
  have hself : d.path ∉ Target.ancestors d.path := Target.not_mem_ancestors_self _
  by_cases hd : d.isDirectory = true ∧ d.path ∈ nested.provisional
  · -- all that the directory lies in is there already
    have hclosed := h.closed _ ((h.provisional _).mpr (Or.inl hd.2))
    rw [foldl_introduce_eq_self, foldl_introduce_eq_self]
    · exact h.declare_provisional hd.1 hd.2
    · intro directory hdirectory hcovers
      exact hclosed _ hdirectory ((covers_iff _).mp hcovers).1
    · intro directory hdirectory hcovers
      by_contra hfresh
      rw [h.outerCollection] at hcovers
      have hjoined := @covers_joined outer inner single.collection directory
      have hbases := ((covers_iff _).mp (hjoined.mpr (Or.inl hcovers))).1
      exact ((h.emitted _).mp (hclosed _ hdirectory hbases)).elim hfresh
        fun hp => h.not_covers hp _ hcovers
  · have hmet := h.introduce_prefix hbase hentry (Target.ancestors d.path) []
      (List.append_nil _).symm
    refine hmet.declare_other ?_ ?_
    · rw [sink_add, inner.add_of_accepts hbase]
    · rwa [mem_provisional_foldl_introduce hself]

/-- **Every request leaves two layers and one in states that belong together.** -/
theorem serve (h : Folds outer inner nested single) (hbase : base.Accepts)
    (hentry : ∀ directory, inner.parentEntry directory = outer.parentEntry directory)
    (request : Request) :
    Folds outer inner ((outer.sink (inner.sink base)).serve nested request).state
      (((outer.joined inner).sink base).serve single request).state := by
  cases request with
  | add d => exact h.add hbase hentry d
  | supersede d =>
      refine h.settle d.path ?_ ⟨rfl, rfl, rfl⟩ mem_insert_iff_or_eq mem_insert_iff_or_eq
        mem_insert_iff_or_eq mem_filter_ne_iff mem_filter_ne_iff mem_filter_ne_iff
      simp only [Sink.serve, sink_supersede, supersede, Reply.map, h.same]
  | enter root =>
      exact { h with
        same := congrArg (base.enter · root) h.same
        outerCollection := rfl
        innerCollection := rfl }
  | leave =>
      exact { h with
        same := congrArg base.leave h.same
        outerCollection := rfl
        innerCollection := rfl }

theorem serveAll (h : Folds outer inner nested single) (hbase : base.Accepts)
    (hentry : ∀ directory, inner.parentEntry directory = outer.parentEntry directory)
    (requests : List Request) :
    Folds outer inner ((outer.sink (inner.sink base)).serveAll nested requests)
      (((outer.joined inner).sink base).serveAll single requests) := by
  induction requests generalizing nested single with
  | nil => exact h
  | cons request rest ih => exact ih (h.serve hbase hentry request)

end Folds

/-- **Layers compose**: after any requests a layer around a layer around a listing has recorded the
entries that one layer with the base paths of both has recorded, and neither has refused any. -/
theorem nested_eq_single {registry : Registry} {declared declared' : List String}
    {modified : Option Instant} (houter : make registry declared modified = .ok outer)
    (hinner : make registry declared' modified = .ok inner) (requests : List Request) :
    ∃ single, make registry (declared ++ declared') modified = .ok single ∧
      (outer.sink (inner.sink Listing.sink)).Accepts ∧ (single.sink Listing.sink).Accepts ∧
      ((outer.sink (inner.sink Listing.sink)).serveAll
          { inner := { inner := .empty } } requests).inner.inner =
        ((single.sink Listing.sink).serveAll { inner := .empty } requests).inner := by
  obtain ⟨hmake, hentry⟩ := make_append houter hinner
  have hbase := Listing.sink_accepts
  refine ⟨_, hmake, outer.sink_accepts (inner.sink_accepts hbase), sink_accepts _ hbase, ?_⟩
  exact ((Folds.fresh Listing.empty).serveAll hbase hentry requests).same

/-- A plugin below the base path `/opt/lib` of the outer layer: the inner one has added `/opt` by
the time that it is given `/opt/lib`, so the directories stand shallowest first. -/
theorem nested_eq_single_plugin :
    make {} ["/opt/lib/"] none = .ok { registry := {}, bases := ["/opt/lib"] } ∧
      make {} ["/opt"] none = .ok { registry := {}, bases := ["/opt"] } ∧
      ((sink { registry := {}, bases := ["/opt/lib"] }
          (sink { registry := {}, bases := ["/opt"] } Listing.sink)).serveAll
            { inner := { inner := .empty } }
            [.enter "/opt/lib/x",
              .add ⟨"/opt/lib/x/plugin", .file, .bytes [], .defaultFor .file, none⟩,
              .leave]).inner.inner.paths =
        ["/opt", "/opt/lib", "/opt/lib/x", "/opt/lib/x/plugin"] := by
  have houter : make {} ["/opt/lib/"] none = .ok { registry := {}, bases := ["/opt/lib"] } := rfl
  have hinner : make {} ["/opt"] none = .ok { registry := {}, bases := ["/opt"] } := rfl
  obtain ⟨single, hmake, -, -, heq⟩ := nested_eq_single houter hinner
    [.enter "/opt/lib/x", .add ⟨"/opt/lib/x/plugin", .file, .bytes [], .defaultFor .file, none⟩,
      .leave]
  obtain rfl : { registry := {}, bases := ["/opt/lib", "/opt"] } = single := Except.ok.inj hmake
  refine ⟨houter, hinner, ?_⟩
  rw [heq]
  decide

end ParentLayer

end ArchivePlan
