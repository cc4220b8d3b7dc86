import ArchivePlan.Proofs.AbsoluteSources
import ArchivePlan.Proofs.CollectedPaths
import ArchivePlan.Proofs.OpenCollections

/-! # Collections as lists of entries

An archive entry of a collection can be declared by itself: as the file at its location, as a
directory or as a link, under its path and with the ruleset and the attributes of the collection
(`Entry.standIn?`).  Such stand-ins are resolved to the archive entries that they stand for
(`Collects.resolve_standIn`), although their names are brought into canonical form and their sources
are looked at once more.

A build gives the same for the stand-ins as for the collection (`build_standIns`): without base
paths always, and with base paths if the collection leaves out no directory, for then a layer has
nothing to add inside it (`Collects.declaresInside`). -/

namespace ArchivePlan

theorem exists_forall₂ {α β : Type} {R : α → β → Prop} {as : List α}
    (h : ∀ a ∈ as, ∃ b, R a b) : ∃ bs, List.Forall₂ R as bs := by
  induction as with
  | nil => exact ⟨[], .nil⟩
  | cons a as ih =>
      obtain ⟨⟨b, hb⟩, has⟩ := List.forall_mem_cons.mp h
      obtain ⟨bs, hbs⟩ := ih has
      exact ⟨b :: bs, .cons hb hbs⟩

/-- The entry that declares an archive entry of a collection by itself.  There is none for a file
whose location is no text, since sources are declared as text. -/
def Entry.standIn? (entry : Entry) (d : Descriptor) : Option Entry :=
  let bare : Entry := {
    name := d.path, ruleset := entry.ruleset, skip := entry.skip, explicit := entry.explicit }
  match d.kind, d.content with
  | .file, .file l => (Utf8.decode? l.bytes).map fun path => { bare with file := some path }
  | .directory, .none => some { bare with directory := some true }
  | .symlink, .link target => some { bare with linkTo := some target }
  | _, _ => none

/-- Below a directory there are only directories, links, and files that can be read at their
locations below a root, and no name has a backslash. -/
structure FileSystem.IsPlainTree (fs : FileSystem) (root : Location) (dir : Node) : Prop where
  ordinary : ∀ names reading, dir.get? names ≠ some (.special reading)
  readable : ∀ names content, dir.get? names = some (.file content) →
    ∃ bytes, fs.read (Item.location root names) = .ok bytes
  names : dir.LacksBackslash

/-! ### Stand-ins by themselves -/

/-- What a stand-in shares with the entry of the collection and with the archive entry. -/
structure Entry.StandsIn (entry : Entry) (d : Descriptor) (x : Entry) : Prop where
  name : x.name = d.path
  ruleset : x.ruleset = entry.ruleset
  skip : x.skip = entry.skip
  explicit : x.explicit = entry.explicit
  collect : x.collect = none
  source : (∃ path, d.kind = .file ∧ d.content = .file (.ofString path) ∧
      x.source = .ok (.file path)) ∨
    (d.kind = .directory ∧ d.content = .none ∧ x.source = .ok .directory) ∨
    ∃ target, d.kind = .symlink ∧ d.content = .link target ∧ x.source = .ok (.link target)

theorem Entry.standsIn_of_standIn? {entry x : Entry} {d : Descriptor}
    (h : entry.standIn? d = some x) : entry.StandsIn d x := by
  unfold standIn? at h
  dsimp only at h
  split at h
  · next l hkind hcontent =>
      obtain ⟨path, hpath, rfl⟩ := Option.map_eq_some_iff.mp h
      have hlocation : .ofString path = l :=
        congrArg Location.mk (Utf8.decode?_eq_some_iff.mp hpath)
      exact ⟨rfl, rfl, rfl, rfl, rfl, Or.inl ⟨path, hkind, hlocation ▸ hcontent, rfl⟩⟩
  · next hkind hcontent =>
      cases h
      exact ⟨rfl, rfl, rfl, rfl, rfl, Or.inr (Or.inl ⟨hkind, hcontent, rfl⟩)⟩
  · next target hkind hcontent =>
      cases h
      exact ⟨rfl, rfl, rfl, rfl, rfl, Or.inr (Or.inr ⟨target, hkind, hcontent, rfl⟩)⟩
  · cases h

theorem Entry.source_of_collect {entry : Entry} {source : Source} {collection : Collection}
    (h : entry.source = .ok source) (hcollect : entry.collect = some collection) :
    source = .collect collection := by
  have hmem : Source.collect collection ∈ entry.sources := by simp [sources, hcollect]
  unfold Entry.source at h
  split at h
  · next only honly =>
      rw [honly] at hmem
      cases h
      exact (List.mem_singleton.mp hmem).symm
  · cases h
  · cases h

namespace Resolver

variable {resolver : Resolver} {fs : FileSystem} {entry x : Entry} {d : Descriptor}

theorem resolve_eq_ofSource {source : Source} {target : String} (hsource : x.source = .ok source)
    (htarget : x.target = .ok target) (hcheck : resolver.registry.check x.ruleset = .ok ()) :
    resolver.resolve fs x = resolver.ofSource fs x target source := by
  unfold resolve
  rw [hsource, htarget]
  simp only [hcheck]

theorem descriptor_congr (h : x.ruleset = entry.ruleset) :
    resolver.descriptor x = resolver.descriptor entry := by
  funext path kind content explicit
  unfold descriptor
  rw [h]

theorem sourceFile_of_node {path : String} {bytes : Bytes}
    (habsolute : (Location.ofString path).isAbsolute = true)
    (hfile : fs.node (.ofString path) = .ok (.file bytes)) :
    resolver.sourceFile fs x path = .ok (.ofString path) := by
  have hlocate : resolver.locate fs path = .ofString path := if_pos habsolute
  unfold sourceFile
  rw [hlocate]
  simp only [hfile]

theorem resolve_of_standsIn (h : entry.StandsIn d x)
    (hcheck : resolver.registry.check entry.ruleset = .ok ())
    (hd : resolver.descriptor entry d.path d.kind d.content entry.explicit = .ok d)
    (hcanonical : Target.IsCanonical d.path)
    (hfile : ∀ l, d.content = .file l →
      l.isAbsolute = true ∧ ∃ bytes, fs.node l = .ok (.file bytes))
    (hlink : d.content ≠ .link "") : resolver.resolve fs x = .ok [d] := by
  have htarget : x.target = .ok d.path := Entry.target_eq_ok_iff.mpr (h.name ▸ hcanonical)
  rw [← h.ruleset] at hcheck
  have hresolve : ∀ source, x.source = .ok source →
      resolver.resolve fs x = resolver.ofSource fs x d.path source := fun source hsource =>
    resolve_eq_ofSource hsource htarget hcheck
  rw [← descriptor_congr h.ruleset, ← h.explicit] at hd
  obtain ⟨path, hkind, hcontent, hsource⟩ | ⟨hkind, hcontent, hsource⟩ |
    ⟨target, hkind, hcontent, hsource⟩ := h.source
  · obtain ⟨habsolute, bytes, hregular⟩ := hfile _ hcontent
    rw [hkind, hcontent] at hd
    rw [hresolve _ hsource, ofSource, sourceFile_of_node habsolute hregular]
    simp only [bind, Except.bind, hd]
    rfl
  · rw [hkind, hcontent] at hd
    rw [hresolve _ hsource, ofSource, hd]
    rfl
  · rw [hkind, hcontent] at hd
    have hne : target ≠ "" := fun heq => hlink (heq ▸ hcontent)
    rw [hresolve _ hsource, ofSource, if_neg hne, hd]
    rfl

/-! ### Resolved collections -/

variable {collection : Collection} {dir : Node} {ds : List Descriptor} {target : String}

variable (resolver fs entry collection dir ds target) in
/-- The archive entries of a collection of a directory below a target. -/
structure Collects : Prop where
  canonical : Target.canonical entry.name = .ok target
  ruleset : resolver.registry.check entry.ruleset = .ok ()
  root : fs.node (resolver.locate fs collection.root) = .ok dir
  directory : dir.isDirectory = true
  legal : dir.IsLegal
  text : ¬collection.Stuck dir
  listed : ∃ selection items, Selection.make collection = .ok selection ∧
    collection.Lists selection (resolver.locate fs collection.root) dir items ∧
    List.Forall₂ (fun item d => resolver.descriptor entry (pathBelow target item.path) item.kind
      item.content entry.explicit = .ok d) items ds

theorem exists_of_resolve_collect (hlegal : fs.root.IsLegal)
    (hcollect : entry.collect = some collection) (h : resolver.resolve fs entry = .ok ds)
    (hroot : fs.node (resolver.locate fs collection.root) = .ok dir) :
    ∃ target, resolver.Collects fs entry collection dir ds target := by
  obtain ⟨source, target, hsource, htarget, hcheck, h⟩ := exists_of_resolve h
  obtain rfl := Entry.source_of_collect hsource hcollect
  obtain ⟨items, hitems, h⟩ := exists_of_bind_eq_ok h
  obtain ⟨selection, found, hselection, hfound, hdir, hnot, hlists⟩ := lists_of_items hlegal hitems
  obtain rfl := Except.ok.inj (hroot.symm.trans hfound)
  exact ⟨target, Entry.target_eq_ok_iff.mp htarget, hcheck, hroot, hdir,
    FileSystem.isLegal_of_node hlegal hroot, hnot, selection, items, hselection, hlists,
    itemDescriptors_eq_ok_iff.mp h⟩

namespace Collects

variable {x : Entry} {xs : List Entry}

theorem exists_isAt (h : resolver.Collects fs entry collection dir ds target) (hd : d ∈ ds) :
    ∃ (item : Item) (texts : List String) (node : Node),
      item.IsAt (resolver.locate fs collection.root) dir texts node ∧
      d.path = pathBelow target item.path ∧ d.kind = item.kind ∧ d.content = item.content ∧
      resolver.descriptor entry d.path d.kind d.content entry.explicit = .ok d := by
  obtain ⟨selection, items, -, hlists, heach⟩ := h.listed
  obtain ⟨item, hitem, hresolved⟩ := exists_of_forall₂ heach.flip hd
  obtain ⟨texts, node, hat⟩ := hlists.exists_isAt h.legal h.text hitem
  obtain ⟨metadata, -, heq⟩ := descriptor_eq_ok_iff.mp hresolved
  subst heq
  exact ⟨item, texts, node, hat, rfl, rfl, rfl, hresolved⟩

theorem isCanonical (h : resolver.Collects fs entry collection dir ds target)
    (hnames : dir.LacksBackslash) (hd : d ∈ ds) : Target.IsCanonical d.path := by
  obtain ⟨item, texts, node, hat, hpath, -⟩ := h.exists_isAt hd
  rw [hpath]
  exact hat.isCanonical_pathBelow h.legal hnames h.canonical

/-- The content of an item can be declared: a file can be read, and a link has a target. -/
theorem content_of_isAt (h : resolver.Collects fs entry collection dir ds target)
    (hfs : fs.IsSound) (htree : fs.IsPlainTree (resolver.locate fs collection.root) dir)
    {item : Item} {texts : List String} {node : Node}
    (hat : item.IsAt (resolver.locate fs collection.root) dir texts node) :
    (∀ l, item.content = .file l →
      l.isAbsolute = (resolver.locate fs collection.root).isAbsolute ∧
        ∃ bytes, fs.node l = .ok (.file bytes)) ∧
    item.content ≠ .link "" := by
  have hitem := hat.describes.content
  have hfound := hat.found
  cases node with
  | directory children =>
      rw [hitem.2]
      exact ⟨fun l hl => (by cases hl), fun hl => (by cases hl)⟩
  | special reading => exact absurd hfound (htree.ordinary _ _)
  | file content =>
      rw [hitem.2]
      refine ⟨fun l hl => ?_, fun hl => (by cases hl)⟩
      obtain rfl := Content.file.inj hl
      have hroot := FileSystem.ne_nil_of_node h.root
      refine ⟨(Location.extends_location hroot (h.legal.get? hfound).1).isAbsolute, content, ?_⟩
      obtain ⟨bytes, hread⟩ := htree.readable _ _ hfound
      rcases FileSystem.node_location hfs.legal h.root h.directory hfound
        (fun _ => Node.noConfusion) with hnode | ⟨-, hlong⟩
      · exact hnode
      · -- a location that is too long cannot be read
        rw [FileSystem.read, hlong] at hread
        cases hread
  | symlink linked =>
      obtain ⟨-, text, htext, hlink⟩ := hitem
      rw [hlink]
      refine ⟨fun l hl => (by cases hl), fun hl => ?_⟩
      obtain rfl := Content.link.inj hl
      have hempty : linked = [] := htext.symm
      exact hfs.target_ne_nil_of_node h.root (hempty ▸ hfound)

/-- **A stand-in is resolved to the archive entry of the collection.** -/
theorem resolve_standIn (h : resolver.Collects fs entry collection dir ds target)
    (hfs : fs.IsSound)
    (habsolute : (resolver.locate fs collection.root).isAbsolute = true)
    (htree : fs.IsPlainTree (resolver.locate fs collection.root) dir) (hd : d ∈ ds)
    (hx : entry.standIn? d = some x) : resolver.resolve fs x = .ok [d] := by
  obtain ⟨item, texts, node, hat, -, -, hcontent, hresolved⟩ := h.exists_isAt hd
  obtain ⟨hfile, hlink⟩ := h.content_of_isAt hfs htree hat
  rw [← hcontent] at hfile hlink
  refine resolve_of_standsIn (Entry.standsIn_of_standIn? hx) h.ruleset hresolved
    (h.isCanonical htree.names hd) (fun l hl => ?_) hlink
  rw [← habsolute]
  exact hfile l hl

/-- A collection that leaves out no directory declares those strictly below its target before what
lies in them. -/
theorem declaresInside (h : resolver.Collects fs entry collection dir ds target)
    (hnames : dir.LacksBackslash) (hdirectories : collection.directories = true)
    (hincludes : collection.includes = []) (hexcludes : collection.excludes = []) :
    DeclaresInside target ds := by
  intro before d after hsplit directory hdirectory hwithin hne
  obtain ⟨selection, items, hselection, hlists, heach⟩ := h.listed
  have htakes := Collection.takes_of_no_patterns hselection hincludes hexcludes
  rw [hsplit] at heach
  have hbefore := List.forall₂_take_append items before (d :: after) heach
  have hafter := List.forall₂_drop_append items before (d :: after) heach
  cases hdrop : items.drop before.length with
  | nil =>
      rw [hdrop] at hafter
      cases hafter
  | cons item rest =>
      rw [hdrop] at hafter
      obtain ⟨hresolved, -⟩ := List.forall₂_cons.mp hafter
      obtain ⟨metadata, -, heq⟩ := descriptor_eq_ok_iff.mp hresolved
      have hitem : items[before.length]? = some item := by
        rw [← List.head?_drop, hdrop]
        rfl
      obtain ⟨texts, node, hat⟩ := hlists.exists_isAt h.legal h.text (List.mem_of_getElem? hitem)
      rw [heq] at hdirectory
      obtain ⟨first, more, rfl, hfirst, hmore, rfl⟩ :=
        hat.exists_of_mem_ancestors h.legal hnames h.canonical hdirectory hwithin hne
      obtain ⟨outer, houter, hkind, hpath, hbelow⟩ :=
        hlists.exists_outer hdirectories htakes hat hfirst hmore
      -- the directory stands before the item, so its archive entry does
      obtain ⟨j, hj⟩ := List.mem_iff_getElem?.mp houter
      have hlt := hlists.lt_of_below hj hitem hbelow
      have htake : outer ∈ items.take before.length := by
        refine List.mem_of_getElem? (i := j) ?_
        rw [List.getElem?_take_of_lt hlt]
        exact hj
      obtain ⟨o, ho, hdeclared⟩ := exists_of_forall₂ hbefore htake
      obtain ⟨metadata', -, rfl⟩ := descriptor_eq_ok_iff.mp hdeclared
      refine ⟨_, ho, ?_, congrArg (pathBelow target) hpath⟩
      rw [Descriptor.isDirectory, hkind]
      rfl

theorem exists_standIns (h : resolver.Collects fs entry collection dir ds target)
    (hroot : Utf8.IsText (resolver.locate fs collection.root).bytes) :
    ∃ xs, List.Forall₂ (fun d x => entry.standIn? d = some x) ds xs := by
  refine exists_forall₂ fun d hd => ?_
  obtain ⟨item, texts, node, hat, -, hkind, hcontent, -⟩ := h.exists_isAt hd
  have hitem := hat.describes.content
  unfold Entry.standIn?
  rw [hkind, hcontent]
  cases node with
  | directory children =>
      rw [hitem.1, hitem.2]
      exact ⟨_, rfl⟩
  | file content | special reading =>
      obtain ⟨path, hpath⟩ := Item.isText_location hroot texts
      rw [hitem.1, hitem.2]
      dsimp only
      rw [Utf8.decode?_eq_some_iff.mpr hpath]
      exact ⟨_, rfl⟩
  | symlink linked =>
      obtain ⟨hlinkKind, text, -, hlink⟩ := hitem
      rw [hlinkKind, hlink]
      exact ⟨_, rfl⟩

end Collects

end Resolver

/-! ### Builds -/

namespace Plan

variable {plan : Plan} {fs : FileSystem} {xs ys entries entries' : List Entry}

/-- What remains of a run if the report is cut down to the number of archive entries. -/
def outcome {σ : Type} (result : σ × Except PlanError Report) : Except PlanError (σ × Nat) :=
  result.2.map fun report => (result.1, report.resolved)

theorem outcome_inner {σ : Type} (result : Layered σ × Except PlanError Report) :
    outcome (result.1.inner, result.2) = (outcome result).map fun r => (r.1.inner, r.2) := by
  rcases result with ⟨state, e | report⟩ <;> rfl

/-- Runs that lead to the same and fail at the same have the same outcome, whatever the policy. -/
theorem outcome_fillFrom_congr {σ : Type} {sink : Sink σ} (h : sink.Accepts)
    (hfailures : plan.failures fs entries = plan.failures fs entries')
    (hresolved : (plan.reportOn fs entries).resolved = (plan.reportOn fs entries').resolved)
    {state : σ} (hrun : sink.run state (entries.flatMap (plan.calls fs)) =
      sink.run state (entries'.flatMap (plan.calls fs))) :
    outcome (plan.fillFrom fs sink {} state entries) =
      outcome (plan.fillFrom fs sink {} state entries') := by
  unfold outcome
  cases hpolicy : plan.policy with
  | proceed =>
      rw [fillFrom_proceed hpolicy h, fillFrom_proceed hpolicy h, hrun, foldl_noted_empty,
        foldl_noted_empty]
      simp only [Except.map, hresolved]
  | abort =>
      cases hfailed : plan.failures fs entries with
      | nil =>
          rw [fillFrom_of_no_failures h hfailed,
            fillFrom_of_no_failures h (hfailures.symm.trans hfailed), hrun, foldl_noted_empty,
            foldl_noted_empty]
          simp only [Except.map, hresolved]
      | cons failure more =>
          rw [fillFrom_abort_of_failures hpolicy h hfailed,
            fillFrom_abort_of_failures hpolicy h (hfailures.symm.trans hfailed)]
          rfl

theorem failures_append (before after : List Entry) :
    plan.failures fs (before ++ after) = plan.failures fs before ++ plan.failures fs after :=
  List.filterMap_append

theorem resolved_append (before after : List Entry) :
    (plan.reportOn fs (before ++ after)).resolved =
      (plan.reportOn fs before).resolved + (plan.reportOn fs after).resolved := by
  simp only [reportOn, List.filter_append, List.flatMap_append, List.length_append]

theorem run_congr {σ : Type} {sink : Sink σ} {state : σ} {before after : List Entry}
    (hrun :
      sink.run (sink.run state (before.flatMap (plan.calls fs))) (xs.flatMap (plan.calls fs)) =
        sink.run (sink.run state (before.flatMap (plan.calls fs))) (ys.flatMap (plan.calls fs))) :
    sink.run state ((before ++ xs ++ after).flatMap (plan.calls fs)) =
      sink.run state ((before ++ ys ++ after).flatMap (plan.calls fs)) := by
  simp only [List.flatMap_append, Sink.run_append, hrun]

/-- Entries of a build may be replaced by others that fail at the same, come to as many archive
entries, and lead a listing or a layer around it to the same. -/
theorem build_congr (hfailures : plan.failures fs xs = plan.failures fs ys)
    (hresolved : (plan.reportOn fs xs).resolved = (plan.reportOn fs ys).resolved)
    (hlisting : plan.intermediate = [] → ∀ listing,
      Listing.sink.run listing (xs.flatMap (plan.calls fs)) =
        Listing.sink.run listing (ys.flatMap (plan.calls fs)))
    (hlayer : plan.intermediate ≠ [] → ∀ (layer : ParentLayer) (calls : List Call),
      Call.openRoot none calls = none →
        (layer.sink Listing.sink).run (layer.after calls) (xs.flatMap (plan.calls fs)) =
          (layer.sink Listing.sink).run (layer.after calls) (ys.flatMap (plan.calls fs)))
    (before after : List Entry) :
    (plan.build fs (before ++ xs ++ after)).map (fun r => (r.1, r.2.resolved)) =
      (plan.build fs (before ++ ys ++ after)).map fun r => (r.1, r.2.resolved) := by
  have hfailuresAll : plan.failures fs (before ++ xs ++ after) =
      plan.failures fs (before ++ ys ++ after) := by
    simp only [failures_append, hfailures]
  have hresolvedAll : (plan.reportOn fs (before ++ xs ++ after)).resolved =
      (plan.reportOn fs (before ++ ys ++ after)).resolved := by
    simp only [resolved_append, hresolved]
  have hbuild : ∀ entries, (plan.build fs entries).map (fun r => (r.1, r.2.resolved)) =
      outcome (plan.fill fs Listing.sink .empty entries) := by
    intro entries
    unfold build outcome
    rcases plan.fill fs Listing.sink .empty entries with ⟨listing, e | report⟩ <;> rfl
  rw [hbuild, hbuild]
  unfold fill
  split
  · next hnone =>
      exact outcome_fillFrom_congr Listing.sink_accepts hfailuresAll hresolvedAll
        (run_congr (hlisting hnone _))
  · next hsome =>
      split
      · rfl
      · next layer hmake =>
          have hstates := outcome_fillFrom_congr (layer.sink_accepts Listing.sink_accepts)
            hfailuresAll hresolvedAll
            (run_congr (hlayer hsome layer _ (openRoot_flatMap_calls before)))
          rw [outcome_inner, outcome_inner]
          exact congrArg _ hstates

/-! ### Builds of stand-ins -/

variable {entry x : Entry} {collection : Collection} {dir : Node} {d : Descriptor}
  {ds : List Descriptor} {target : String}

theorem resolved_reportOn (entries : List Entry) :
    (plan.reportOn fs entries).resolved = (entries.flatMap (plan.descriptors fs)).length := by
  rw [reportOn, ← entries_calls, flatMap_calls_filter, entries_calls]

theorem resolved_congr (h : Call.entries (entries.flatMap (plan.calls fs)) =
      Call.entries (entries'.flatMap (plan.calls fs))) :
    (plan.reportOn fs entries).resolved = (plan.reportOn fs entries').resolved := by
  rw [resolved_reportOn, resolved_reportOn, ← entries_calls, ← entries_calls, h]

theorem calls_of_skip (h : entry.skip = true) : plan.calls fs entry = [] :=
  if_pos h

theorem calls_of_resolve (hskip : entry.skip = false)
    (hresolve : plan.resolver.resolve fs entry = .ok ds) {root : Option String}
    (hroot : collectionRoot entry = .ok root) : plan.calls fs entry = Call.addAll root ds := by
  unfold calls
  rw [hskip, hresolve, hroot]
  rfl

theorem failures_eq_nil (h : ∀ entry ∈ entries, entry.skip = true ∨
      ∃ ds, plan.resolver.resolve fs entry = .ok ds) : plan.failures fs entries = [] := by
  unfold failures
  rw [List.filterMap_eq_nil_iff]
  intro entry hentry
  unfold failure?
  rcases h entry hentry with hskip | ⟨ds, hresolve⟩
  · exact if_pos hskip
  · rw [hresolve]
    split <;> rfl

/-- Stand-ins come to the calls that add what they stand for, one by one. -/
theorem flatMap_calls_standIns (hskip : entry.skip = false)
    (hxs : List.Forall₂ (fun d x => entry.standIn? d = some x) ds xs)
    (hresolve : List.Forall₂ (fun x d => plan.resolver.resolve fs x = .ok [d]) xs ds) :
    xs.flatMap (plan.calls fs) = ds.map .add := by
  induction hxs with
  | nil => rfl
  | @cons d x _ _ hx _ ih =>
      obtain ⟨hfirst, hrest⟩ := List.forall₂_cons.mp hresolve
      have hstands := Entry.standsIn_of_standIn? hx
      have hroot : collectionRoot x = .ok none := by
        unfold collectionRoot
        rw [hstands.collect]
      rw [List.flatMap_cons, calls_of_resolve (hstands.skip.trans hskip) hfirst hroot, ih hrest]
      rfl

/-- Both come to no calls, or to calls that add the same with and without the marks of a
collection. -/
theorem calls_standIns (hcollect : entry.collect = some collection)
    (hresolve : plan.resolver.resolve fs entry = .ok ds)
    (hcanonical : Target.canonical entry.name = .ok target)
    (hxs : List.Forall₂ (fun d x => entry.standIn? d = some x) ds xs)
    (hresolves : List.Forall₂ (fun x d => plan.resolver.resolve fs x = .ok [d]) xs ds) :
    xs.flatMap (plan.calls fs) = [entry].flatMap (plan.calls fs) ∨
      xs.flatMap (plan.calls fs) = ds.map .add ∧
        [entry].flatMap (plan.calls fs) = Call.addAll (some target) ds := by
  rw [List.flatMap_singleton]
  cases hskip : entry.skip with
  | true =>
      rw [calls_of_skip hskip, List.flatMap_eq_nil_iff]
      refine Or.inl fun x hx => ?_
      obtain ⟨d, -, hstandIn⟩ := exists_of_forall₂ hxs.flip hx
      exact calls_of_skip ((Entry.standsIn_of_standIn? hstandIn).skip.trans hskip)
  | false =>
      refine Or.inr ⟨flatMap_calls_standIns hskip hxs hresolves, calls_of_resolve hskip hresolve ?_⟩
      unfold collectionRoot Entry.target
      rw [hcollect, hcanonical]
      rfl

/-- **A collection means the list of its items.**  Let a collection be resolved, its location be
absolute, and the tree below it be plain.  Then each stand-in is resolved to the archive entry that
it stands for, and putting the stand-ins in the place of the collection changes neither the listing
of a build nor the number of archive entries: without base paths, and with base paths if the
collection leaves out no directory.  There are stand-ins for all of them if the location of the
collection is text, for then so are those of what is below it. -/
theorem build_standIns (hfs : fs.IsSound) (hcollect : entry.collect = some collection)
    (hresolve : plan.resolver.resolve fs entry = .ok ds)
    (habsolute : (plan.baseDir.getD fs.workLocation).isAbsolute = true ∨
      (Location.ofString collection.root).isAbsolute = true)
    (hroot : fs.node (plan.resolver.locate fs collection.root) = .ok dir)
    (htree : fs.IsPlainTree (plan.resolver.locate fs collection.root) dir) :
    (Utf8.IsText (plan.resolver.locate fs collection.root).bytes →
      ∃ xs, List.Forall₂ (fun d x => entry.standIn? d = some x) ds xs) ∧
    ∀ xs, List.Forall₂ (fun d x => entry.standIn? d = some x) ds xs →
      List.Forall₂ (fun x d => plan.resolver.resolve fs x = .ok [d]) xs ds ∧
      ((plan.intermediate = [] ∨ collection.directories = true ∧ collection.includes = [] ∧
          collection.excludes = []) →
        ∀ before after,
          (plan.build fs (before ++ xs ++ after)).map (fun r => (r.1, r.2.resolved)) =
            (plan.build fs (before ++ entry :: after)).map fun r => (r.1, r.2.resolved)) := by
  obtain ⟨target, hcollects⟩ :=
    Resolver.exists_of_resolve_collect hfs.legal hcollect hresolve hroot
  have hlocation : (plan.resolver.locate fs collection.root).isAbsolute = true := by
    rw [Resolver.isAbsolute_locate, Bool.or_eq_true]
    exact habsolute.symm
  refine ⟨hcollects.exists_standIns, fun xs hxs => ?_⟩
  have hresolves : List.Forall₂ (fun x d => plan.resolver.resolve fs x = .ok [d]) xs ds :=
    (((List.forall₂_and_left ds xs).mpr ⟨fun d hd => hd, hxs⟩).imp fun d x hx =>
      hcollects.resolve_standIn hfs hlocation htree hx.1 hx.2).flip
  refine ⟨hresolves, fun hbases before after => ?_⟩
  have hfailures : plan.failures fs xs = plan.failures fs [entry] := by
    rw [failures_eq_nil, failures_eq_nil]
    · intro only honly
      rw [List.mem_singleton.mp honly]
      exact Or.inr ⟨ds, hresolve⟩
    · intro x hx
      obtain ⟨d, -, hd⟩ := exists_of_forall₂ hresolves hx
      exact Or.inr ⟨[d], hd⟩
  rw [← List.singleton_append, ← List.append_assoc]
  obtain heq | ⟨hadd, hall⟩ :=
    calls_standIns hcollect hresolve hcollects.canonical hxs hresolves
  · refine build_congr hfailures (resolved_congr ?_) (fun _ listing => ?_)
      (fun _ layer calls _ => ?_) before after
    · rw [heq]
    · rw [heq]
    · rw [heq]
  -- only a layer notices the marks of the collection, and they change nothing for it
  · refine build_congr hfailures (resolved_congr ?_) (fun _ listing => ?_)
      (fun hsome layer calls hclosed => ?_) before after
    · rw [hadd, hall, Call.entries, Call.entries, Call.declarations_map_add,
        Call.declarations_addAll, List.map_map, List.map_map]
      rfl
    · rw [hadd, hall, Listing.run_addAll_eq_run_add]
    · obtain ⟨hdirectories, hincludes, hexcludes⟩ := hbases.resolve_left hsome
      have hinside := hcollects.declaresInside htree.names hdirectories hincludes hexcludes
      rw [hadd, hall, layer.run_addAll_eq_run_add hinside hclosed]

/-- A directory `t` with a directory `d`, in which there is a file, and a link to it. -/
def collectedDirectory : Node :=
  .directory [([0x64], .directory [([0x66], .file [])]), ([0x6C], .symlink [0x64])]

def collectedTree : FileSystem where
  root := .directory [([0x74], collectedDirectory)]

theorem collectedDirectory_isLegal : collectedDirectory.IsLegal := by
  refine .directory (by decide) (by decide) ?_
  simp only [List.forall_mem_cons, List.not_mem_nil, false_imp_iff, implies_true, and_true]
  refine ⟨.directory (by decide) (by decide) ?_, .symlink _⟩
  simp only [List.forall_mem_cons, List.not_mem_nil, false_imp_iff, implies_true, and_true]
  exact .file _

theorem collectedTree_isSound : collectedTree.IsSound := by
  have hlegal : collectedTree.root.IsLegal := by
    refine .directory (by decide) (by decide) ?_
    simp only [List.forall_mem_cons, List.not_mem_nil, false_imp_iff, implies_true, and_true]
    exact collectedDirectory_isLegal
  have hwalk : collectedTree.root.descendants =
      [([[0x74]], collectedDirectory), ([[0x74], [0x64]], .directory [([0x66], .file [])]),
        ([[0x74], [0x64], [0x66]], .file []), ([[0x74], [0x6C]], .symlink [0x64])] := rfl
  refine ⟨hlegal, fun names hget => ?_⟩
  refine Node.forall_get? (P := fun _ node => node ≠ .symlink []) hlegal ?_ ?_ hget rfl
  · rintro ⟨⟩
  · rw [hwalk]
    simp [collectedDirectory]

theorem collectedTree_isPlainTree :
    collectedTree.IsPlainTree (.ofString "/t") collectedDirectory := by
  have hwalk : collectedDirectory.descendants =
      [([[0x64]], .directory [([0x66], .file [])]), ([[0x64], [0x66]], .file []),
        ([[0x6C]], .symlink [0x64])] := rfl
  have hall : ∀ {P : List Name → Node → Prop}, P [] collectedDirectory →
      P [[0x64]] (.directory [([0x66], .file [])]) → P [[0x64], [0x66]] (.file []) →
      P [[0x6C]] (.symlink [0x64]) →
      ∀ {names node}, collectedDirectory.get? names = some node → P names node := by
    intro P hself hd hf hl names node hget
    refine Node.forall_get? collectedDirectory_isLegal hself ?_ hget
    rw [hwalk]
    simp only [List.forall_mem_cons, List.not_mem_nil, false_imp_iff, implies_true, and_true]
    exact ⟨hd, hf, hl⟩
  refine ⟨fun names reading hget => ?_, fun names content hget => ?_, fun names node hget => ?_⟩
  · exact hall (P := fun _ node => node ≠ .special reading) (by rintro ⟨⟩) (by rintro ⟨⟩)
      (by rintro ⟨⟩) (by rintro ⟨⟩) hget rfl
  · refine hall (P := fun names node => node = .file content →
      ∃ bytes, collectedTree.read (Item.location (.ofString "/t") names) = .ok bytes)
      ?_ ?_ ?_ ?_ hget rfl
    · rintro ⟨⟩
    · rintro ⟨⟩
    · exact fun _ => ⟨[], rfl⟩
    · rintro ⟨⟩
  · exact hall (P := fun names _ => ∀ name ∈ names, backslash ∉ name) (by decide) (by decide)
      (by decide) (by decide) hget

/-- The archive entries of the collection of `/t` with its links under `/opt`. -/
def collectedDescriptors : List Descriptor :=
  [{ path := "/opt/d", kind := .directory, content := .none,
     metadata := .defaultFor .directory, digest := none },
    { path := "/opt/d/f", kind := .file, content := .file (.ofString "/t/d/f"),
      metadata := .defaultFor .file, digest := some .sha256 },
    { path := "/opt/l", kind := .symlink, content := .link "d",
      metadata := .defaultFor .symlink, digest := none }]

theorem resolve_collectedTree :
    ({ registry := {} } : Resolver).resolve collectedTree
        { name := "/opt", collect := some { root := "/t", symbolicLinks := true } } =
      .ok collectedDescriptors := by
  have hitems : Collection.items { root := "/t", symbolicLinks := true } collectedTree
      (.ofString "/t") = .ok [⟨"d", .directory, .none⟩, ⟨"d/f", .file, .file (.ofString "/t/d/f")⟩,
        ⟨"l", .symlink, .link "d"⟩] := by
    show Except.ok (Item.sorted [_, _, _]) = _
    rw [Item.sorted, List.mergeSort_of_pairwise]
    · rfl
    · decide +kernel
  show (Collection.items { root := "/t", symbolicLinks := true } collectedTree
    (.ofString "/t")).bind _ = _
  rw [hitems]
  rfl

/-- A build with a base path gives the same for a collection of this directory as for a directory, a
file and a link. -/
theorem build_standIns_collectedTree :
    collectedTree.IsSound ∧ collectedTree.IsPlainTree (.ofString "/t") collectedDirectory ∧
    (({ registry := {}, intermediate := ["/"] } : Plan).build collectedTree
        [{ name := "/opt/d", directory := some true },
          { name := "/opt/d/f", file := some "/t/d/f" },
          { name := "/opt/l", linkTo := some "d" }]).map (fun r => (r.1, r.2.resolved)) =
      (({ registry := {}, intermediate := ["/"] } : Plan).build collectedTree
        [{ name := "/opt", collect := some { root := "/t", symbolicLinks := true } }]).map
          fun r => (r.1, r.2.resolved) := by
  obtain ⟨-, hstandIns⟩ := @build_standIns { registry := {}, intermediate := ["/"] } collectedTree
    { name := "/opt", collect := some { root := "/t", symbolicLinks := true } } _ collectedDirectory
    _ collectedTree_isSound rfl resolve_collectedTree (Or.inl rfl) rfl collectedTree_isPlainTree
  obtain ⟨-, hbuild⟩ := hstandIns [{ name := "/opt/d", directory := some true },
    { name := "/opt/d/f", file := some "/t/d/f" }, { name := "/opt/l", linkTo := some "d" }]
    (.cons rfl (.cons rfl (.cons rfl .nil)))
  exact ⟨collectedTree_isSound, collectedTree_isPlainTree, hbuild (Or.inr ⟨rfl, rfl, rfl⟩) [] []⟩

end Plan

end ArchivePlan
