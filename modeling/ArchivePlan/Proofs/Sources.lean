import ArchivePlan.Proofs.CollectedItems
import ArchivePlan.Proofs.FailurePolicy
import ArchivePlan.Proofs.Following

/-! # Where files come from

An archive entry that is a file has its content at a location in the file system: the declared one,
which leads to a regular file, or one below the root of a collection, where there is something that
is neither a directory nor a link (`SourceOf`).  This holds of whatever an entry is resolved to
(`source_of_resolve`) and of what a build records (`source_of_build`), since nothing else is
recorded but parent directories (`mem_build`). -/

namespace ArchivePlan

theorem exists_of_bind_eq_ok {ε α β : Type} {x : Except ε α} {f : α → Except ε β} {b : β}
    (h : x >>= f = .ok b) : ∃ a, x = .ok a ∧ f a = .ok b := by
  cases x with
  | error e => cases h
  | ok a => exact ⟨a, rfl, h⟩

theorem mapM_eq_ok_iff {ε α β : Type} {f : α → Except ε β} {as : List α} {bs : List β} :
    as.mapM f = .ok bs ↔ List.Forall₂ (fun a b => f a = .ok b) as bs := by
  induction as generalizing bs with
  | nil =>
      rw [List.forall₂_nil_left_iff, List.mapM_nil]
      exact ⟨fun h => (Except.ok.inj h).symm, fun h => congrArg _ h.symm⟩
  | cons a as ih =>
      rw [List.mapM_cons]
      constructor
      · intro h
        obtain ⟨first, hfirst, h⟩ := exists_of_bind_eq_ok h
        obtain ⟨others, hothers, h⟩ := exists_of_bind_eq_ok h
        cases h
        exact .cons hfirst (ih.mp hothers)
      · intro h
        cases h with
        | cons hfirst hothers =>
            rw [hfirst, ih.mpr hothers]
            rfl

theorem Entry.target_eq_ok_iff {entry : Entry} {target : String} :
    entry.target = .ok target ↔ Target.canonical entry.name = .ok target := by
  unfold Entry.target
  cases Target.canonical entry.name <;> simp [Except.mapError]

namespace Resolver

variable (resolver : Resolver) (fs : FileSystem)

/-- The kind, the content and the attributes that are asked for by a source that is no
collection. -/
inductive Asks (entry : Entry) : Source → EntryKind → Content → Attributes → Prop
  | file {path : String} {l : Location} (regular : resolver.sourceFile fs entry path = .ok l) :
      Asks entry (.file path) .file (.file l) entry.explicit
  | directory : Asks entry .directory .directory .none entry.explicit
  | link {linked : String} (ne_empty : linked ≠ "") :
      Asks entry (.link linked) .symlink (.link linked) entry.explicit
  | ghost : Asks entry .ghost .ghost (.bytes []) (entry.explicit.setFlag .ghost true)

/-- The locations at which the content of a file can be that a declared entry comes to. -/
inductive SourceOf (entry : Entry) : Location → Prop
  | declared {path : String} {content : Bytes} (source : entry.source = .ok (.file path))
      (regular : fs.node (resolver.locate fs path) = .ok (.file content)) :
      SourceOf entry (resolver.locate fs path)
  | collected {collection : Collection} {dir node : Node} {names : List Name}
      (source : entry.source = .ok (.collect collection))
      (root : fs.node (resolver.locate fs collection.root) = .ok dir)
      (directory : dir.isDirectory = true) (found : dir.get? names = some node)
      (plain : (∃ reading, node = .special reading) ∨ ∃ content, node = .file content) :
      SourceOf entry (Item.location (resolver.locate fs collection.root) names)

/-- An archive entry that has its content at a location from which an entry can take it, and goes
with a digest. -/
structure FileOf (entry : Entry) (d : Descriptor) (l : Location) : Prop where
  content : d.content = .file l
  digest : d.digest = some resolver.digest
  source : resolver.SourceOf fs entry l

variable {resolver fs} {entry : Entry} {d : Descriptor} {ds : List Descriptor}

/-! ### Resolving -/

theorem descriptor_eq_ok_iff {path : String} {kind : EntryKind} {content : Content}
    {explicit : Attributes} :
    resolver.descriptor entry path kind content explicit = .ok d ↔
      ∃ metadata, resolver.registry.metadata path kind.fileKind entry.ruleset explicit =
          .ok metadata ∧
        d = ⟨path, kind, content, metadata.stamped resolver.modified,
          if kind = .file then some resolver.digest else none⟩ := by
  unfold descriptor
  split
  · next e he => simp [he]
  · next metadata hmetadata => simp [hmetadata, eq_comm]

theorem descriptor_ok {path : String} {kind : EntryKind} {content : Content}
    {explicit : Attributes}
    (h : resolver.descriptor entry path kind content explicit = .ok d) :
    d.kind = kind ∧ d.content = content ∧ (kind = .file → d.digest = some resolver.digest) := by
  obtain ⟨metadata, -, rfl⟩ := descriptor_eq_ok_iff.mp h
  exact ⟨rfl, rfl, fun hkind => if_pos hkind⟩

theorem itemDescriptors_eq_ok_iff {target : String} {items : List Item} :
    resolver.itemDescriptors entry target items = .ok ds ↔
      List.Forall₂ (fun item d => resolver.descriptor entry (pathBelow target item.path) item.kind
        item.content entry.explicit = .ok d) items ds := by
  induction items generalizing ds with
  | nil =>
      rw [List.forall₂_nil_left_iff, itemDescriptors, Except.ok.injEq]
      exact eq_comm
  | cons item rest ih =>
      constructor
      · intro h
        obtain ⟨first, hfirst, h⟩ := exists_of_bind_eq_ok h
        obtain ⟨others, hothers, h⟩ := exists_of_bind_eq_ok h
        cases h
        exact .cons hfirst (ih.mp hothers)
      · intro h
        cases h with
        | cons hfirst hothers =>
            rw [itemDescriptors, hfirst, ih.mpr hothers]
            rfl

/-- A collection that does not fail lists what it selects of the directory that its root leads
to. -/
theorem lists_of_items {collection : Collection} {root : Location} {items : List Item}
    (hlegal : fs.root.IsLegal) (h : collection.items fs root = .ok items) :
    ∃ selection dir, Selection.make collection = .ok selection ∧ fs.node root = .ok dir ∧
      dir.isDirectory = true ∧ ¬collection.Stuck dir ∧
      collection.Lists selection root dir items := by
  have hok := h
  unfold Collection.items at h
  split at h
  · cases h
  · next selection hselection =>
      split at h
      · next children hroot =>
          have hdir : (Node.directory children).isDirectory = true := rfl
          rw [Collection.items_eq hselection hroot hdir] at hok
          rcases Collection.map_sorted_ofNodes collection selection root
            (FileSystem.isLegal_of_node hlegal hroot) with
            ⟨-, l, herror⟩ | ⟨hnot, items', hok', hlists⟩
          · cases herror.symm.trans hok
          · cases hok'.symm.trans hok
            exact ⟨selection, _, hselection, hroot, hdir, hnot, hlists⟩
      · cases h

/-- What a collection lists as a file is found below its root and no directory or link. -/
theorem found_of_mem_items {collection : Collection} {root : Location} {items : List Item}
    {item : Item} (hlegal : fs.root.IsLegal) (h : collection.items fs root = .ok items)
    (hitem : item ∈ items) (hkind : item.kind = .file) :
    ∃ dir names node, fs.node root = .ok dir ∧ dir.isDirectory = true ∧
      dir.get? names = some node ∧
      ((∃ reading, node = .special reading) ∨ ∃ content, node = .file content) ∧
      item.content = .file (Item.location root names) := by
  obtain ⟨selection, dir, -, hroot, hdir, -, hlists⟩ := lists_of_items hlegal h
  obtain ⟨⟨names, node⟩, hfinds, hdescribes⟩ := hlists.mem_iff.mp hitem
  have hcontent := hdescribes.content
  refine ⟨dir, names, node, hroot, hdir, hfinds.found, ?_⟩
  cases node with
  | directory _ => cases hcontent.1.symm.trans hkind
  | symlink _ => cases hcontent.1.symm.trans hkind
  | file content => exact ⟨Or.inr ⟨content, rfl⟩, hcontent.2⟩
  | special reading => exact ⟨Or.inl ⟨reading, rfl⟩, hcontent.2⟩

theorem regular_of_sourceFile {path : String} {l : Location}
    (h : resolver.sourceFile fs entry path = .ok l) :
    l = resolver.locate fs path ∧ ∃ content, fs.node l = .ok (.file content) := by
  unfold sourceFile at h
  dsimp only at h
  split at h
  · cases h
  · next content hnode =>
      cases h
      exact ⟨rfl, content, hnode⟩
  · cases h

/-- What an entry is resolved to comes from its source, once its target and its ruleset are
found. -/
theorem exists_of_resolve (h : resolver.resolve fs entry = .ok ds) :
    ∃ source target, entry.source = .ok source ∧ entry.target = .ok target ∧
      resolver.registry.check entry.ruleset = .ok () ∧
      resolver.ofSource fs entry target source = .ok ds := by
  unfold resolve at h
  split at h
  · cases h
  · next source hsource =>
      split at h
      · cases h
      · next target htarget =>
          split at h
          · cases h
          · next hcheck => exact ⟨source, target, hsource, htarget, hcheck, h⟩

/-- Everything that a source can be resolved to: one archive entry at the target, or one below it
for each item of a collection. -/
theorem ofSource_cases {target : String} {source : Source}
    (h : resolver.ofSource fs entry target source = .ok ds) :
    (∃ kind content explicit d, resolver.Asks fs entry source kind content explicit ∧
      resolver.descriptor entry target kind content explicit = .ok d ∧ ds = [d]) ∨
    ∃ collection items, source = .collect collection ∧
      collection.items fs (resolver.locate fs collection.root) = .ok items ∧
      List.Forall₂ (fun item d => resolver.descriptor entry (pathBelow target item.path) item.kind
        item.content entry.explicit = .ok d) items ds := by
  cases source with
  | file path =>
      obtain ⟨l, hl, h⟩ := exists_of_bind_eq_ok h
      obtain ⟨d, hd, h⟩ := exists_of_bind_eq_ok h
      cases h
      exact Or.inl ⟨_, _, _, d, .file hl, hd, rfl⟩
  | directory =>
      obtain ⟨d, hd, h⟩ := exists_of_bind_eq_ok h
      cases h
      exact Or.inl ⟨_, _, _, d, .directory, hd, rfl⟩
  | link linked =>
      rw [ofSource] at h
      by_cases hlinked : linked = ""
      · rw [if_pos hlinked] at h
        cases h
      · rw [if_neg hlinked] at h
        obtain ⟨d, hd, h⟩ := exists_of_bind_eq_ok h
        cases h
        exact Or.inl ⟨_, _, _, d, .link hlinked, hd, rfl⟩
  | ghost =>
      obtain ⟨d, hd, h⟩ := exists_of_bind_eq_ok h
      cases h
      exact Or.inl ⟨_, _, _, d, .ghost, hd, rfl⟩
  | collect collection =>
      obtain ⟨items, hitems, h⟩ := exists_of_bind_eq_ok h
      exact Or.inr ⟨collection, items, rfl, hitems, itemDescriptors_eq_ok_iff.mp h⟩

/-- **The files that an entry is resolved to have their content where it can come from.** -/
theorem source_of_resolve (hlegal : fs.root.IsLegal) (h : resolver.resolve fs entry = .ok ds)
    (hd : d ∈ ds) (hkind : d.kind = .file) : ∃ l, resolver.FileOf fs entry d l := by
  obtain ⟨source, target, hsource, -, -, h⟩ := exists_of_resolve h
  rcases ofSource_cases h with
    ⟨kind, content, explicit, only, hasks, honly, rfl⟩ | ⟨collection, items, rfl, hitems, heach⟩
  · obtain rfl := List.mem_singleton.mp hd
    obtain ⟨honlyKind, hcontent, hdigest⟩ := descriptor_ok honly
    rw [hkind] at honlyKind
    cases hasks with
    | file hl =>
        obtain ⟨rfl, content, hregular⟩ := regular_of_sourceFile hl
        exact ⟨_, hcontent, hdigest rfl, .declared hsource hregular⟩
    | directory | link _ | ghost => cases honlyKind
  · obtain ⟨item, hitem, hresolved⟩ := exists_of_forall₂ heach.flip hd
    obtain ⟨hitemKind, hcontent, hdigest⟩ := descriptor_ok hresolved
    rw [hkind] at hitemKind
    obtain ⟨dir, names, node, hroot, hdir, hfound, hplain, hlocation⟩ :=
      found_of_mem_items hlegal hitems hitem hitemKind.symm
    exact ⟨_, hcontent.trans hlocation, hdigest hitemKind.symm,
      .collected hsource hroot hdir hfound hplain⟩

end Resolver

/-! ### Builds -/

namespace Plan

variable {plan : Plan} {fs : FileSystem} {entries : List Entry} {d : Descriptor}

/-- A run that ends well is the run of the calls of its entries, whatever the policy. -/
theorem eq_run_of_fillFrom {σ : Type} {sink : Sink σ} (h : sink.Accepts) {report report' : Report}
    {state state' : σ}
    (hfill : plan.fillFrom fs sink report state entries = (state', .ok report')) :
    state' = sink.run state (entries.flatMap (plan.calls fs)) := by
  cases hpolicy : plan.policy with
  | proceed => exact (congrArg Prod.fst ((fillFrom_proceed hpolicy h _ _ _).symm.trans hfill)).symm
  | abort =>
      cases hfailures : plan.failures fs entries with
      | nil =>
          exact (congrArg Prod.fst
            ((fillFrom_of_no_failures h hfailures _ _).symm.trans hfill)).symm
      | cons failure more =>
          have herror := fillFrom_abort_of_failures hpolicy h hfailures report state
          rw [hfill] at herror
          cases herror

theorem mem_descriptors (hd : d ∈ entries.flatMap (plan.descriptors fs)) :
    ∃ entry ∈ entries, entry.skip = false ∧
      ∃ ds, plan.resolver.resolve fs entry = .ok ds ∧ d ∈ ds := by
  obtain ⟨entry, hentry, hd⟩ := List.mem_flatMap.mp hd
  unfold descriptors at hd
  split at hd
  · cases hd
  · next hskip =>
      split at hd
      · cases hd
      · next ds hresolve => exact ⟨entry, hentry, by simpa using hskip, ds, hresolve, hd⟩

/-- A listing that is filled well is the run of the calls of its entries, or what the layer of the
plan makes of them. -/
theorem eq_of_fill {listing : Listing} {report : Report}
    (h : plan.fill fs Listing.sink .empty entries = (listing, .ok report)) :
    listing = Listing.sink.run .empty (entries.flatMap (plan.calls fs)) ∨
      ∃ layer, ParentLayer.make plan.registry plan.intermediate plan.modified = .ok layer ∧
        listing = (layer.after (entries.flatMap (plan.calls fs))).inner := by
  unfold fill at h
  split at h
  · exact Or.inl (eq_run_of_fillFrom Listing.sink_accepts h)
  · split at h
    · cases h
    · next layer hlayer =>
        obtain ⟨hlisting, hreport⟩ := Prod.mk.inj h
        have hrun := eq_run_of_fillFrom (layer.sink_accepts Listing.sink_accepts)
          (Prod.ext rfl hreport)
        exact Or.inr ⟨layer, hlayer, hlisting.symm.trans (congrArg Layered.inner hrun)⟩

/-- A build records what entries are resolved to, and the directories of its layer. -/
theorem mem_build {listing : Listing} {report : Report}
    (h : plan.build fs entries = .ok (listing, report)) (hd : d ∈ listing.entries) :
    (∃ entry ∈ entries, entry.skip = false ∧
      ∃ ds, plan.resolver.resolve fs entry = .ok ds ∧ d ∈ ds) ∨
    ∃ layer directory, ParentLayer.make plan.registry plan.intermediate plan.modified = .ok layer ∧
      d = layer.parentEntry directory := by
  have hfill : plan.fill fs Listing.sink .empty entries = (listing, .ok report) := by
    unfold build at h
    rcases hfilled : plan.fill fs Listing.sink .empty entries with ⟨filled, result⟩
    rw [hfilled] at h
    cases result <;> cases h
    rfl
  rcases eq_of_fill hfill with rfl | ⟨layer, hlayer, rfl⟩
  · rw [Listing.run_sink, entries_calls] at hd
    exact Or.inl (mem_descriptors hd)
  · rcases (layer.consistent_after _).origin d hd with ⟨x, hx, rfl⟩ | ⟨directory, rfl⟩
    · refine Or.inl (mem_descriptors ?_)
      rw [← entries_calls]
      exact List.mem_map.mpr ⟨x, hx, rfl⟩
    · exact Or.inr ⟨layer, directory, hlayer, rfl⟩

/-- **The files that a build records have their content where an entry can take it from.** -/
theorem source_of_build (hlegal : fs.root.IsLegal) {listing : Listing} {report : Report}
    (h : plan.build fs entries = .ok (listing, report)) (hd : d ∈ listing.entries)
    (hkind : d.kind = .file) :
    ∃ entry ∈ entries, entry.skip = false ∧ ∃ l, plan.resolver.FileOf fs entry d l := by
  rcases mem_build h hd with ⟨entry, hentry, hskip, ds, hresolve, hmem⟩ | ⟨layer, directory, -, rfl⟩
  · exact ⟨entry, hentry, hskip, Resolver.source_of_resolve hlegal hresolve hmem hkind⟩
  · cases hkind

end Plan

end ArchivePlan
