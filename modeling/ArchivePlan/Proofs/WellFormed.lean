import ArchivePlan.Proofs.DecodedFlags
import ArchivePlan.Proofs.ManifestPlans

/-! # Archive entries as builds record them

The kind of an archive entry decides what else it has: only ghosts have the flag of ghosts, only
files go with a digest, and each kind has its form of content; all have the modification time of the
build (`Descriptor.IsWellFormed`).  This holds of what an entry is resolved to
(`isWellFormed_of_resolve`) and of the directories that a layer adds (`parentEntry_isWellFormed`),
as long as no rule and no explicit attribute switches the flag of ghosts.  In a manifest none can,
so all that its build records is well-formed (`isWellFormed_of_parse`). -/

namespace ArchivePlan

/-- The content that an archive entry of a kind has. -/
def Content.Suits (content : Content) : EntryKind → Prop
  | .file => ∃ l, content = .file l
  | .directory => content = .none
  | .symlink => ∃ target, target ≠ "" ∧ content = .link target
  | .ghost => content = .bytes []

/-- An archive entry that has what its kind requires. -/
structure Descriptor.IsWellFormed (digest : Algorithm) (modified : Option Instant)
    (d : Descriptor) : Prop where
  ghost : d.metadata.flags .ghost = true ↔ d.kind = .ghost
  digest : d.digest = if d.kind = .file then some digest else none
  content : d.content.Suits d.kind
  modified : d.metadata.modified = modified

/-! ### Attributes -/

theorem Attributes.setFlag_self (a : Attributes) (flag : Flag) (value : Bool) :
    (a.setFlag flag value).flag flag = some value := by
  simp [setFlag]

theorem attributesOf_ghost {rules : List Rule}
    (h : ∀ rule ∈ rules, rule.effects.flag .ghost = none) (path : String) (kind : FileKind) :
    (attributesOf rules path kind).flag .ghost = none := by
  unfold attributesOf
  refine List.foldlRecOn (motive := fun a : Attributes => a.flag .ghost = none) _ _ rfl ?_
  intro a ha rule hrule
  show (rule.effects.flag .ghost).or (a.flag .ghost) = none
  rw [h rule (List.mem_of_mem_filter hrule), ha]
  rfl

namespace Registry

variable {registry : Registry}

theorem get?_mem {name : String} {ruleset : Ruleset} (h : registry.get? name = some ruleset) :
    ruleset ∈ registry.rulesets :=
  List.mem_of_find?_eq_some h

/-- If no rule switches the flag of ghosts, the explicit attributes decide about it. -/
theorem metadata_ghost (hrules : ∀ ruleset ∈ registry.rulesets, ruleset.LeavesGhost)
    {path : String} {kind : FileKind} {requested : Option String} {explicit : Attributes}
    {metadata : Metadata} (h : registry.metadata path kind requested explicit = .ok metadata) :
    metadata.flags .ghost = (explicit.flag .ghost == some true) := by
  unfold Registry.metadata attributes at h
  split at h
  · cases h
    rw [Attributes.empty_overlay]
    rfl
  · split at h
    · next ruleset hget =>
        cases h
        have hnone : (ruleset.attributes path kind).flag .ghost = none :=
          attributesOf_ghost (hrules ruleset (get?_mem hget)) path kind
        show ((explicit.flag .ghost).or ((ruleset.attributes path kind).flag .ghost) ==
          some true) = _
        rw [hnone, Option.or_none]
    · cases h

theorem defaultRules_ghost (hrules : ∀ ruleset ∈ registry.rulesets, ruleset.LeavesGhost) :
    ∀ rule ∈ registry.defaultRules, rule.effects.flag .ghost = none := by
  intro rule hrule
  unfold defaultRules at hrule
  cases hfound : registry.default.bind registry.get? with
  | none =>
      rw [hfound] at hrule
      cases hrule
  | some ruleset =>
      rw [hfound] at hrule
      obtain ⟨name, -, hget⟩ := Option.bind_eq_some_iff.mp hfound
      exact hrules ruleset (get?_mem hget) rule hrule

end Registry

theorem ParentLayer.parentEntry_isWellFormed (layer : ParentLayer)
    (hrules : ∀ ruleset ∈ layer.registry.rulesets, ruleset.LeavesGhost) (directory : String)
    (digest : Algorithm) : (layer.parentEntry directory).IsWellFormed digest layer.modified where
  ghost := by
    have hnone := attributesOf_ghost (Registry.defaultRules_ghost hrules) directory .directory
    have hflag : (layer.parentEntry directory).metadata.flags .ghost =
        ((attributesOf layer.registry.defaultRules directory .directory).flag .ghost ==
          some true) := rfl
    rw [hflag, hnone]
    exact iff_of_false (by decide) (by rintro ⟨⟩)
  digest := rfl
  content := rfl
  modified := rfl

/-! ### Resolving -/

theorem Collection.suits_of_mem_items {collection : Collection} {fs : FileSystem}
    (hfs : fs.IsSound) {root : Location} {items : List Item} {item : Item}
    (h : collection.items fs root = .ok items) (hitem : item ∈ items) :
    item.kind ≠ .ghost ∧ item.content.Suits item.kind := by
  obtain ⟨selection, dir, -, hroot, -, -, hlists⟩ := Resolver.lists_of_items hfs.legal h
  obtain ⟨⟨names, node⟩, hfinds, hdescribes⟩ := hlists.mem_iff.mp hitem
  have hcontent := hdescribes.content
  cases node with
  | directory children =>
      rw [hcontent.1]
      exact ⟨by decide, hcontent.2⟩
  | file content | special reading =>
      rw [hcontent.1]
      exact ⟨by decide, _, hcontent.2⟩
  | symlink target =>
      obtain ⟨hkind, text, htext, hlink⟩ := hcontent
      rw [hkind]
      refine ⟨by decide, text, ?_, hlink⟩
      rintro rfl
      have hempty : target = [] := htext.symm
      exact hfs.target_ne_nil_of_node hroot (hempty ▸ hfinds.found)

namespace Resolver

variable {resolver : Resolver} {fs : FileSystem} {entry : Entry} {d : Descriptor}
  {ds : List Descriptor}

theorem isWellFormed_of_descriptor {path : String} {kind : EntryKind} {content : Content}
    {explicit : Attributes} (h : resolver.descriptor entry path kind content explicit = .ok d)
    (hrules : ∀ ruleset ∈ resolver.registry.rulesets, ruleset.LeavesGhost)
    (hghost : explicit.flag .ghost = some true ↔ kind = .ghost) (hcontent : content.Suits kind) :
    d.IsWellFormed resolver.digest resolver.modified := by
  obtain ⟨metadata, hmetadata, rfl⟩ := descriptor_eq_ok_iff.mp h
  refine ⟨?_, rfl, hcontent, rfl⟩
  rw [← hghost, ← beq_iff_eq (a := explicit.flag .ghost),
    ← Registry.metadata_ghost hrules hmetadata]
  rfl

/-- **What an entry is resolved to is well-formed.** -/
theorem isWellFormed_of_resolve (hfs : fs.IsSound)
    (hrules : ∀ ruleset ∈ resolver.registry.rulesets, ruleset.LeavesGhost)
    (hexplicit : entry.explicit.flag .ghost = none)
    (h : resolver.resolve fs entry = .ok ds) (hd : d ∈ ds) :
    d.IsWellFormed resolver.digest resolver.modified := by
  have hnot : ∀ {kind : EntryKind}, kind ≠ .ghost →
      (entry.explicit.flag .ghost = some true ↔ kind = .ghost) := fun hkind =>
    iff_of_false (by rw [hexplicit]; rintro ⟨⟩) hkind
  obtain ⟨source, target, -, -, -, h⟩ := exists_of_resolve h
  rcases ofSource_cases h with
    ⟨kind, content, explicit, only, hasks, honly, rfl⟩ | ⟨collection, items, -, hitems, heach⟩
  · obtain rfl := List.mem_singleton.mp hd
    cases hasks with
    | file _ => exact isWellFormed_of_descriptor honly hrules (hnot (by decide)) ⟨_, rfl⟩
    | directory => exact isWellFormed_of_descriptor honly hrules (hnot (by decide)) rfl
    | link hlinked =>
        exact isWellFormed_of_descriptor honly hrules (hnot (by decide)) ⟨_, hlinked, rfl⟩
    | ghost =>
        have hset := entry.explicit.setFlag_self .ghost true
        exact isWellFormed_of_descriptor honly hrules (iff_of_true hset rfl) rfl
  · obtain ⟨item, hitem, hresolved⟩ := exists_of_forall₂ heach.flip hd
    obtain ⟨hkind, hcontent⟩ := Collection.suits_of_mem_items hfs hitems hitem
    exact isWellFormed_of_descriptor hresolved hrules (hnot hkind) hcontent

end Resolver

/-! ### Builds -/

namespace Plan

variable {fs : FileSystem} {listing : Listing} {report : Report}

/-- What a build records is well-formed if no rule or entry switches the flag of ghosts. -/
theorem isWellFormed_of_build {plan : Plan} (hfs : fs.IsSound) {entries : List Entry}
    (hrules : ∀ ruleset ∈ plan.registry.rulesets, ruleset.LeavesGhost)
    (hentries : ∀ entry ∈ entries, entry.explicit.flag .ghost = none)
    (h : plan.build fs entries = .ok (listing, report)) {d : Descriptor}
    (hd : d ∈ listing.entries) : d.IsWellFormed plan.digest plan.modified := by
  rcases mem_build h hd with ⟨entry, hentry, -, ds, hresolve, hmem⟩ | ⟨layer, directory, hmake, rfl⟩
  · exact Resolver.isWellFormed_of_resolve hfs hrules (hentries entry hentry) hresolve hmem
  · obtain ⟨bases, -, rfl⟩ := ParentLayer.make_eq_ok_iff.mp hmake
    exact ParentLayer.parentEntry_isWellFormed ⟨plan.registry, bases, plan.modified⟩ hrules
      directory plan.digest

/-- **Whatever a build of a manifest records is well-formed**, and nothing in the manifest switches
the flag of ghosts. -/
theorem isWellFormed_of_parse {text : String} {manifest : Manifest} {policy : Policy} {plan : Plan}
    (hparse : Manifest.parse text = .ok manifest)
    (hplan : ofManifest manifest policy = .ok plan) (hfs : fs.IsSound)
    (hbuild : plan.build fs manifest.entries = .ok (listing, report)) :
    manifest.LeavesGhost ∧ ∃ modified, manifest.modified = .ok modified ∧
      ∀ d ∈ listing.entries, d.IsWellFormed manifest.digest modified := by
  obtain ⟨⟨fields, hdecode⟩, hcheck⟩ := Manifest.exists_of_parse hparse
  have hghost := Manifest.decode_ghost hdecode
  rcases ofManifest_cases hcheck policy with
    ⟨name, -, -, herror⟩ | ⟨-, registry, modified, hrulesets, hmodified, hok⟩
  · cases herror.symm.trans hplan
  · cases hok.symm.trans hplan
    refine ⟨hghost, modified, hmodified, fun d hd => ?_⟩
    exact isWellFormed_of_build hfs (hrulesets ▸ hghost.rulesets) hghost.entries hbuild hd

/-- A manifest whose rule and whose link have a key `ghost`. -/
def ghostText : String :=
  "default-ruleset='r'\nintermediate-directories=['/opt']\noutput-timestamp=0\n" ++
    "[[ruleset]]\nid='r'\n[[ruleset.rule]]\nghost=true\n[[entry]]\nname='/opt/l'\n" ++
    "link-to='g'\nghost=false\n[[entry]]\nname='/opt/g'\nghost=true"

/-- What the text is read as: the keys leave nothing behind but the switch of each entry. -/
def ghostManifest : Manifest where
  defaultRuleset := some "r"
  intermediate := ["/opt"]
  timestamp := some (.epoch 0)
  rulesets := [{ name := "r", rules := [{}] }]
  entries := [{ name := "/opt/l", linkTo := some "g", ghost := some false },
    { name := "/opt/g", ghost := some true }]

/-- The directory that is added, the link and the ghost are well-formed. -/
theorem isWellFormed_of_parse_ghostText :
    Manifest.parse ghostText = .ok ghostManifest ∧
    FileSystem.IsSound {} ∧
    ∃ plan listing report, ofManifest ghostManifest .abort = .ok plan ∧
      plan.build {} ghostManifest.entries = .ok (listing, report) ∧
      listing.paths = ["/opt", "/opt/l", "/opt/g"] ∧
      ∀ d ∈ listing.entries, d.IsWellFormed .default (some ⟨0, 0⟩) := by
  have hparse : Manifest.parse ghostText = .ok ghostManifest := by decide +kernel
  have hplan : ofManifest ghostManifest .abort = .ok {
      registry := ⟨[{ name := "r", rules := [{}] }], some "r", by decide, by decide⟩
      intermediate := ["/opt"]
      modified := some ⟨0, 0⟩ } := by
    rfl
  obtain ⟨-, modified, hmodified, hwellFormed⟩ :=
    isWellFormed_of_parse hparse hplan FileSystem.isSound_empty rfl
  have htime : ghostManifest.modified = .ok (some ⟨0, 0⟩) := rfl
  obtain rfl := Except.ok.inj (htime.symm.trans hmodified)
  exact ⟨hparse, FileSystem.isSound_empty, _, _, _, hplan, rfl, rfl, hwellFormed⟩

end Plan

end ArchivePlan
