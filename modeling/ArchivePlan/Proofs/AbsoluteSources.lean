import ArchivePlan.Archive
import ArchivePlan.Manifest.Load
import ArchivePlan.Proofs.Separators
import ArchivePlan.Proofs.Sources

/-! # Which sources are absolute

A source is found from the directory that contains the manifest, and this directory is written as
the location of the manifest is: `parent?` of a relative location is relative.  So the content of a
file that a manifest declares is at an absolute location if and only if the declared path or the
location of the manifest is absolute (`isAbsolute_of_load`).  Where all are absolute, handing a
listing over does not depend on the working directory (`writeTo_congr`); a manifest that was loaded
from a relative location leads to a listing that does (`relative_manifest_not_written`). -/

namespace ArchivePlan

/-! ### Absolute locations -/

namespace Location

theorem isAbsolute_iff {l : Location} : l.isAbsolute = true ↔ l.bytes.head? = some slash := by
  simp [isAbsolute]

theorem isAbsolute_join (base rest : Location) :
    (base.join rest).isAbsolute = (rest.isAbsolute || base.isAbsolute) := by
  unfold join
  cases hrest : rest.isAbsolute with
  | true => exact hrest
  | false =>
      have hempty : base.bytes = [] → base.isAbsolute = false := fun h => by simp [isAbsolute, h]
      have hhead : ∀ more : Bytes, base.bytes ≠ [] →
          Location.isAbsolute ⟨base.bytes ++ more⟩ = base.isAbsolute := by
        intro more hne
        unfold isAbsolute
        rw [List.head?_append_of_ne_nil _ hne]
      by_cases hbase : base.bytes = []
      · simp only [hbase, hempty hbase, true_or, if_true]
        exact hrest
      · simp only [Bool.false_eq_true, if_false, Bool.false_or]
        split
        · exact hhead _ hbase
        · exact hhead _ hbase

theorem isAbsolute_joined {first : Bytes} {rest : List Bytes} (hfirst : slash ∉ first) :
    Location.isAbsolute ⟨[slash].intercalate (first :: rest)⟩ = true ↔ first = [] ∧ rest ≠ [] := by
  rw [isAbsolute_iff]
  cases first with
  | nil => cases rest <;> simp
  | cons b first =>
      have hb : b ≠ slash := fun h => hfirst (h ▸ List.mem_cons_self)
      cases rest <;> simp [hb]

/-- What a location lies in is absolute if the location is, and is there if it is relative. -/
theorem parent?_cases (l : Location) (hne : l.bytes ≠ []) :
    (∃ parent, l.parent? = some parent ∧ parent.isAbsolute = l.isAbsolute) ∨
    l.parent? = none ∧ l.isAbsolute = true := by
  have hjoined : l = ⟨[slash].intercalate l.parts⟩ := by
    unfold parts
    rw [List.intercalate_splitOn]
  have hparts : ∀ part ∈ l.parts, slash ∉ part := fun part => Text.not_mem_of_mem_splitOn
  unfold parent?
  cases hl : l.parts with
  | nil => exact absurd hl (List.splitOn_ne_nil slash l.bytes)
  | cons first rest =>
      rw [hl] at hjoined hparts
      have hfirst := hparts first List.mem_cons_self
      have habsolute : l.isAbsolute = true ↔ first = [] ∧ rest ≠ [] := by
        rw [hjoined]
        exact isAbsolute_joined hfirst
      dsimp only
      cases htrimmed : (trimParts rest).reverse with
      | nil =>
          -- the first part is all there is: the root, or a name in the working directory
          by_cases hempty : first = []
          · have hrest : rest ≠ [] := by
              rintro rfl
              rw [hjoined, hempty] at hne
              exact hne rfl
            exact Or.inr ⟨if_pos hempty, habsolute.mpr ⟨hempty, hrest⟩⟩
          · refine Or.inl ⟨⟨[]⟩, if_neg hempty, ?_⟩
            rw [Bool.eq_false_iff.mpr fun h => hempty (habsolute.mp h).1]
            rfl
      | cons last before =>
          have hrest : rest ≠ [] := by
            rintro rfl
            cases htrimmed
          refine Or.inl ?_
          dsimp only
          split
          · next hcase =>
              exact ⟨_, rfl, (habsolute.mpr ⟨hcase.1, hrest⟩).symm⟩
          · next hcase =>
              refine ⟨_, rfl, ?_⟩
              rw [Bool.eq_iff_iff, habsolute, isAbsolute_joined hfirst]
              exact ⟨fun h => ⟨h.1, hrest⟩, fun h => ⟨h.1, fun hkept => hcase ⟨h.1, hkept⟩⟩⟩

end Location

theorem FileSystem.isAbsolute_workLocation (fs : FileSystem) :
    fs.workLocation.isAbsolute = true := by
  unfold workLocation
  cases fs.workDir with
  | nil => rfl
  | cons name rest => simp [Location.isAbsolute]

/-! ### Declared sources -/

/-- The path that an entry declares for its file or for the root of its collection. -/
def Entry.sourcePath? (entry : Entry) : Option String :=
  match entry.source with
  | .ok (.file path) => some path
  | .ok (.collect collection) => some collection.root
  | _ => none

namespace Resolver

variable {resolver : Resolver} {fs : FileSystem} {entry : Entry}

theorem isAbsolute_locate (resolver : Resolver) (fs : FileSystem) (path : String) :
    (resolver.locate fs path).isAbsolute = ((Location.ofString path).isAbsolute ||
      (resolver.baseDir.getD fs.workLocation).isAbsolute) := by
  unfold locate
  dsimp only
  cases h : (Location.ofString path).isAbsolute with
  | true => simp [h]
  | false => simp [Location.isAbsolute_join, h]

/-- A file has its content at an absolute location if the declared path is absolute or the directory
from which it is found. -/
theorem isAbsolute_of_sourceOf (hlegal : fs.root.IsLegal) {l : Location}
    (h : resolver.SourceOf fs entry l) :
    ∃ path, entry.sourcePath? = some path ∧
      l.isAbsolute = ((Location.ofString path).isAbsolute ||
        (resolver.baseDir.getD fs.workLocation).isAbsolute) := by
  unfold Entry.sourcePath?
  cases h with
  | @declared path content source regular =>
      rw [source]
      exact ⟨path, rfl, isAbsolute_locate resolver fs path⟩
  | @collected collection dir node names source root directory found plain =>
      have hnames := ((FileSystem.isLegal_of_node hlegal root).get? found).1
      have hextends := Location.extends_location (FileSystem.ne_nil_of_node root) hnames
      rw [source]
      exact ⟨collection.root, rfl,
        hextends.isAbsolute.trans (isAbsolute_locate resolver fs collection.root)⟩

end Resolver

/-! ### The working directory -/

section

variable {fs fs' : FileSystem}

/-- The content of a file is at an absolute location. -/
def Descriptor.IsAnchored (d : Descriptor) : Prop :=
  ∀ l, d.kind = .file → d.content = .file l → l.isAbsolute = true

theorem FileSystem.readPieces_congr (hroot : fs.root = fs'.root) {l : Location}
    (h : l.isAbsolute = true) : fs.readPieces l = fs'.readPieces l := by
  unfold readPieces read
  rw [node_congr hroot h]

theorem Cache.fileDigest_congr (hroot : fs.root = fs'.root) {l : Location}
    (h : l.isAbsolute = true) (cache : Cache) (algorithm : Algorithm) :
    cache.fileDigest fs l algorithm = cache.fileDigest fs' l algorithm := by
  unfold fileDigest
  rw [FileSystem.readPieces_congr hroot h]

theorem Cache.entryDigest_congr (hroot : fs.root = fs'.root) {d : Descriptor} (h : d.IsAnchored)
    (cache : Cache) : cache.entryDigest fs d = cache.entryDigest fs' d := by
  unfold entryDigest
  split
  · next algorithm hkind hdigest =>
      unfold contentDigest
      cases hcontent : d.content with
      | file l =>
          dsimp only
          rw [fileDigest_congr hroot (h l hkind hcontent)]
      | _ => rfl
  · rfl

/-- Where all files are at absolute locations, the working directory makes no difference. -/
theorem Archive.takeAll_congr {β : Type} (hroot : fs.root = fs'.root) (archive : Archive β)
    (state : HandOver β) {ds : List Descriptor} (h : ∀ d ∈ ds, d.IsAnchored) :
    archive.takeAll fs state ds = archive.takeAll fs' state ds := by
  induction ds generalizing state with
  | nil => rfl
  | cons d rest ih =>
      obtain ⟨hd, hrest⟩ := List.forall_mem_cons.mp h
      have hnext : (fun state => archive.takeAll fs state rest) =
          fun state => archive.takeAll fs' state rest := funext fun state => ih state hrest
      rw [takeAll, takeAll, Cache.entryDigest_congr hroot hd, hnext]

theorem Listing.writeTo_congr {β : Type} (hroot : fs.root = fs'.root) (archive : Archive β)
    (state : HandOver β) {listing : Listing} (h : ∀ d ∈ listing.entries, d.IsAnchored) :
    listing.writeTo archive fs state = listing.writeTo archive fs' state := by
  unfold writeTo
  rw [Archive.takeAll_congr hroot archive state h]

end

/-! ### Manifests -/

theorem FileSystem.ne_nil_of_readText {fs : FileSystem} {l : Location} {text : String}
    (h : fs.readText l = .ok text) : l.bytes ≠ [] := by
  unfold readText read at h
  cases hnode : fs.node l with
  | error e =>
      rw [hnode] at h
      cases h
  | ok node => exact ne_nil_of_node hnode

theorem Manifest.baseDir_of_load {fs : FileSystem} {location : Location} {manifest : Manifest}
    (h : Manifest.load fs location = .ok manifest) :
    manifest.baseDir = location.parent? ∧ location.bytes ≠ [] := by
  obtain ⟨text, htext, h⟩ := exists_of_bind_eq_ok h
  obtain ⟨parsed, -, h⟩ := exists_of_bind_eq_ok h
  cases h
  refine ⟨rfl, ?_⟩
  cases hread : fs.readText location with
  | error e =>
      rw [hread] at htext
      cases htext
  | ok text => exact FileSystem.ne_nil_of_readText hread

theorem Plan.baseDir_ofManifest {manifest : Manifest} {policy : Policy} {plan : Plan}
    (h : Plan.ofManifest manifest policy = .ok plan) : plan.baseDir = manifest.baseDir := by
  obtain ⟨modified, -, h⟩ := exists_of_bind_eq_ok h
  obtain ⟨registry, -, h⟩ := exists_of_bind_eq_ok h
  cases h
  rfl

/-- The content of a file is at a location that is absolute if and only if the path that an entry
declares is absolute, or the location from which a manifest was loaded. -/
def Descriptor.IsPlacedBy (d : Descriptor) (entry : Entry) (location : Location) : Prop :=
  ∃ path l, entry.sourcePath? = some path ∧ d.content = .file l ∧
    (l.isAbsolute = true ↔
      (Location.ofString path).isAbsolute = true ∨ location.isAbsolute = true)

namespace Plan

/-! ### A manifest beside its source -/

/-- A directory `/w` with a manifest `m` and a file `a`. -/
def manifestTree : FileSystem where
  root := .directory [([0x77], .directory [
    ([0x6d], .file (Utf8.ofString "[[entry]]\nname=\"/a\"\nfile=\"a\"\n")),
    ([0x61], .file [0x78])])]
  workDir := [[0x77]]

/-- The entry that the manifest declares. -/
def manifestEntry : Entry where
  name := "/a"
  file := some "a"

def manifestFile (l : Location) : Descriptor where
  path := "/a"
  kind := .file
  content := .file l
  metadata := .defaultFor .file
  digest := some .sha256

theorem manifestTree_isLegal : manifestTree.root.IsLegal := by
  refine .directory (by decide) (by decide) fun c hc => ?_
  obtain rfl := List.mem_singleton.mp hc
  refine .directory (by decide) (by decide) ?_
  simp only [List.forall_mem_cons, List.not_mem_nil, false_imp_iff, implies_true, and_true]
  exact ⟨.file _, .file _⟩

/-! ### Sources of a manifest -/

variable {fs fs' : FileSystem} {location : Location} {manifest : Manifest} {policy : Policy}
  {plan : Plan}

theorem isAbsolute_base (hload : Manifest.load fs location = .ok manifest)
    (hplan : Plan.ofManifest manifest policy = .ok plan) (fs' : FileSystem) :
    (plan.resolver.baseDir.getD fs'.workLocation).isAbsolute = location.isAbsolute := by
  obtain ⟨hbase, hne⟩ := Manifest.baseDir_of_load hload
  show (plan.baseDir.getD fs'.workLocation).isAbsolute = _
  rw [baseDir_ofManifest hplan, hbase]
  rcases location.parent?_cases hne with ⟨parent, hparent, habsolute⟩ | ⟨hnone, habsolute⟩
  · rw [hparent]
    exact habsolute
  · rw [hnone, habsolute]
    exact fs'.isAbsolute_workLocation

/-- **Which sources of a manifest are absolute.**  A file that an entry is resolved to, or that a
build records, has its content at an absolute location if and only if the path that the entry
declares is absolute or the location is that the manifest was loaded from.  So the listing of a
manifest that was loaded from an absolute location can be handed over from anywhere. -/
theorem isAbsolute_of_load (hload : Manifest.load fs location = .ok manifest)
    (hplan : Plan.ofManifest manifest policy = .ok plan) (hlegal : fs'.root.IsLegal) :
    (∀ entry ds, plan.resolver.resolve fs' entry = .ok ds → ∀ d ∈ ds, d.kind = .file →
      d.IsPlacedBy entry location) ∧
    ∀ entries listing report, plan.build fs' entries = .ok (listing, report) →
      (∀ d ∈ listing.entries, d.kind = .file → ∃ entry ∈ entries, d.IsPlacedBy entry location) ∧
      (location.isAbsolute = true → ∀ {β : Type} (archive : Archive β) (state : HandOver β)
        (workDir : List Name), listing.writeTo archive { fs' with workDir } state =
          listing.writeTo archive fs' state) := by
  have hplaced : ∀ {entry : Entry} {d : Descriptor} {l : Location},
      plan.resolver.FileOf fs' entry d l → d.IsPlacedBy entry location := by
    intro entry d l h
    obtain ⟨path, hpath, habsolute⟩ := Resolver.isAbsolute_of_sourceOf hlegal h.source
    refine ⟨path, l, hpath, h.content, ?_⟩
    rw [habsolute, isAbsolute_base hload hplan, Bool.or_eq_true]
  have hbuilt : ∀ entries listing report, plan.build fs' entries = .ok (listing, report) →
      ∀ d ∈ listing.entries, d.kind = .file → ∃ entry ∈ entries, d.IsPlacedBy entry location := by
    intro entries listing report hbuild d hd hkind
    obtain ⟨entry, hentry, -, l, h⟩ := source_of_build hlegal hbuild hd hkind
    exact ⟨entry, hentry, hplaced h⟩
  refine ⟨?_, fun entries listing report hbuild => ⟨hbuilt entries listing report hbuild, ?_⟩⟩
  · intro entry ds hresolve d hd hkind
    obtain ⟨l, h⟩ := Resolver.source_of_resolve hlegal hresolve hd hkind
    exact hplaced h
  · intro habsolute β archive state workDir
    have hroot : ({ fs' with workDir } : FileSystem).root = fs'.root := rfl
    refine Listing.writeTo_congr hroot archive state fun d hd l hkind hcontent => ?_
    obtain ⟨entry, -, path, l', -, hl', hiff⟩ := hbuilt entries listing report hbuild d hd hkind
    cases hcontent.symm.trans hl'
    exact hiff.mpr (Or.inr habsolute)

/-- The manifest of `manifestTree`, loaded from an absolute location. -/
theorem isAbsolute_of_load_manifestTree :
    Manifest.load manifestTree (.ofString "/w/m") =
      .ok { entries := [manifestEntry], baseDir := some (.ofString "/w") } ∧
    Plan.ofManifest { entries := [manifestEntry], baseDir := some (.ofString "/w") } .abort =
      .ok { registry := {}, baseDir := some (.ofString "/w") } ∧
    manifestTree.root.IsLegal ∧
    ∃ listing report,
      ({ registry := {}, baseDir := some (.ofString "/w") } : Plan).build manifestTree
        [manifestEntry] = .ok (listing, report) ∧
      ∀ workDir, listing.writeTo Record.archive { manifestTree with workDir } ⟨{}, {}⟩ =
        listing.writeTo Record.archive manifestTree ⟨{}, {}⟩ := by
  have hload : Manifest.load manifestTree (.ofString "/w/m") =
      .ok { entries := [manifestEntry], baseDir := some (.ofString "/w") } := by decide +kernel
  have hplan : Plan.ofManifest
      { entries := [manifestEntry], baseDir := some (.ofString "/w") } .abort =
        .ok { registry := {}, baseDir := some (.ofString "/w") } := rfl
  have hbuild : ({ registry := {}, baseDir := some (.ofString "/w") } : Plan).build manifestTree
      [manifestEntry] = .ok (Listing.empty.add (manifestFile (.ofString "/w/a")),
        { resolved := 1 }) := rfl
  obtain ⟨-, hbuilt⟩ := isAbsolute_of_load hload hplan manifestTree_isLegal
  exact ⟨hload, hplan, manifestTree_isLegal, _, _, hbuild,
    (hbuilt _ _ _ hbuild).2 rfl Record.archive ⟨{}, {}⟩⟩

/-- The same manifest, loaded from a relative location: the source is relative, so the listing can
be handed over from the directory in which it was built and not from the root. -/
theorem relative_manifest_not_written :
    ∃ manifest plan listing report,
      Manifest.load manifestTree (.ofString "m") = .ok manifest ∧
      Plan.ofManifest manifest .abort = .ok plan ∧
      plan.build manifestTree manifest.entries = .ok (listing, report) ∧
      (∃ d ∈ listing.entries, d.kind = .file ∧ d.content = .file (.ofString "a")) ∧
      (listing.writeTo Record.archive manifestTree ⟨{}, {}⟩).2 = .ok 1 ∧
      (listing.writeTo Record.archive { manifestTree with workDir := [] } ⟨{}, {}⟩).2 =
        .error (.digest (.ofString "a") .notFound) := by
  have hload : Manifest.load manifestTree (.ofString "m") =
      .ok { entries := [manifestEntry], baseDir := some ⟨[]⟩ } := by decide +kernel
  have hbuild : ({ registry := {}, baseDir := some ⟨[]⟩ } : Plan).build manifestTree
      [manifestEntry] = .ok (Listing.empty.add (manifestFile (.ofString "a")),
        { resolved := 1 }) := rfl
  exact ⟨_, { registry := {}, baseDir := some ⟨[]⟩ }, _, _, hload, rfl, hbuild,
    ⟨_, List.mem_singleton_self _, rfl, rfl⟩, rfl, rfl⟩

end Plan

end ArchivePlan
