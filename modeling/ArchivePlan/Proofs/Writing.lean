import ArchivePlan.Proofs.Snapshots
import ArchivePlan.Proofs.Sources

/-! # Handing over what was built

An archive that refuses nothing takes a listing up to the first file that cannot be read
(`takeAll_cases`).  A digest that is kept never stands in for a special file that cannot be read,
since it is kept for a location with the same key, where something was read (`Cache.IsFrom`).

A build checks the file that an entry declares, but not what a collection takes for a file.  So a
file of a listing is regular, or a collection found a special file there, or the location below its
root is too long; and long locations aside, a listing can be handed over if and only if its special
files can be read (`writeTo_of_build`).  A collected socket is enough for a build that cannot be
handed over (`collected_socket_not_written`). -/

namespace ArchivePlan

def Archive.Accepts {β : Type} (archive : Archive β) : Prop :=
  ∀ state d digest, (archive.take state d digest).refusal = none

/-- An archive entry is a file that goes with a digest, and its content is at a location that leads
to a special file that cannot be read. -/
structure Descriptor.IsStuck (fs : FileSystem) (d : Descriptor) : Prop where
  kind : d.kind = .file
  digest : d.digest ≠ none
  special : ∃ l e, d.content = .file l ∧ fs.node l = .ok (.special (.error e))

/-- An archive entry is a file whose content cannot be read, for the given reason. -/
structure Descriptor.Unread (fs : FileSystem) (d : Descriptor) (l : Location) (e : IoError) :
    Prop where
  kind : d.kind = .file
  content : d.content = .file l
  unread : fs.read l = .error e

/-! ### Digests that are kept -/

namespace Cache

/-- Digests are kept for the keys of locations that can be read. -/
def IsFrom (fs : FileSystem) (cache : Cache) : Prop :=
  ∀ key digest, (key, digest) ∈ cache.digests →
    ∃ l content, l.key = key.1 ∧ fs.read l = .ok content

variable {fs : FileSystem} {cache : Cache}

theorem isFrom_empty (fs : FileSystem) : IsFrom fs {} :=
  fun _ _ hmem => absurd hmem List.not_mem_nil

end Cache

namespace Cache

variable {fs : FileSystem} {cache : Cache}

/-- A lookup finds no digest where there is a special file that cannot be read. -/
theorem fileDigest_cases (hfrom : cache.IsFrom fs) (l : Location) (algorithm : Algorithm) :
    (∃ next digest, cache.fileDigest fs l algorithm = (next, .ok digest) ∧ next.IsFrom fs ∧
      ∀ e, fs.node l ≠ .ok (.special (.error e))) ∨
    ∃ e, cache.fileDigest fs l algorithm = (cache, .error e) ∧ fs.read l = .error e := by
  have hlooks := cache.looks fs l algorithm
  generalize cache.fileDigest fs l algorithm = result at hlooks ⊢
  cases hlooks with
  | @hit digest kept =>
      -- the digest was read at another location with this key, so both lead to the same node
      obtain ⟨before, after, hdigests, -⟩ := List.lookup_eq_some_iff.mp kept
      obtain ⟨l', content, hkey, hread⟩ := hfrom (l.key, algorithm) digest (by simp [hdigests])
      obtain ⟨node, hnode, hreading⟩ := FileSystem.read_eq_ok_iff.mp hread
      refine Or.inl ⟨_, _, rfl, hfrom, fun e hspecial => ?_⟩
      obtain rfl := FileSystem.node_of_key_eq hkey hnode hspecial
      cases hreading
  | @read content missing readable =>
      refine Or.inl ⟨_, _, rfl, ?_, fun e hspecial => ?_⟩
      · intro key digest hmem
        rcases List.mem_cons.mp hmem with heq | hmem
        · obtain ⟨rfl, -⟩ := Prod.mk.inj heq
          exact ⟨l, content, rfl, readable⟩
        · exact hfrom key digest hmem
      · rw [FileSystem.read, hspecial] at readable
        cases readable
  | @fail e missing unreadable => exact Or.inr ⟨e, rfl, unreadable⟩

theorem entryDigest_cases (hfrom : cache.IsFrom fs) (d : Descriptor) :
    (∃ next digest, cache.entryDigest fs d = (next, .ok digest) ∧ next.IsFrom fs ∧
      ¬d.IsStuck fs) ∨
    ∃ l e, cache.entryDigest fs d = (cache, .error (.digest l e)) ∧ d.Unread fs l e := by
  unfold entryDigest
  split
  · next algorithm hkind hdigest =>
      unfold contentDigest Descriptor.contentLocation
      cases hcontent : d.content with
      | file l =>
          rcases fileDigest_cases hfrom l algorithm with
            ⟨next, digest, heq, hnext, hnot⟩ | ⟨e, heq, hread⟩
          · simp only [heq]
            refine Or.inl ⟨_, _, rfl, hnext, ?_⟩
            rintro ⟨-, -, l', e, hl', hspecial⟩
            cases hcontent.symm.trans hl'
            exact hnot e hspecial
          · simp only [heq]
            exact Or.inr ⟨l, e, rfl, hkind, hcontent, hread⟩
      | bytes _ | link _ | none =>
          refine Or.inl ⟨_, _, rfl, hfrom, fun hstuck => ?_⟩
          obtain ⟨l, e, hl, -⟩ := hstuck.special
          cases hcontent.symm.trans hl
  · next hnot =>
      refine Or.inl ⟨_, _, rfl, hfrom, ?_⟩
      rintro ⟨hkind, hdigest, -⟩
      obtain ⟨algorithm, hsome⟩ := Option.ne_none_iff_exists'.mp hdigest
      exact hnot algorithm hkind hsome

end Cache

/-! ### The hand-over -/

/-- Entries are all taken, or the hand-over ends at a file that cannot be read. -/
theorem Archive.takeAll_cases {β : Type} {archive : Archive β} (h : archive.Accepts)
    {fs : FileSystem} (state : HandOver β) (hfrom : state.cache.IsFrom fs)
    (ds : List Descriptor) :
    ((archive.takeAll fs state ds).refusal = none ∧ ∀ d ∈ ds, ¬d.IsStuck fs) ∨
    ∃ d ∈ ds, ∃ l e, d.Unread fs l e ∧
      (archive.takeAll fs state ds).refusal = some (.digest l e) := by
  induction ds generalizing state with
  | nil => exact Or.inl ⟨rfl, fun d hd => absurd hd List.not_mem_nil⟩
  | cons d rest ih =>
      rw [takeAll]
      rcases Cache.entryDigest_cases hfrom d with
        ⟨next, digest, heq, hnext, hnot⟩ | ⟨l, e, heq, hunread⟩
      · rw [heq]
        dsimp only [Reply.map, Reply.andThen]
        rw [h]
        rcases ih ⟨(archive.take state.archive d digest).state, next⟩ hnext with
          ⟨hnone, hrest⟩ | ⟨d', hd', l, e, hunread, hsome⟩
        · exact Or.inl ⟨hnone, List.forall_mem_cons.mpr ⟨hnot, hrest⟩⟩
        · exact Or.inr ⟨d', List.mem_cons_of_mem _ hd', l, e, hunread, hsome⟩
      · rw [heq]
        exact Or.inr ⟨d, List.mem_cons_self, l, e, hunread, rfl⟩

theorem Listing.writeTo_cases {β : Type} {archive : Archive β} (h : archive.Accepts)
    (fs : FileSystem) (state : β) (listing : Listing) :
    ((listing.writeTo archive fs ⟨state, {}⟩).2 = .ok listing.entries.length ∧
      ∀ d ∈ listing.entries, ¬d.IsStuck fs) ∨
    ∃ d ∈ listing.entries, ∃ l e, d.Unread fs l e ∧
      (listing.writeTo archive fs ⟨state, {}⟩).2 = .error (.digest l e) := by
  unfold writeTo
  dsimp only
  rcases Archive.takeAll_cases h ⟨state, {}⟩ (Cache.isFrom_empty fs) listing.entries with
    ⟨hnone, hnot⟩ | ⟨d, hd, l, e, hunread, hsome⟩
  · rw [hnone]
    exact Or.inl ⟨rfl, hnot⟩
  · rw [hsome]
    exact Or.inr ⟨d, hd, l, e, hunread, rfl⟩

namespace Plan

variable {plan : Plan} {fs : FileSystem} {entries : List Entry}

/-! ### A collected socket -/

/-- A directory `/t` with a socket `s` in it. -/
def socketTree : FileSystem where
  root := .directory [([0x74], .directory [([0x73], .special)])]

/-- The collection of `/t` under `/opt`. -/
def socketEntry : Entry where
  name := "/opt"
  collect := some { root := "/t" }

def socketFile : Descriptor where
  path := "/opt/s"
  kind := .file
  content := .file (.ofString "/t/s")
  metadata := .defaultFor .file
  digest := some .sha256

theorem socketTree_isLegal : socketTree.root.IsLegal := by
  refine .directory (by decide) (by decide) fun c hc => ?_
  obtain rfl := List.mem_singleton.mp hc
  refine .directory (by decide) (by decide) fun c hc => ?_
  obtain rfl := List.mem_singleton.mp hc
  exact .special _

theorem build_socketEntry :
    ({ registry := {} } : Plan).build socketTree [socketEntry] =
      .ok (Listing.empty.add socketFile, { resolved := 1 }) := by
  have hitems : Collection.items { root := "/t" } socketTree (.ofString "/t") =
      .ok [⟨"s", .file, .file (.ofString "/t/s")⟩] := by
    show Except.ok (Item.sorted [_]) = _
    rw [Item.sorted, List.mergeSort_singleton]
    rfl
  have hresolve : ({ registry := {} } : Plan).resolver.resolve socketTree socketEntry =
      .ok [socketFile] := by
    show (Collection.items { root := "/t" } socketTree (.ofString "/t")).bind _ = _
    rw [hitems]
    rfl
  have hskip : socketEntry.skip = false := rfl
  have hfill : ({ registry := {} } : Plan).fillFrom socketTree Listing.sink {} .empty
      [socketEntry] = (Listing.empty.add socketFile, .ok { resolved := 1 }) := by
    simp only [fillFrom, hskip, hresolve]
    rfl
  have hnone : ({ registry := {} } : Plan).intermediate = [] := rfl
  unfold build fill
  rw [if_pos hnone, hfill]
  rfl

/-! ### What was built -/

/-- Where an entry can take the content of a file there is a regular file, or a collection found
something else. -/
theorem node_of_sourceOf {resolver : Resolver} {entry : Entry} {l : Location}
    (hlegal : fs.root.IsLegal) (h : resolver.SourceOf fs entry l) :
    (∃ content, fs.node l = .ok (.file content)) ∨
      (∃ collection, entry.source = .ok (.collect collection)) ∧
        ((∃ reading, fs.node l = .ok (.special reading)) ∨
          FileSystem.maxLocation ≤ l.bytes.length ∧ fs.node l = .error .nameTooLong) := by
  cases h with
  | declared _ regular => exact Or.inl ⟨_, regular⟩
  | @collected collection dir node names source root directory found plain =>
      have hnolink : ∀ target, node ≠ .symlink target := by
        rintro target rfl
        rcases plain with ⟨reading, h⟩ | ⟨content, h⟩ <;> cases h
      rcases FileSystem.node_location hlegal root directory found hnolink with hnode | hlong
      · rcases plain with ⟨reading, rfl⟩ | ⟨content, rfl⟩
        · exact Or.inr ⟨⟨collection, source⟩, Or.inl ⟨reading, hnode⟩⟩
        · exact Or.inl ⟨content, hnode⟩
      · exact Or.inr ⟨⟨collection, source⟩, Or.inr hlong⟩

/-- **When a build can be handed over.**  Each file that is recorded has its content where there is
a regular file, unless a collection found a special file there or the location is too long.  If all
of them can be read, the listing is handed over as a whole; and if one is a special file that cannot
be read, the hand-over ends in an error of reading a file. -/
theorem writeTo_of_build (hlegal : fs.root.IsLegal) {listing : Listing} {report : Report}
    (hbuild : plan.build fs entries = .ok (listing, report)) {β : Type} {archive : Archive β}
    (haccepts : archive.Accepts) (state : β) :
    (∀ d ∈ listing.entries, d.kind = .file → ∃ entry ∈ entries, ∃ l,
      entry.skip = false ∧ plan.resolver.FileOf fs entry d l ∧
      ((∃ content, fs.node l = .ok (.file content)) ∨
        (∃ collection, entry.source = .ok (.collect collection)) ∧
          ((∃ reading, fs.node l = .ok (.special reading)) ∨
            FileSystem.maxLocation ≤ l.bytes.length ∧ fs.node l = .error .nameTooLong))) ∧
    ((∀ d ∈ listing.entries, ∀ l, d.kind = .file → d.content = .file l →
        ∃ content, fs.read l = .ok content) →
      (listing.writeTo archive fs ⟨state, {}⟩).2 = .ok listing.entries.length) ∧
    ((∃ d ∈ listing.entries, ∃ l e, d.kind = .file ∧ d.content = .file l ∧
        fs.node l = .ok (.special (.error e))) →
      ∃ d ∈ listing.entries, ∃ l e, d.Unread fs l e ∧
        (listing.writeTo archive fs ⟨state, {}⟩).2 = .error (.digest l e)) := by
  have hsource : ∀ d ∈ listing.entries, d.kind = .file → ∃ entry ∈ entries, ∃ l,
      entry.skip = false ∧ plan.resolver.FileOf fs entry d l := by
    intro d hd hkind
    obtain ⟨entry, hentry, hskip, l, hfile⟩ := source_of_build hlegal hbuild hd hkind
    exact ⟨entry, hentry, l, hskip, hfile⟩
  refine ⟨fun d hd hkind => ?_, fun hreadable => ?_, ?_⟩
  · obtain ⟨entry, hentry, l, hskip, hfile⟩ := hsource d hd hkind
    exact ⟨entry, hentry, l, hskip, hfile, node_of_sourceOf hlegal hfile.source⟩
  · rcases Listing.writeTo_cases haccepts fs state listing with
      ⟨hok, -⟩ | ⟨d, hd, l, e, hunread, -⟩
    · exact hok
    · obtain ⟨content, hread⟩ := hreadable d hd l hunread.kind hunread.content
      cases hread.symm.trans hunread.unread
  · rintro ⟨d, hd, l, e, hkind, hcontent, hspecial⟩
    obtain ⟨entry, -, l', -, hfile⟩ := hsource d hd hkind
    have hstuck : d.IsStuck fs :=
      ⟨hkind, by rw [hfile.digest]; exact Option.some_ne_none _, l, e, hcontent, hspecial⟩
    rcases Listing.writeTo_cases haccepts fs state listing with ⟨-, hnot⟩ | hfails
    · exact absurd hstuck (hnot d hd)
    · exact hfails

/-- The socket that is collected can be built and not handed over. -/
theorem writeTo_of_build_socket :
    socketTree.root.IsLegal ∧
    ({ registry := {} } : Plan).build socketTree [socketEntry] =
      .ok (Listing.empty.add socketFile, { resolved := 1 }) ∧
    Archive.Accepts ⟨fun count _ _ => ⟨count + 1, none⟩⟩ ∧
    ∃ d ∈ (Listing.empty.add socketFile).entries, ∃ l e, d.Unread socketTree l e ∧
      ((Listing.empty.add socketFile).writeTo ⟨fun count _ _ => ⟨count + 1, none⟩⟩ socketTree
        ⟨0, {}⟩).2 = .error (.digest l e) := by
  have haccepts : Archive.Accepts ⟨fun count _ _ => ⟨count + 1, none⟩⟩ := fun _ _ _ => rfl
  obtain ⟨-, -, hfails⟩ := writeTo_of_build socketTree_isLegal build_socketEntry haccepts 0
  exact ⟨socketTree_isLegal, build_socketEntry, haccepts,
    hfails ⟨socketFile, List.mem_singleton_self _, .ofString "/t/s", .noDevice, rfl, rfl, rfl⟩⟩

/-- A socket is collected as a file, and the listing cannot be handed over. -/
theorem collected_socket_not_written :
    ∃ listing report, ({ registry := {} } : Plan).build socketTree [socketEntry] =
        .ok (listing, report) ∧
      (listing.writeTo Record.archive socketTree ⟨{}, {}⟩).2 =
        .error (.digest (.ofString "/t/s") .noDevice) :=
  ⟨_, _, build_socketEntry, rfl⟩

end Plan

end ArchivePlan
