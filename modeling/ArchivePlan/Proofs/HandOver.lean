import ArchivePlan.Proofs.Separators
import ArchivePlan.Proofs.Writing

/-! # What an archive receives

Locations that are spelled plainly have a key each (`Location.eq_of_key_eq`), so a cache that has
seen only such locations answers as the files do (`Cache.Mirrors`).  Then a hand-over is told by the
entries alone: each goes with the digest of its own content (`Descriptor.GoesWith`), and the entries
are received in order up to the first that cannot be read or is refused (`Archive.Ends`,
`Listing.handed_of_writeTo`).  An archive that notes down what it is handed (`Archive.noting`) shows
what that is. -/

namespace ArchivePlan

/-! ### Plain spellings -/

namespace Location

variable {l l' : Location}

/-- No slash is repeated or stands at the end, and no part is a dot. -/
structure IsTidy (l : Location) : Prop where
  no_slashes : ¬[slash, slash] <:+: l.bytes
  no_trailing : l.bytes.getLast? ≠ some slash
  no_dots : [dot] ∉ l.parts

theorem isComponent_of_isTidy (h : l.IsTidy) {part : Bytes} (hpart : part ∈ l.parts.tail) :
    isComponent part = true := by
  have hempty : part ≠ [] := by
    rintro rfl
    rcases Text.nil_mem_tail_splitOn_iff.mp hpart with hslashes | htrailing
    · exact h.no_slashes hslashes
    · exact h.no_trailing htrailing
  have hdot : part ≠ [dot] := by
    rintro rfl
    exact h.no_dots (List.mem_of_mem_tail hpart)
  simp [isComponent, hempty, hdot]

/-- The parts of a location that is spelled plainly are its components, behind an empty one if it
starts at the root. -/
theorem parts_of_isTidy (h : l.IsTidy) :
    l.parts = if l.isAbsolute then [] :: l.components
      else if l.components = [] then [[]] else l.components := by
  obtain ⟨first, rest, hparts⟩ := List.exists_cons_of_ne_nil (List.splitOn_ne_nil slash l.bytes)
  have hkeep : rest.filter isComponent = rest :=
    List.filter_eq_self.mpr fun part hpart => isComponent_of_isTidy h (by
      rw [parts, hparts]
      exact hpart)
  have hfirst : first = [] ↔ l.bytes = [] ∨ l.isAbsolute = true := by
    rw [isAbsolute, beq_iff_eq, ← Text.head?_splitOn_eq_nil_iff, hparts, List.head?_cons,
      Option.some_inj]
  unfold components
  rw [parts, hparts]
  simp only [hkeep]
  cases habsolute : l.isAbsolute with
  | true => simp [hfirst.mpr (Or.inr habsolute)]
  | false =>
      by_cases hempty : first = []
      · -- nothing is written at all
        obtain hbytes | htrue := hfirst.mp hempty
        · rw [hbytes] at hparts
          cases hparts
          rfl
        · cases habsolute.symm.trans htrue
      · simp [hempty]

theorem eq_of_key_eq (h : l.IsTidy) (h' : l'.IsTidy) (hkey : l.key = l'.key) : l = l' := by
  obtain ⟨habsolute, hcomponents⟩ := Prod.mk.inj hkey
  have hparts : l.parts = l'.parts := by
    rw [parts_of_isTidy h, parts_of_isTidy h', habsolute, hcomponents]
  have hbytes : l.bytes = l'.bytes := by
    have hjoined := congrArg [slash].intercalate hparts
    rwa [parts, parts, List.intercalate_splitOn, List.intercalate_splitOn] at hjoined
  cases l
  cases l'
  cases hbytes
  rfl

end Location

/-! ### The digest of an entry -/

/-- An archive entry goes with the digest of its content if it is a file with a policy and has
content, and with none otherwise. -/
inductive Descriptor.GoesWith (fs : FileSystem) (d : Descriptor) : Option String → Prop
  | file {algorithm : Algorithm} {l : Location} {content : Bytes} (kind : d.kind = .file)
      (policy : d.digest = some algorithm) (source : d.content = .file l)
      (readable : fs.read l = .ok content) : GoesWith fs d (some (algorithm.hexDigest content))
  | bytes {algorithm : Algorithm} {bytes : Bytes} (kind : d.kind = .file)
      (policy : d.digest = some algorithm) (source : d.content = .bytes bytes) :
      GoesWith fs d (some (algorithm.hexDigest bytes))
  | none (h : d.kind ≠ .file ∨ d.digest = .none ∨
      (∀ l, d.content ≠ .file l) ∧ ∀ bytes, d.content ≠ .bytes bytes) : GoesWith fs d none

namespace Cache

/-- What is kept for tidy locations are the digests of the files that they lead to. -/
def Mirrors (fs : FileSystem) (cache : Cache) : Prop :=
  ∀ (l : Location) (algorithm : Algorithm) (digest : String), l.IsTidy →
    cache.digests.lookup (l.key, algorithm) = some digest →
      ∃ content, fs.read l = .ok content ∧ digest = algorithm.hexDigest content

variable {fs : FileSystem} {cache : Cache} {l : Location}

theorem mirrors_empty (fs : FileSystem) : Mirrors fs {} :=
  fun _ _ _ _ hkept => nomatch hkept

/-- Reading the file is what a lookup comes to, whether it reads or not. -/
theorem Mirrors.fileDigest (h : cache.Mirrors fs) (htidy : l.IsTidy) (algorithm : Algorithm) :
    (∃ next content, cache.fileDigest fs l algorithm =
        (next, .ok (algorithm.hexDigest content)) ∧ fs.read l = .ok content ∧ next.Mirrors fs) ∨
      ∃ e, cache.fileDigest fs l algorithm = (cache, .error e) ∧ fs.read l = .error e := by
  have hlooks := cache.looks fs l algorithm
  generalize cache.fileDigest fs l algorithm = result at hlooks ⊢
  cases hlooks with
  | @hit digest kept =>
      obtain ⟨content, hread, rfl⟩ := h l algorithm digest htidy kept
      exact Or.inl ⟨_, content, rfl, hread, h⟩
  | @read content missing readable =>
      refine Or.inl ⟨_, content, rfl, readable, ?_⟩
      intro l' algorithm' digest htidy' hkept
      rw [List.lookup_cons] at hkept
      split at hkept
      · next hsame =>
          -- no other tidy location has this key
          obtain ⟨hkey, rfl⟩ := Prod.mk.inj (eq_of_beq hsame)
          cases Location.eq_of_key_eq htidy' htidy hkey
          exact ⟨content, readable, (Option.some.inj hkept).symm⟩
      · exact h l' algorithm' digest htidy' hkept
  | fail missing unreadable => exact Or.inr ⟨_, rfl, unreadable⟩

theorem Mirrors.entryDigest (h : cache.Mirrors fs) {d : Descriptor}
    (htidy : ∀ l, d.content = .file l → l.IsTidy) :
    (∃ next digest, cache.entryDigest fs d = (next, .ok digest) ∧ next.Mirrors fs ∧
        d.GoesWith fs digest) ∨
      ∃ l e, cache.entryDigest fs d = (cache, .error (.digest l e)) ∧ d.Unread fs l e ∧
        d.digest ≠ none := by
  unfold Cache.entryDigest
  split
  · next algorithm hkind hpolicy =>
      unfold contentDigest Descriptor.contentLocation
      cases hcontent : d.content with
      | file l =>
          rcases h.fileDigest (htidy l hcontent) algorithm with
            ⟨next, content, heq, hread, hnext⟩ | ⟨e, heq, hread⟩
          · simp only [heq]
            exact Or.inl ⟨_, _, rfl, hnext, .file hkind hpolicy hcontent hread⟩
          · simp only [heq]
            exact Or.inr ⟨l, e, rfl, ⟨hkind, hcontent, hread⟩, by simp [hpolicy]⟩
      | bytes bytes => exact Or.inl ⟨_, _, rfl, h, .bytes hkind hpolicy hcontent⟩
      | link _ | none => exact Or.inl ⟨_, _, rfl, h, .none (by simp [hcontent])⟩
  · next hnot =>
      refine Or.inl ⟨_, _, rfl, h, .none ?_⟩
      by_cases hkind : d.kind = .file
      · refine Or.inr (Or.inl (Option.eq_none_iff_forall_ne_some.mpr fun algorithm hpolicy => ?_))
        exact hnot algorithm hkind hpolicy
      · exact Or.inl hkind

end Cache

/-! ### The hand-over -/

namespace Archive

variable {β : Type} (archive : Archive β)

/-- The state of an archive after some entries were handed over with their digests. -/
def run (state : β) (handed : List (Descriptor × Option String)) : β :=
  handed.foldl (fun state h => (archive.take state h.1 h.2).state) state

/-- An archive takes entries with their digests, one after the other. -/
def Takes (state : β) : List (Descriptor × Option String) → Prop
  | [] => True
  | h :: rest =>
    (archive.take state h.1 h.2).refusal = none ∧ Takes (archive.take state h.1 h.2).state rest

/-- An archive that notes down what it is handed before it answers. -/
def noting : Archive (β × List (Descriptor × Option String)) where
  take state d digest :=
    (archive.take state.1 d digest).map fun next => (next, state.2 ++ [(d, digest)])

/-- How a hand-over of entries can end once some were handed over. -/
inductive Ends (fs : FileSystem) (state : β) (ds : List Descriptor)
    (handed : List (Descriptor × Option String)) : Option PlanError → Prop
  | complete (all : handed.map (·.1) = ds) (taken : archive.Takes state handed) :
      Ends fs state ds handed none
  /-- The next file cannot be read. -/
  | unread {d : Descriptor} {rest : List Descriptor} {l : Location} {e : IoError}
      (before : ds = handed.map (·.1) ++ d :: rest) (taken : archive.Takes state handed)
      (policy : d.digest ≠ none) (unread : d.Unread fs l e) :
      Ends fs state ds handed (some (.digest l e))
  /-- The last entry is refused. -/
  | refused (earlier : List (Descriptor × Option String)) (d : Descriptor)
      (digest : Option String) {rest : List Descriptor} {e : PlanError}
      (before : ds = handed.map (·.1) ++ rest) (last : handed = earlier ++ [(d, digest)])
      (taken : archive.Takes state earlier)
      (refused : (archive.take (archive.run state earlier) d digest).refusal = some e) :
      Ends fs state ds handed (some e)

variable {archive} {fs : FileSystem} {state : β} {ds : List Descriptor}
  {handed : List (Descriptor × Option String)}

theorem takes_append (before after : List (Descriptor × Option String)) :
    archive.Takes state (before ++ after) ↔
      archive.Takes state before ∧ archive.Takes (archive.run state before) after := by
  induction before generalizing state with
  | nil => exact (iff_of_eq (true_and _)).symm
  | cons h before ih =>
      rw [List.cons_append, Takes, Takes, ih, and_assoc]
      exact Iff.rfl

theorem Ends.eq_none_iff {refusal : Option PlanError}
    (h : archive.Ends fs state ds handed refusal) :
    refusal = none ↔ handed.map (·.1) = ds ∧ archive.Takes state handed := by
  cases h with
  | complete all taken => exact iff_of_true rfl ⟨all, taken⟩
  | unread before =>
      refine iff_of_false (by rintro ⟨⟩) ?_
      rintro ⟨all, -⟩
      rw [all] at before
      simpa using congrArg List.length before
  | refused _ _ _ _ last _ refused =>
      refine iff_of_false (by rintro ⟨⟩) ?_
      rintro ⟨-, taken⟩
      rw [last, takes_append] at taken
      cases refused.symm.trans taken.2.1

theorem Ends.cons {d : Descriptor} {digest : Option String} {refusal : Option PlanError}
    (htake : (archive.take state d digest).refusal = none)
    (h : archive.Ends fs (archive.take state d digest).state ds handed refusal) :
    archive.Ends fs state (d :: ds) ((d, digest) :: handed) refusal := by
  cases h with
  | complete all taken => exact .complete (congrArg (d :: ·) all) ⟨htake, taken⟩
  | unread before taken policy unread =>
      exact .unread (congrArg (d :: ·) before) ⟨htake, taken⟩ policy unread
  | refused earlier other otherDigest before last taken refused =>
      refine .refused ((d, digest) :: earlier) other otherDigest (congrArg (d :: ·) before) ?_
        ⟨htake, taken⟩ refused
      rw [last, List.cons_append]

/-- Entries are handed over with the digests they go with, and it is noted in this order. -/
theorem exists_handed (archive : Archive β) (state : β)
    (htidy : ∀ d ∈ ds, ∀ l, d.content = .file l → l.IsTidy) {cache : Cache}
    (hcache : cache.Mirrors fs) (notes : List (Descriptor × Option String)) :
    ∃ handed,
      archive.noting.takeAll fs ⟨(state, notes), cache⟩ ds =
        (archive.takeAll fs ⟨state, cache⟩ ds).map
          (fun next => ⟨(next.archive, notes ++ handed), next.cache⟩) ∧
      (∀ h ∈ handed, h.1.GoesWith fs h.2) ∧
      archive.Ends fs state ds handed (archive.takeAll fs ⟨state, cache⟩ ds).refusal := by
  induction ds generalizing state cache notes with
  | nil =>
      refine ⟨[], ?_, fun h hh => absurd hh List.not_mem_nil, .complete rfl trivial⟩
      rw [List.append_nil]
      rfl
  | cons d rest ih =>
      rw [takeAll, takeAll]
      rcases hcache.entryDigest (htidy d List.mem_cons_self) with
        ⟨next, digest, heq, hnext, hgoes⟩ | ⟨l, e, heq, hunread, hpolicy⟩
      · simp only [heq]
        cases htake : (archive.take state d digest).refusal with
        | none =>
            obtain ⟨handed, hnoting, hhanded, hends⟩ :=
              ih (archive.take state d digest).state
                (fun d' hd' => htidy d' (List.mem_cons_of_mem _ hd')) hnext
                (notes ++ [(d, digest)])
            refine ⟨(d, digest) :: handed, ?_, List.forall_mem_cons.mpr ⟨hgoes, hhanded⟩, ?_⟩
            · simp only [noting, Reply.map, Reply.andThen, htake] at hnoting ⊢
              rw [hnoting]
              simp
            · simp only [Reply.map, Reply.andThen, htake]
              exact hends.cons htake
        | some e =>
            refine ⟨[(d, digest)], ?_, List.forall_mem_singleton.mpr hgoes, ?_⟩
            · simp only [noting, Reply.map, Reply.andThen, htake]
            · simp only [Reply.map, Reply.andThen, htake]
              exact .refused [] d digest rfl rfl trivial htake
      · simp only [heq]
        refine ⟨[], ?_, fun h hh => absurd hh List.not_mem_nil, ?_⟩
        · simp only [Reply.map, List.append_nil]
        · exact .unread rfl trivial hpolicy hunread

end Archive

namespace Listing

variable {fs : FileSystem} {listing : Listing}

/-- **An archive receives a faithful prefix of a listing.**  What it is handed is noted in `handed`,
which changes nothing else.  Each entry goes with the digest of its content if it is a file with a
policy, its content being bytes or that of the file at its location.  The hand-over is refused
nowhere if and only if all entries are handed over in order and taken, and its result is their
number then.  Otherwise `handed` is a part of the entries from the first on, and the result is the
error of reading the file behind them, or the reason why the archive refuses the last of them. -/
theorem handed_of_writeTo
    (htidy : ∀ d ∈ listing.entries, ∀ l, d.content = .file l → l.IsTidy) {β : Type}
    (archive : Archive β) (state : β) :
    ∃ handed refusal,
      (listing.writeTo archive.noting fs ⟨(state, []), {}⟩).1.archive =
        ((listing.writeTo archive fs ⟨state, {}⟩).1.archive, handed) ∧
      (listing.writeTo archive.noting fs ⟨(state, []), {}⟩).2 =
        (listing.writeTo archive fs ⟨state, {}⟩).2 ∧
      (∀ h ∈ handed, h.1.GoesWith fs h.2) ∧
      archive.Ends fs state listing.entries handed refusal ∧
      (refusal = none ↔ handed.map (·.1) = listing.entries ∧ archive.Takes state handed) ∧
      (listing.writeTo archive fs ⟨state, {}⟩).2 =
        refusal.elim (.ok listing.entries.length) .error := by
  obtain ⟨handed, hnoting, hhanded, hends⟩ :=
    archive.exists_handed state htidy (Cache.mirrors_empty fs) []
  unfold writeTo
  rw [hnoting]
  generalize archive.takeAll fs ⟨state, {}⟩ listing.entries = reply at hends ⊢
  refine ⟨handed, reply.refusal, ?_, ?_, hhanded, hends, hends.eq_none_iff, ?_⟩
  all_goals
    dsimp only [Reply.map]
    cases reply.refusal <;> rfl

/-- A file `f` and a socket `s` at the root. -/
def mixedTree : FileSystem where
  root := .directory [([0x66], .file [0x78]), ([0x73], .special)]

/-- A link, the file, the socket and the file once more. -/
def mixedListing : Listing where
  entries := [
    { path := "/l", kind := .symlink, content := .link "f", metadata := .defaultFor .symlink },
    { path := "/f", kind := .file, content := .file (.ofString "/f")
      metadata := .defaultFor .file, digest := some .sha256 },
    { path := "/s", kind := .file, content := .file (.ofString "/s")
      metadata := .defaultFor .file, digest := some .md5 },
    { path := "/g", kind := .file, content := .file (.ofString "/f")
      metadata := .defaultFor .file, digest := some .sha256 }]

/-- The link and the file are received, and then the socket cannot be read. -/
theorem handed_of_writeTo_mixed :
    (∀ d ∈ mixedListing.entries, ∀ l, d.content = .file l → l.IsTidy) ∧
    ∃ handed,
      (mixedListing.writeTo Record.archive.noting mixedTree ⟨({}, []), {}⟩).1.archive.2 = handed ∧
      handed.map (·.1) = mixedListing.entries.take 2 ∧
      (∀ h ∈ handed, h.1.GoesWith mixedTree h.2) ∧
      (mixedListing.writeTo Record.archive mixedTree ⟨{}, {}⟩).2 =
        .error (.digest (.ofString "/s") .noDevice) := by
  have htidy : ∀ d ∈ mixedListing.entries, ∀ l, d.content = .file l → l.IsTidy := by
    intro d hd l hl
    simp only [mixedListing, List.mem_cons, List.not_mem_nil, or_false] at hd
    rcases hd with rfl | rfl | rfl | rfl
    · cases hl
    all_goals
      cases hl
      exact ⟨by decide, by decide, by decide⟩
  obtain ⟨handed, refusal, hnoting, -, hgoes, -⟩ :=
    @handed_of_writeTo mixedTree _ htidy _ Record.archive {}
  have hhanded : (mixedListing.writeTo Record.archive.noting mixedTree
      ⟨({}, []), {}⟩).1.archive.2 = handed := congrArg Prod.snd hnoting
  refine ⟨htidy, handed, hhanded, ?_, hgoes, rfl⟩
  rw [← hhanded]
  rfl

end Listing

end ArchivePlan
