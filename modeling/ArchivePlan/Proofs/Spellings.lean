import ArchivePlan.Proofs.Following
import ArchivePlan.Proofs.Separators
import ArchivePlan.Proofs.Snapshots

/-! # Spellings of a location

Locations with the same key differ in slashes and in parts `.` only.  Where one of them leads to
something that can be read, each other one leads there too, unless its spelling is at fault: parts
that are no components stand behind the last component, which asks for a directory there, or it is
too long (`FileSystem.read_of_key_eq`).

A cache does not tell such locations apart.  So on a file system that does not change a lookup gives
what reading the very location gives, except that a location with a fault in its spelling gets the
digest of the file, if another location with its key was looked up before
(`Cache.fileDigest_of_unchanged`).  A slash behind the name of a file is enough for that
(`Cache.fileDigest_of_slash`). -/

namespace ArchivePlan

/-! ### Adding parts that are passed over -/

namespace Location

/-- The last part is no component: where it is followed there has to be a directory. -/
def EndsOpen (parts : List Bytes) : Prop :=
  ∃ part, parts.getLast? = some part ∧ isComponent part = false

variable {parts parts' rest : List Bytes}

theorem EndsOpen.append (before : List Bytes) (h : EndsOpen rest) : EndsOpen (before ++ rest) := by
  obtain ⟨part, hlast, hpart⟩ := h
  exact ⟨part, by rw [List.getLast?_append, hlast, Option.some_or], hpart⟩

theorem EndsOpen.of_append {before : List Bytes} (h : EndsOpen (before ++ rest)) (hne : rest ≠ []) :
    EndsOpen rest := by
  obtain ⟨part, hlast, hpart⟩ := h
  rw [List.getLast?_append_of_ne_nil _ hne] at hlast
  exact ⟨part, hlast, hpart⟩

theorem endsOpen_of_sparser_nil (h : Sparser parts []) (hne : parts ≠ []) : EndsOpen parts := by
  induction parts with
  | nil => exact absurd rfl hne
  | cons part rest ih =>
      cases h with
      | drop hpart hrest =>
          cases rest with
          | nil => exact ⟨part, rfl, hpart⟩
          | cons next rest => exact (ih hrest (List.cons_ne_nil _ _)).append [part]

/-- What can be wrong with the spelling of a location. -/
inductive FaultOf (l : Location) : IoError → Prop
  /-- It asks for a directory. -/
  | endsOpen (h : EndsOpen l.parts) : FaultOf l .notDirectory
  | long (h : FileSystem.maxLocation ≤ l.bytes.length) : FaultOf l .nameTooLong

end Location

namespace FileSystem

open Location (Sparser EndsOpen isComponent)

variable {fs : FileSystem} {place found : List Name} {parts parts' rest : List Bytes}

theorem Advances.suffix_of_link {halt : Halt} {target : Bytes} (h : fs.Advances place parts halt)
    (hhalt : halt = .link found target rest) : rest <:+ parts := by
  induction h with
  | skip _ _ ih | up _ ih | down _ _ _ ih => exact (ih hhalt).trans (List.suffix_cons _ _)
  | link =>
      cases hhalt
      exact List.suffix_cons _ _
  | stop | gap | last => cases hhalt

/-- Parts lead to a halt, maybe with more left to pass over there, or they stop behind a file
because they end open. -/
def Reaches (fs : FileSystem) (place : List Name) (parts : List Bytes) (halt : Halt) : Prop :=
  (∃ halt', fs.Advances place parts halt' ∧ Thinned halt' halt) ∨
    fs.advance place parts = .error .notDirectory ∧ EndsOpen parts

theorem Reaches.cons {halt : Halt} {place' : List Name} {part : Bytes}
    (hcons : fs.advance place (part :: parts) = fs.advance place' parts)
    (h : fs.Reaches place' parts halt) : fs.Reaches place (part :: parts) halt := by
  rcases h with ⟨halt', h', hthinned⟩ | ⟨herror, hopen⟩
  · exact Or.inl ⟨halt', advance_eq_ok_iff.mp (hcons.trans (advance_eq_ok_iff.mpr h')), hthinned⟩
  · exact Or.inr ⟨hcons.trans herror, hopen.append [part]⟩

/-- Parts that are added are passed over, unless they stand behind a file. -/
theorem Advances.denser {halt : Halt} (h : fs.Advances place parts' halt)
    (hparts : Sparser parts parts') : fs.Reaches place parts halt := by
  induction hparts generalizing place with
  | nil => exact Or.inl ⟨halt, h, .refl halt⟩
  | drop hpart _ ih => exact (ih h).cons (advance_skip hpart)
  | @keep part parts _ hparts ih =>
      cases h with
      | skip hpart h => exact (ih h).cons (advance_skip hpart)
      | up h => exact (ih h).cons advance_up
      | down hname hchild h => exact (ih h).cons ((advance_name _ _ hname _).2.1 _ hchild)
      | link hname hchild => exact Or.inl ⟨_, .link hname hchild _, .link _ _ hparts⟩
      | gap hname hchild => exact Or.inl ⟨_, .gap hname hchild _, .gap _ hparts⟩
      | last hname hchild hnode hplain =>
          by_cases hempty : parts = []
          · subst hempty
            exact Or.inl ⟨_, .last hname hchild hnode hplain, .node _ _⟩
          · have herror := (advance_name fs place hname parts).2.2.2 _ hchild hnode hplain
            rw [if_neg hempty] at herror
            exact Or.inr ⟨herror, (Location.endsOpen_of_sparser_nil hparts hempty).append [part]⟩

theorem Follows.denser {links : Nat} {result : List Name × Node}
    (h : fs.Follows links place parts' result) (hparts : Sparser parts parts') :
    fs.Follows links place parts result ∨
      fs.follow links place parts = .error .notDirectory ∧ EndsOpen parts := by
  induction h generalizing parts with
  | stop h =>
      rcases h.denser hparts with ⟨_, h', ⟨⟩⟩ | ⟨herror, hopen⟩
      · exact Or.inl (.stop h')
      · refine Or.inr ⟨?_, hopen⟩
        unfold follow
        rw [herror]
  | @link links place found parts' rest' target result h hrest ih =>
      rcases h.denser hparts with ⟨_, h', hthinned⟩ | ⟨herror, hopen⟩
      · cases hthinned with
        | @link _ _ rest _ hsparser =>
            by_cases hempty : rest = []
            · -- nothing is added behind the link
              subst hempty
              cases hsparser
              exact Or.inl (.link h' hrest)
            · rcases ih ((Sparser.refl _).append hsparser) with hfollows | ⟨herror, hopen⟩
              · exact Or.inl (.link h' hfollows)
              · refine Or.inr ⟨?_, ?_⟩
                · unfold follow
                  rw [advance_eq_ok_iff.mpr h']
                  exact herror
                · obtain ⟨before, rfl⟩ := h'.suffix_of_link rfl
                  exact (hopen.of_append hempty).append before
      · refine Or.inr ⟨?_, hopen⟩
        unfold follow
        rw [herror]

end FileSystem

/-! ### Locations with the same key -/

namespace Location

variable {l l' : Location}

theorem bytes_ne_nil_of_key_eq (hkey : l.key = l'.key) (hne : l'.bytes ≠ []) : l.bytes ≠ [] := by
  intro hempty
  have hl : l.key = (false, []) := by
    cases l
    cases hempty
    rfl
  obtain ⟨habsolute, hcomponents⟩ := Prod.mk.inj (hkey.symm.trans hl)
  obtain ⟨b, rest, hbytes⟩ := List.exists_cons_of_ne_nil hne
  have hb : b ≠ slash := by
    rintro rfl
    simp [isAbsolute, hbytes] at habsolute
  -- so the first part is a component
  obtain ⟨part, more, hrest⟩ := List.exists_cons_of_ne_nil (List.splitOn_ne_nil slash rest)
  unfold components parts at hcomponents
  rw [hbytes, Text.splitOn_cons_of_ne hb hrest] at hcomponents
  simp at hcomponents

theorem mem_bytes_of_key_eq (hkey : l.key = l'.key) {b : UInt8} (hslash : b ≠ slash)
    (hdot : b ≠ dot) (h : b ∈ l.bytes) : b ∈ l'.bytes := by
  rcases Text.eq_or_exists_mem_splitOn slash h with rfl | ⟨part, hpart, hb⟩
  · exact absurd rfl hslash
  · have hcomponent : isComponent part = true := by
      rw [← Bool.not_eq_false, isComponent_eq_false_iff]
      rintro (rfl | rfl)
      · cases hb
      · exact hdot (List.mem_singleton.mp hb)
    have hpart' : part ∈ l'.parts := by
      have hfilter := List.mem_filter.mpr ⟨hpart, hcomponent⟩
      have heq := filter_parts_of_key_eq hkey
      unfold parts at heq
      rw [heq] at hfilter
      exact (List.mem_filter.mp hfilter).1
    exact Text.mem_of_mem_splitOn hpart' hb

end Location

namespace FileSystem

open Location (Sparser isComponent)

variable {fs : FileSystem} {l l' : Location}

/-- What is read at a location is read at others with its key too, unless their spelling is at
fault. -/
theorem read_of_key_eq (hkey : l.key = l'.key) {content : Bytes} (h : fs.read l' = .ok content) :
    fs.read l = .ok content ∨ ∃ e, fs.read l = .error e ∧ l.FaultOf e := by
  obtain ⟨node, hnode, hreading⟩ := read_eq_ok_iff.mp h
  obtain ⟨place, hresolve⟩ := node_eq_ok_iff.mp hnode
  obtain ⟨⟨hnul, hne, -⟩, hfollows⟩ := resolve_eq_ok_iff.mp hresolve
  have hread : ∀ e, fs.resolve l = .error e → fs.read l = .error e := by
    intro e herror
    unfold read FileSystem.node
    rw [herror]
    rfl
  have hnul' : 0 ∉ l.bytes := fun hmem =>
    hnul (Location.mem_bytes_of_key_eq hkey (by decide) (by decide) hmem)
  have hne' := Location.bytes_ne_nil_of_key_eq hkey hne
  by_cases hlong : maxLocation ≤ l.bytes.length
  · refine Or.inr ⟨.nameTooLong, hread _ ?_, .long hlong⟩
    unfold resolve check
    rw [if_neg hnul', if_neg hne', if_pos hlong]
  · have hcheck := check_eq_ok_iff.mpr ⟨hnul', hne', Nat.lt_of_not_le hlong⟩
    -- both locations have the same components, followed from the same place
    have hsparse := hfollows.sparser (.filter l'.parts)
    rw [← Location.filter_parts_of_key_eq hkey, ← startOf_of_key_eq hkey] at hsparse
    rcases hsparse.denser (.filter l.parts) with hfollows | ⟨herror, hopen⟩
    · have hfound := resolve_eq_ok_iff.mpr ⟨check_eq_ok_iff.mp hcheck, hfollows⟩
      exact Or.inl (read_eq_ok_iff.mpr ⟨node, node_eq_ok_iff.mpr ⟨place, hfound⟩, hreading⟩)
    · refine Or.inr ⟨.notDirectory, hread _ ?_, .endsOpen hopen⟩
      unfold resolve
      rw [hcheck]
      exact herror

end FileSystem

/-! ### A file system that does not change -/

namespace Cache

/-- Lookups of files, one after the other, while the file system stays as it is. -/
def lookupsAt (fs : FileSystem) (lookups : List (Location × Algorithm)) : List Inquiry :=
  lookups.map fun lookup => ⟨fs, .file lookup.1 lookup.2⟩

/-- A cache after some files were looked up. -/
def afterLookups (fs : FileSystem) (lookups : List (Location × Algorithm)) : Cache :=
  after (lookupsAt fs lookups)

variable {fs : FileSystem} {lookups : List (Location × Algorithm)} {key : DigestKey}

theorem exists_of_firstRead_lookups {content : Bytes}
    (h : firstRead (lookupsAt fs lookups) key = some content) :
    ∃ l, (l, key.2) ∈ lookups ∧ l.key = key.1 ∧ fs.read l = .ok content := by
  obtain ⟨inquiry, hinquiry, hreads⟩ := List.exists_of_findSome?_eq_some h
  obtain ⟨⟨l, algorithm⟩, hmem, rfl⟩ := List.mem_map.mp hinquiry
  obtain ⟨_, _, ⟨⟩, rfl, hread⟩ := reads_eq_some_iff.mp hreads
  exact ⟨l, hmem, rfl, hread⟩

theorem firstRead_lookups_ne_none {l : Location} {algorithm : Algorithm} {content : Bytes}
    (hmem : (l, algorithm) ∈ lookups) (hread : fs.read l = .ok content) :
    firstRead (lookupsAt fs lookups) (l.key, algorithm) ≠ none := by
  intro hnone
  have hreads := List.findSome?_eq_none_iff.mp hnone _ (List.mem_map_of_mem hmem)
  rw [reads_eq_some_iff.mpr ⟨l, algorithm, rfl, rfl, hread⟩] at hreads
  cases hreads

/-- **Lookups on a file system that does not change.**  Whatever was looked up before, a lookup
gives what reading the file at that very location gives.  The exception is a location that cannot be
read because of a fault in its spelling: if a location with the same key was looked up before with
the same algorithm and could be read, the digest of that one is given.  Wherever there was such a
lookup before, its digest is given. -/
theorem fileDigest_of_unchanged (fs : FileSystem) (before : List (Location × Algorithm))
    (l : Location) (algorithm : Algorithm) :
    (((afterLookups fs before).fileDigest fs l algorithm).2 = fs.digest l algorithm ∨
      ∃ l' digest e, (l', algorithm) ∈ before ∧ l'.key = l.key ∧
        fs.digest l' algorithm = .ok digest ∧ fs.digest l algorithm = .error e ∧ l.FaultOf e ∧
        ((afterLookups fs before).fileDigest fs l algorithm).2 = .ok digest) ∧
    ∀ l' digest, (l', algorithm) ∈ before → l'.key = l.key →
      fs.digest l' algorithm = .ok digest →
      ((afterLookups fs before).fileDigest fs l algorithm).2 = .ok digest := by
  unfold afterLookups
  rw [fileDigest_after]
  simp only [FileSystem.digest_eq_map_read]
  constructor
  · cases hfirst : firstRead (lookupsAt fs before) (l.key, algorithm) with
    | none => exact Or.inl rfl
    | some content =>
        obtain ⟨l', hmem, hkey, hread⟩ := exists_of_firstRead_lookups hfirst
        rcases FileSystem.read_of_key_eq hkey.symm hread with hsame | ⟨e, herror, hfault⟩
        · rw [hsame]
          exact Or.inl rfl
        · refine Or.inr ⟨l', algorithm.hexDigest content, e, hmem, hkey, ?_, ?_, hfault, rfl⟩
          · rw [hread]
            rfl
          · rw [herror]
            rfl
  · intro l' digest hmem hkey hdigest
    cases hread : fs.read l' with
    | error e =>
        rw [hread] at hdigest
        cases hdigest
    | ok content =>
        rw [hread] at hdigest
        cases hdigest
        obtain ⟨content', hfirst⟩ :=
          Option.ne_none_iff_exists'.mp (firstRead_lookups_ne_none hmem hread)
        obtain ⟨l₀, -, hkey₀, hread₀⟩ := exists_of_firstRead_lookups hfirst
        obtain rfl := FileSystem.content_of_key_eq hkey₀ hread₀ hread
        rw [← hkey, hfirst]

/-- A file `f` at the root, which is the working directory. -/
def singleFile : FileSystem where
  root := .directory [([0x66], .file [0x78])]

/-- With a slash behind its name a file cannot be read, but its digest is given once it is kept. -/
theorem fileDigest_of_slash :
    ((afterLookups singleFile [(.ofString "f", .sha256)]).fileDigest singleFile (.ofString "f/")
      .sha256).2 = .ok (Algorithm.sha256.hexDigestPieces (FileSystem.pieces [0x78])) ∧
    singleFile.digest (.ofString "f/") .sha256 = .error .notDirectory ∧
    ¬∀ (fs : FileSystem) (before : List (Location × Algorithm)) (l : Location)
      (algorithm : Algorithm),
      ((afterLookups fs before).fileDigest fs l algorithm).2 = fs.digest l algorithm := by
  have hkept : ((afterLookups singleFile [(.ofString "f", .sha256)]).fileDigest singleFile
      (.ofString "f/") .sha256).2 =
        .ok (Algorithm.sha256.hexDigestPieces (FileSystem.pieces [0x78])) := rfl
  have hdirect : singleFile.digest (.ofString "f/") .sha256 = .error .notDirectory := rfl
  refine ⟨hkept, hdirect, fun hall => ?_⟩
  have heq := hall singleFile [(.ofString "f", .sha256)] (.ofString "f/") .sha256
  cases hkept.symm.trans (heq.trans hdirect)

end Cache

end ArchivePlan
