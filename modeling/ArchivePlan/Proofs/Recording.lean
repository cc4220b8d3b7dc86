import ArchivePlan.Sink.Listing
import Mathlib.Data.List.Basic

/-! # How a listing changes

The slot under which a listing finds a path is the last one that holds it (`IsIndexed`), whatever
was added and whichever directories were put in the place of others.  `Grows` says what both kinds
of change have in common: no slot is given up, its path stays, and a directory stays one.  So what
was recorded before a slot stays recorded before it (`RecordedBefore.grows`). -/

namespace ArchivePlan.Listing

variable {listing : Listing}

/-! ### The slot of a path -/

@[simp] theorem entries_add (d : Descriptor) : (listing.add d).entries = listing.entries ++ [d] := rfl

theorem slot?_add (d : Descriptor) (path : String) :
    (listing.add d).slot? path =
      if path = d.path then some listing.entries.length else listing.slot? path := by
  unfold slot? add
  rw [List.lookup_cons]
  by_cases h : path = d.path
  · simp [h]
  · have hkey : (path == d.path) = false := by simpa using h
    rw [hkey, if_neg h]

theorem supersede_of_slot? {d : Descriptor} {i : Nat} (h : listing.slot? d.path = some i) :
    listing.supersede d = { listing with entries := listing.entries.set i d } := by
  unfold supersede
  rw [h]

/-- Every path that is recorded has a slot, and the slot of a path is the last that holds it. -/
structure IsIndexed (listing : Listing) : Prop where
  found : ∀ e ∈ listing.entries, ∃ i, listing.slot? e.path = some i
  holds : ∀ {path i}, listing.slot? path = some i →
    ∃ e, listing.entries[i]? = some e ∧ e.path = path
  last : ∀ {path i j e}, listing.slot? path = some i → listing.entries[j]? = some e →
    e.path = path → j ≤ i

theorem isIndexed_empty : IsIndexed .empty where
  found e he := absurd he List.not_mem_nil
  holds h := by cases h
  last h := by cases h

theorem IsIndexed.lt_length (h : listing.IsIndexed) {path : String} {i : Nat}
    (hslot : listing.slot? path = some i) : i < listing.entries.length := by
  obtain ⟨e, he, -⟩ := h.holds hslot
  exact (List.getElem?_eq_some_iff.mp he).1

theorem IsIndexed.add (h : listing.IsIndexed) (d : Descriptor) : (listing.add d).IsIndexed where
  found e he := by
    rw [slot?_add]
    split
    · exact ⟨_, rfl⟩
    · next hne =>
        rw [entries_add, List.mem_append, List.mem_singleton] at he
        rcases he with he | rfl
        · exact h.found e he
        · exact absurd rfl hne
  holds {path i} hslot := by
    rw [slot?_add] at hslot
    split at hslot
    · next heq =>
        obtain rfl := Option.some.inj hslot
        exact ⟨d, by simp, heq.symm⟩
    · obtain ⟨e, he, hpath⟩ := h.holds hslot
      exact ⟨e, by rw [entries_add, List.getElem?_append_left (h.lt_length hslot), he], hpath⟩
  last {path i j e} hslot he hpath := by
    have hj : j ≤ listing.entries.length := by
      have hlt := (List.getElem?_eq_some_iff.mp he).1
      rw [entries_add, List.length_append, List.length_singleton] at hlt
      omega
    rw [slot?_add] at hslot
    split at hslot
    · obtain rfl := Option.some.inj hslot
      exact hj
    · next hne =>
        rcases Nat.lt_or_eq_of_le hj with hlt | rfl
        · rw [entries_add, List.getElem?_append_left hlt] at he
          exact h.last hslot he hpath
        · rw [entries_add, List.getElem?_concat_length] at he
          exact absurd (by rw [Option.some.inj he, hpath]) hne

theorem IsIndexed.set (h : listing.IsIndexed) {d : Descriptor} {i : Nat}
    (hslot : listing.slot? d.path = some i) :
    IsIndexed { listing with entries := listing.entries.set i d } where
  found e he := by
    rcases List.mem_or_eq_of_mem_set he with he | rfl
    · exact h.found e he
    · exact ⟨i, hslot⟩
  holds {path k} hk := by
    obtain ⟨e, he, hpath⟩ := h.holds hk
    by_cases hik : i = k
    · subst hik
      refine ⟨d, by simp [h.lt_length hslot], ?_⟩
      obtain ⟨old, hold, holdpath⟩ := h.holds hslot
      rw [he] at hold
      rw [← holdpath, ← hpath, Option.some.inj hold]
    · exact ⟨e, by simpa [hik] using he, hpath⟩
  last {path k j e} hk he hpath := by
    by_cases hij : i = j
    · subst hij
      rw [List.getElem?_set_self (h.lt_length hslot)] at he
      obtain ⟨old, hold, holdpath⟩ := h.holds hslot
      refine h.last hk hold ?_
      rw [holdpath, Option.some.inj he, hpath]
    · rw [List.getElem?_set_ne hij] at he
      exact h.last hk he hpath

theorem map_set {α : Type} (f : Descriptor → α) {entries : List Descriptor} {i : Nat}
    {d old : Descriptor} (hold : entries[i]? = some old) (heq : f old = f d) :
    (entries.set i d).map f = entries.map f := by
  obtain ⟨hi, rfl⟩ := List.getElem?_eq_some_iff.mp hold
  rw [List.map_set, ← heq]
  simp [← List.map_set]

/-! ### Several entries -/

def addMany (listing : Listing) (ds : List Descriptor) : Listing :=
  ds.foldl Listing.add listing

@[simp] theorem entries_addMany (ds : List Descriptor) :
    (listing.addMany ds).entries = listing.entries ++ ds := by
  unfold addMany
  induction ds generalizing listing with
  | nil => simp
  | cons d ds ih => rw [List.foldl_cons, ih, entries_add, List.append_assoc, List.singleton_append]

theorem slot?_addMany_of_ne {ds : List Descriptor} {path : String} (h : ∀ d ∈ ds, d.path ≠ path) :
    (listing.addMany ds).slot? path = listing.slot? path := by
  unfold addMany
  induction ds generalizing listing with
  | nil => rfl
  | cons d ds ih =>
      rw [List.foldl_cons, ih fun e he => h e (List.mem_cons_of_mem _ he), slot?_add,
        if_neg (h d List.mem_cons_self).symm]

theorem IsIndexed.addMany (h : listing.IsIndexed) (ds : List Descriptor) :
    (listing.addMany ds).IsIndexed := by
  unfold Listing.addMany
  induction ds generalizing listing with
  | nil => exact h
  | cons d ds ih => exact ih (h.add d)

/-! ### Growth -/

/-- No slot is given up: each keeps its path, and if it holds a directory, a directory. -/
def Grows (old new : List Descriptor) : Prop :=
  ∀ (i : Nat) (e : Descriptor), old[i]? = some e → ∃ e', new[i]? = some e' ∧ e'.path = e.path ∧
    (e.isDirectory = true → e'.isDirectory = true)

theorem Grows.refl (entries : List Descriptor) : Grows entries entries := fun _ e he =>
  ⟨e, he, rfl, id⟩

theorem Grows.trans {a b c : List Descriptor} (h : Grows a b) (h' : Grows b c) : Grows a c := by
  intro i e he
  obtain ⟨e', he', hpath, hdir⟩ := h i e he
  obtain ⟨e'', he'', hpath', hdir'⟩ := h' i e' he'
  exact ⟨e'', he'', hpath'.trans hpath, fun hd => hdir' (hdir hd)⟩

theorem grows_append (entries more : List Descriptor) : Grows entries (entries ++ more) := by
  intro i e he
  have hi := (List.getElem?_eq_some_iff.mp he).1
  exact ⟨e, by rw [List.getElem?_append_left hi, he], rfl, id⟩

theorem grows_set {entries : List Descriptor} {d old : Descriptor} {i : Nat}
    (hdir : d.isDirectory = true) (hold : entries[i]? = some old) (hpath : old.path = d.path) :
    Grows entries (entries.set i d) := by
  intro j e he
  by_cases hij : i = j
  · subst hij
    obtain rfl := Option.some.inj (hold.symm.trans he)
    exact ⟨d, by simp [(List.getElem?_eq_some_iff.mp hold).1], hpath.symm, fun _ => hdir⟩
  · exact ⟨e, by rwa [List.getElem?_set_ne hij], rfl, id⟩

theorem slot?_le_of_grows {old new : Listing} (hnew : new.IsIndexed) (hold : old.IsIndexed)
    (h : Grows old.entries new.entries) {path : String} {i : Nat}
    (hslot : old.slot? path = some i) : ∃ j, new.slot? path = some j ∧ i ≤ j := by
  obtain ⟨e, he, rfl⟩ := hold.holds hslot
  obtain ⟨e', he', hpath, -⟩ := h i e he
  obtain ⟨j, hj⟩ := hnew.found e' (List.mem_of_getElem? he')
  rw [hpath] at hj
  exact ⟨j, hj, hnew.last hj he' hpath⟩

/-- A directory is recorded somewhere before a slot. -/
def RecordedBefore (entries : List Descriptor) (i : Nat) (directory : String) : Prop :=
  ∃ j < i, ∃ e, entries[j]? = some e ∧ e.isDirectory = true ∧ e.path = directory

theorem RecordedBefore.grows {old new : List Descriptor} {i j : Nat} {directory : String}
    (h : RecordedBefore old i directory) (hgrows : Grows old new) (hij : i ≤ j) :
    RecordedBefore new j directory := by
  obtain ⟨k, hk, e, he, hdir, hpath⟩ := h
  obtain ⟨e', he', hpath', hdir'⟩ := hgrows k e he
  exact ⟨k, by omega, e', he', hdir' hdir, hpath'.trans hpath⟩

theorem recordedBefore_of_mem {entries : List Descriptor} {e : Descriptor} (he : e ∈ entries)
    (hdir : e.isDirectory = true) : RecordedBefore entries entries.length e.path := by
  obtain ⟨j, hj, hje⟩ := List.mem_iff_getElem.mp he
  exact ⟨j, hj, e, by rw [List.getElem?_eq_getElem hj, hje], hdir, rfl⟩

end ArchivePlan.Listing
