import ArchivePlan.Proofs.Requests

/-! # The slots of recorded paths

A listing keeps its entries twice: in order, and by the slot under which it finds a path.  Both
kinds of change keep the two in step (`IsIndexed.add`, `IsIndexed.supersede`), so after any requests
the slot of a path is the last that holds it, and exactly the recorded paths have one
(`slots_after`). -/

namespace ArchivePlan.Listing

/-- A slot is the last one that holds a path. -/
structure IsLastSlot (entries : List Descriptor) (path : String) (i : Nat) : Prop where
  holds : ∃ e, entries[i]? = some e ∧ e.path = path
  last : ∀ j e, entries[j]? = some e → e.path = path → j ≤ i

variable {listing : Listing} {d : Descriptor} {path : String} {i : Nat}

/-! ### Finding a path -/

namespace IsIndexed

theorem slot?_eq_some_iff (h : listing.IsIndexed) :
    listing.slot? path = some i ↔ IsLastSlot listing.entries path i := by
  constructor
  · exact fun hslot => ⟨h.holds hslot, fun j e => h.last hslot⟩
  · rintro ⟨⟨e, he, rfl⟩, hlast⟩
    obtain ⟨k, hk⟩ := h.found e (List.mem_of_getElem? he)
    obtain ⟨e', he', hpath⟩ := h.holds hk
    have hik : i ≤ k := h.last hk he rfl
    have hki : k ≤ i := hlast k e' he' hpath
    rw [hk, Nat.le_antisymm hki hik]

theorem slot?_eq_none_iff (h : listing.IsIndexed) :
    listing.slot? path = none ↔ path ∉ listing.paths := by
  unfold paths
  rw [List.mem_map]
  constructor
  · rintro hnone ⟨e, he, rfl⟩
    obtain ⟨i, hi⟩ := h.found e he
    rw [hnone] at hi
    cases hi
  · intro hpath
    by_contra hsome
    obtain ⟨i, hi⟩ := Option.ne_none_iff_exists'.mp hsome
    obtain ⟨e, he, rfl⟩ := h.holds hi
    exact hpath ⟨e, List.mem_of_getElem? he, rfl⟩

theorem get?_of_slot? (h : listing.IsIndexed) (hslot : listing.slot? path = some i) :
    ∃ e, listing.entries[i]? = some e ∧ e.path = path ∧ listing.get? path = some e := by
  obtain ⟨e, he, hpath⟩ := h.holds hslot
  refine ⟨e, he, hpath, ?_⟩
  unfold get?
  rw [hslot]
  exact he

/-! ### Putting an entry in the place of another -/

/-- An entry goes into the slot of its path, so the paths stay as they are. -/
theorem paths_supersede (h : listing.IsIndexed) (hslot : listing.slot? d.path = some i) :
    (listing.supersede d).paths = listing.paths := by
  obtain ⟨e, he, hpath⟩ := h.holds hslot
  rw [supersede_of_slot? hslot]
  exact map_set (·.path) he hpath

theorem supersede (h : listing.IsIndexed) (d : Descriptor) : (listing.supersede d).IsIndexed := by
  cases hslot : listing.slot? d.path with
  | none =>
      unfold Listing.supersede
      rw [hslot]
      exact h.add d
  | some i =>
      rw [supersede_of_slot? hslot]
      exact h.set hslot

end IsIndexed

/-! ### After any requests -/

def after (requests : List Request) : Listing :=
  Listing.sink.serveAll .empty requests

theorem after_concat (requests : List Request) (request : Request) :
    after (requests ++ [request]) = (Listing.sink.serve (after requests) request).state := by
  unfold after Sink.serveAll
  rw [List.foldl_append]
  rfl

theorem isIndexed_after (requests : List Request) : (after requests).IsIndexed := by
  refine Sink.serveAll_induction isIndexed_empty (fun listing request h => ?_) requests
  cases request with
  | add d => exact h.add d
  | supersede d => exact h.supersede d
  | enter root => exact h
  | leave => exact h

/-- **The slots of recorded paths.**  After any requests to an empty listing, the slot of a path is
the last one that holds it, the paths that are recorded have one and no others, and the entry found
under a path is the one in its slot.  A further entry is added behind the others, and none of them
changes.  An entry that supersedes goes into the slot of its path and changes nothing else, neither
the other slots nor the recorded paths; if its path is not recorded it is added.  None of this is
ever refused. -/
theorem slots_after (requests : List Request) :
    (∀ path i, (after requests).slot? path = some i ↔
      IsLastSlot (after requests).entries path i) ∧
    (∀ path, path ∈ (after requests).paths → ∃ i e, (after requests).slot? path = some i ∧
      (after requests).entries[i]? = some e ∧ e.path = path ∧
      (after requests).get? path = some e) ∧
    (∀ path, path ∉ (after requests).paths →
      (after requests).slot? path = none ∧ (after requests).get? path = none) ∧
    (∀ d, ∃ next, Listing.sink.add (after requests) d = ⟨next, none⟩ ∧
      next = after (requests ++ [.add d]) ∧ next.entries = (after requests).entries ++ [d]) ∧
    (∀ d i, (after requests).slot? d.path = some i →
      ∃ next, Listing.sink.supersede (after requests) d = ⟨next, none⟩ ∧
        next = after (requests ++ [.supersede d]) ∧
        next.entries.length = (after requests).entries.length ∧
        next.paths = (after requests).paths ∧ next.entries[i]? = some d ∧
        ∀ j ≠ i, next.entries[j]? = (after requests).entries[j]?) ∧
    ∀ d, d.path ∉ (after requests).paths →
      Listing.sink.supersede (after requests) d = Listing.sink.add (after requests) d := by
  have h := isIndexed_after requests
  refine ⟨fun path i => h.slot?_eq_some_iff, fun path hpath => ?_, fun path hpath => ?_,
    fun d => ⟨_, rfl, (after_concat requests (.add d)).symm, rfl⟩, fun d i hslot => ?_,
    fun d hpath => ?_⟩
  · have hsome := mt h.slot?_eq_none_iff.mp (not_not.mpr hpath)
    obtain ⟨i, hslot⟩ := Option.ne_none_iff_exists'.mp hsome
    obtain ⟨e, he, hepath, hget⟩ := h.get?_of_slot? hslot
    exact ⟨i, e, hslot, he, hepath, hget⟩
  · have hnone := h.slot?_eq_none_iff.mpr hpath
    refine ⟨hnone, ?_⟩
    unfold get?
    rw [hnone]
    rfl
  · refine ⟨_, rfl, (after_concat requests (.supersede d)).symm, ?_, h.paths_supersede hslot, ?_⟩
    · rw [supersede_of_slot? hslot, List.length_set]
    · rw [supersede_of_slot? hslot]
      exact ⟨List.getElem?_set_self (h.lt_length hslot), fun j hj => List.getElem?_set_ne hj.symm⟩
  · have hnone := h.slot?_eq_none_iff.mpr hpath
    show Reply.mk ((after requests).supersede d) none = _
    unfold Listing.supersede
    rw [hnone]
    rfl

end ArchivePlan.Listing
