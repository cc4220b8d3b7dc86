import ArchivePlan.Proofs.Coverage

/-! # Which entries are kept

An entry goes to the end of the listing, unless it declares a directory that was only implied
before; then it is put into the slot of its path.  This is the slot of the implied directory, unless
another entry was added under the path in between: that entry is `Displaced`, and the implied
directory stays (`kept_iff_not_displaced`).

Once a slot is `Settled` no call puts anything into it.  Every slot but that of an implied directory
is, and the latter becomes so with the next entry under its path. -/

namespace ArchivePlan.ParentLayer

variable {layer : ParentLayer} {history : List Declaration} {state : Layered Listing}
  {d : Descriptor} {i : Nat}

/-- A slot of a path is not the one that a declaration of the directory would go to. -/
def Settled (state : Layered Listing) (path : String) (i : Nat) : Prop :=
  path ∈ state.provisional → ∃ k, state.inner.slot? path = some k ∧ i < k

/-- An entry stays in its slot under one more entry, unless this is a directory that goes there. -/
theorem Consistent.getElem?_add (h : layer.Consistent history state)
    (hentry : state.inner.entries[i]? = some d) {e : Descriptor}
    (hnot : ¬Supersedes state e i d) :
    (layer.add Listing.sink state e).state.inner.entries[i]? = some d := by
  obtain ⟨k, old, hs, heq⟩ | ⟨-, heq⟩ := h.add_cases e
  · rw [heq]
    have hki : k ≠ i := by
      rintro rfl
      obtain rfl := Option.some.inj (hs.entry.symm.trans hentry)
      exact hnot hs
    rw [superseded_entries, List.getElem?_set_ne hki, hentry]
  · have hi := (List.getElem?_eq_some_iff.mp hentry).1
    rw [heq, layer.recorded_entries, List.append_assoc, List.getElem?_append_left hi, hentry]

theorem Settled.not_supersedes (hs : Settled state d.path i) (e : Descriptor) :
    ¬Supersedes state e i d := by
  intro hsup
  have hp := hsup.provisional
  have hslot := hsup.slot
  rw [← hsup.path] at hp hslot
  obtain ⟨k, hk, hik⟩ := hs hp
  obtain rfl := Option.some.inj (hslot.symm.trans hk)
  exact Nat.lt_irrefl i hik

theorem Settled.add (h : layer.Consistent history state)
    (hentry : state.inner.entries[i]? = some d) (hs : Settled state d.path i) (e : Descriptor) :
    Settled (layer.add Listing.sink state e).state d.path i := by
  obtain ⟨k, old, -, heq⟩ | ⟨-, heq⟩ := h.add_cases e
  · rw [heq]
    exact fun hp => hs (mem_superseded_provisional.mp hp).1
  · rw [heq]
    intro hp
    have hindexed := layer.recorded_isIndexed h.indexed e
    rcases layer.mem_recorded_provisional.mp hp with hmissing | hp
    · obtain ⟨k, hk⟩ := List.mem_iff_getElem?.mp hmissing
      have hadded := layer.recorded_getElem?_missing hk
      obtain ⟨j, hj⟩ := hindexed.found _ (List.mem_of_getElem? hadded)
      have hlast := hindexed.last hj hadded rfl
      have hi := (List.getElem?_eq_some_iff.mp hentry).1
      exact ⟨j, hj, by omega⟩
    · obtain ⟨k, hk, hik⟩ := hs hp
      obtain ⟨j, hj, hkj⟩ :=
        Listing.slot?_le_of_grows hindexed h.indexed (layer.grows_recorded state e) hk
      exact ⟨j, hj, by omega⟩

/-- An entry in a settled slot is there for good. -/
theorem Settled.run (h : layer.Consistent history state)
    (hentry : state.inner.entries[i]? = some d) (hs : Settled state d.path i) (calls : List Call) :
    ((layer.sink Listing.sink).run state calls).inner.entries[i]? = some d := by
  have hrun := layer.run_induction
    (P := fun history state => layer.Consistent history state ∧
      state.inner.entries[i]? = some d ∧ Settled state d.path i)
    (fun root h => ⟨h.1.withCollection root, h.2⟩)
    (fun e ⟨h, hentry, hs⟩ =>
      ⟨h.add e, h.getElem?_add hentry (hs.not_supersedes e), hs.add h hentry e⟩)
    ⟨h, hentry, hs⟩ calls
  exact hrun.2.1

/-- The first entry of some calls under a path. -/
def firstAt (path : String) (calls : List Call) : Option Descriptor :=
  (Call.entries calls).find? fun e => e.path = path

theorem firstAt_cons_add (path : String) (e : Descriptor) (calls : List Call) :
    firstAt path (.add e :: calls) = if e.path = path then some e else firstAt path calls := by
  unfold firstAt
  rw [Call.entries_cons_add, List.find?_cons]
  by_cases hpath : e.path = path
  · simp [hpath]
  · simp [hpath]

@[simp] theorem firstAt_cons_enter (path root : String) (calls : List Call) :
    firstAt path (.enter root :: calls) = firstAt path calls :=
  congrArg (List.find? _) (Call.entries_cons_enter root calls)

@[simp] theorem firstAt_cons_leave (path : String) (calls : List Call) :
    firstAt path (.leave :: calls) = firstAt path calls := rfl

/-- An entry is in the slot to which a declaration of the directory at its path would go. -/
structure Exposed (state : Layered Listing) (d : Descriptor) (i : Nat) : Prop where
  provisional : d.path ∈ state.provisional
  slot : state.inner.slot? d.path = some i
  entry : state.inner.entries[i]? = some d

namespace Exposed

theorem add_of_ne (hx : Exposed state d i) (h : layer.Consistent history state) {e : Descriptor}
    (hne : e.path ≠ d.path) : Exposed (layer.add Listing.sink state e).state d i := by
  have hentry := h.getElem?_add hx.entry fun hs : Supersedes state e i d => hne hs.path.symm
  obtain ⟨k, old, -, heq⟩ | ⟨-, heq⟩ := h.add_cases e
  · refine ⟨?_, ?_, hentry⟩
    · rw [heq]
      exact mem_superseded_provisional.mpr ⟨hx.provisional, hne.symm⟩
    · rw [heq]
      exact hx.slot
  · have hnot : d.path ∉ layer.missing state e.path := fun hmissing =>
      (layer.mem_missing_iff.mp hmissing).2.1 (h.mem_emitted_of_provisional hx.provisional)
    refine ⟨?_, ?_, hentry⟩
    · rw [heq]
      exact layer.mem_recorded_provisional.mpr (Or.inr hx.provisional)
    · rw [heq, layer.recorded_slot?_of_ne hne hnot, hx.slot]

/-- A directory takes the slot of an exposed entry and keeps it. -/
theorem run_of_directory (hx : Exposed state d i) (h : layer.Consistent history state)
    {e : Descriptor} (hpath : e.path = d.path) (hdir : e.isDirectory = true) (calls : List Call) :
    ((layer.sink Listing.sink).run (layer.add Listing.sink state e).state
      calls).inner.entries[i]? = some e := by
  have hprovisional : e.path ∈ state.provisional := by
    rw [hpath]
    exact hx.provisional
  obtain ⟨k, old, hs, heq⟩ | ⟨hnot, -⟩ := h.add_cases e
  · have hk := hs.slot
    rw [hpath, hx.slot] at hk
    obtain rfl := Option.some.inj hk
    have hsettled : Settled (layer.add Listing.sink state e).state e.path i := by
      rw [heq]
      exact fun hmem => absurd rfl (mem_superseded_provisional.mp hmem).2
    refine hsettled.run (h.add e) ?_ calls
    rw [heq]
    exact hs.getElem?_self
  · exact absurd ⟨hdir, hprovisional⟩ hnot

theorem run_of_entry (hx : Exposed state d i) (h : layer.Consistent history state)
    {e : Descriptor} (hpath : e.path = d.path) (hdir : e.isDirectory = false) (calls : List Call) :
    ((layer.sink Listing.sink).run (layer.add Listing.sink state e).state
      calls).inner.entries[i]? = some d := by
  have hnot : ¬e.isDirectory = true := by simp [hdir]
  have hkept := h.getElem?_add hx.entry fun hs : Supersedes state e i d => hnot hs.isDirectory
  refine Settled.run (h.add e) hkept (fun _ => ?_) calls
  have hi := h.indexed.lt_length hx.slot
  rw [layer.add_listing, if_neg fun h => hnot h.1, ← hpath]
  exact ⟨_, layer.recorded_slot? state e, by omega⟩

/-- An exposed entry stays until a directory is declared at its path before anything else is. -/
theorem run_iff (hx : Exposed state d i) (h : layer.Consistent history state)
    (hd : d.isDirectory = false) (calls : List Call) :
    ((layer.sink Listing.sink).run state calls).inner.entries[i]? = some d ↔
      ¬∃ e, firstAt d.path calls = some e ∧ e.isDirectory = true := by
  induction calls generalizing history state with
  | nil => exact iff_of_true hx.entry (by rintro ⟨e, he, -⟩; cases he)
  | cons c calls ih =>
      cases c with
      | add e =>
          rw [firstAt_cons_add]
          by_cases hpath : e.path = d.path
          · rw [if_pos hpath]
            cases hdir : e.isDirectory with
            | true =>
                refine iff_of_false ?_ (not_not_intro ⟨e, rfl, hdir⟩)
                intro hkept
                have hthere := hx.run_of_directory h hpath hdir calls
                rw [Option.some.inj (hthere.symm.trans hkept), hd] at hdir
                cases hdir
            | false =>
                refine iff_of_true (hx.run_of_entry h hpath hdir calls) ?_
                rintro ⟨e', he', hdir'⟩
                rw [← Option.some.inj he', hdir] at hdir'
                cases hdir'
          · rw [if_neg hpath]
            exact ih (hx.add_of_ne h hpath) (h.add e)
      | enter root =>
          rw [firstAt_cons_enter]
          exact ih ⟨hx.provisional, hx.slot, hx.entry⟩ (h.withCollection (some root))
      | leave =>
          rw [firstAt_cons_leave]
          exact ih ⟨hx.provisional, hx.slot, hx.entry⟩ (h.withCollection none)

end Exposed

/-! ### What the slot of an implied directory holds -/

variable (layer) in
/-- An entry was declared at the path of a directory that was needed before. -/
def Shadowed (history : List Declaration) (path : String) : Prop :=
  ∃ before x rest, history = before ++ x :: rest ∧ x.entry.path = path ∧ layer.Needed before path

theorem shadowed_concat {x : Declaration} {path : String} :
    layer.Shadowed (history ++ [x]) path ↔
      layer.Shadowed history path ∨ x.entry.path = path ∧ layer.Needed history path := by
  constructor
  · rintro ⟨before, y, rest, heq, hpath, hneeded⟩
    rcases List.eq_nil_or_concat' rest with rfl | ⟨rest, z, rfl⟩
    · obtain ⟨rfl, hy⟩ := List.append_inj' heq rfl
      obtain rfl := List.singleton_inj.mp hy
      exact Or.inr ⟨hpath, hneeded⟩
    · rw [← List.cons_append, ← List.append_assoc] at heq
      exact Or.inl ⟨before, y, rest, (List.append_inj' heq rfl).1, hpath, hneeded⟩
  · rintro (⟨before, y, rest, rfl, hpath, hneeded⟩ | ⟨hpath, hneeded⟩)
    · exact ⟨before, y, rest ++ [x], by simp, hpath, hneeded⟩
    · exact ⟨history, x, [], rfl, hpath, hneeded⟩

theorem Shadowed.needed {path : String} (h : layer.Shadowed history path) :
    layer.Needed history path := by
  obtain ⟨before, x, rest, rfl, -, y, hy, hneeds⟩ := h
  exact ⟨y, List.mem_append_left _ hy, hneeds⟩

variable (layer) in
/-- The slot of an implied directory holds its entry, or one that was declared over it. -/
def Occupied (history : List Declaration) (state : Layered Listing) : Prop :=
  ∀ path ∈ state.provisional, ∃ i e, state.inner.slot? path = some i ∧
    state.inner.entries[i]? = some e ∧
    (¬layer.Shadowed history path ∧ e = layer.parentEntry path ∨
      layer.Shadowed history path ∧ e.isDirectory = false)

theorem Consistent.slot_of_missing (h : layer.Consistent history state) {path : String}
    (hmissing : path ∈ layer.missing state d.path) :
    ∃ i, (layer.recorded state d).inner.slot? path = some i ∧
      (layer.recorded state d).inner.entries[i]? = some (layer.parentEntry path) := by
  have hindexed := layer.recorded_isIndexed h.indexed d
  obtain ⟨k, hk⟩ := List.mem_iff_getElem?.mp hmissing
  have hadded := layer.recorded_getElem?_missing hk
  obtain ⟨i, hi⟩ := hindexed.found _ (List.mem_of_getElem? hadded)
  rw [parentEntry_path] at hi
  obtain ⟨e, he, hpath⟩ := hindexed.holds hi
  have hlast := hindexed.last hi hadded rfl
  refine ⟨i, hi, ?_⟩
  -- nothing that comes behind the added directory has its path
  rw [layer.recorded_entries, List.append_assoc, List.getElem?_append_right (by omega)] at he ⊢
  rw [he]
  rcases List.mem_append.mp (List.mem_of_getElem? he) with hmem | hmem
  · obtain ⟨directory, -, rfl⟩ := List.mem_map.mp hmem
    rw [← hpath]
    rfl
  · obtain rfl := List.mem_singleton.mp hmem
    rw [← hpath] at hmissing
    exact absurd (layer.mem_missing_iff.mp hmissing).1 (Target.not_mem_ancestors_self _)

theorem Occupied.add (ho : layer.Occupied history state) (h : layer.Consistent history state)
    (d : Descriptor) :
    layer.Occupied (history ++ [⟨state.collection, d⟩])
      (layer.add Listing.sink state d).state := by
  intro path hp
  by_cases hold : path ∈ state.provisional
  · obtain ⟨i, e, hslot, hentry, hcase⟩ := ho path hold
    by_cases hpath : d.path = path
    · subst hpath
      have hnone := (((h.add d).provisional d.path).mp hp).2
      have hneeded := (h.mem_provisional_iff.mp hold).1
      have hdir : d.isDirectory = false := by
        rw [Bool.eq_false_iff]
        exact fun hdir => hnone ⟨_, List.mem_append_right _ List.mem_cons_self, hdir, rfl⟩
      rw [layer.add_listing, if_neg (by simp [hdir])]
      refine ⟨_, d, layer.recorded_slot? state d, ?_,
        Or.inr ⟨shadowed_concat.mpr (Or.inr ⟨rfl, hneeded⟩), hdir⟩⟩
      rw [layer.recorded_entries]
      simp
    · obtain ⟨e', he', rfl⟩ := h.indexed.holds hslot
      obtain rfl := Option.some.inj (hentry.symm.trans he')
      have hx := Exposed.add_of_ne ⟨hold, hslot, hentry⟩ h hpath
      have hsame : layer.Shadowed (history ++ [⟨state.collection, d⟩]) e.path ↔
          layer.Shadowed history e.path := by
        rw [shadowed_concat]
        exact or_iff_left fun hover => hpath hover.1
      refine ⟨i, e, hx.slot, hx.entry, ?_⟩
      rw [hsame]
      exact hcase
  · obtain ⟨k, old, -, heq⟩ | ⟨-, heq⟩ := h.add_cases d
    · rw [heq] at hp
      exact absurd (mem_superseded_provisional.mp hp).1 hold
    · rw [heq] at hp ⊢
      have hmissing := (layer.mem_recorded_provisional.mp hp).resolve_right hold
      have hfresh := (layer.mem_missing_iff.mp hmissing).2.1
      have hnot : ¬layer.Needed history path := fun hneeded =>
        hfresh ((h.emitted path).mpr (Or.inl hneeded))
      obtain ⟨i, hi, hentry⟩ := h.slot_of_missing hmissing
      refine ⟨i, _, hi, hentry, Or.inl ⟨?_, rfl⟩⟩
      rw [shadowed_concat]
      rintro (hshadowed | ⟨-, hneeded⟩)
      · exact hnot hshadowed.needed
      · exact hnot hneeded

theorem occupied_after (calls : List Call) :
    layer.Occupied (Call.declarations none calls) (layer.after calls) :=
  layer.after_induction (fun _ hp => absurd hp List.not_mem_nil) (fun _ ho => ho)
    (fun d h ho => ho.add h d) calls

/-! ### Every entry -/

variable (layer)

/-- A later call puts a directory into the slot of an entry that is none: the directory was implied
before the entry, and is declared before anything else comes under the path. -/
def Displaced (before later : List Call) (d : Descriptor) : Prop :=
  d.isDirectory = false ∧ layer.Implied (Call.declarations none before) d.path ∧
    ∃ e, firstAt d.path later = some e ∧ e.isDirectory = true

/-- A directory replaces the entry of the implied directory at its path, or the last one that was
declared over this, and nothing else changes. -/
def Replaces (before : List Call) (d : Descriptor) : Prop :=
  ∃ i old, (layer.after before).inner.slot? d.path = some i ∧
    (layer.after before).inner.entries[i]? = some old ∧ old.path = d.path ∧
    (layer.after (before ++ [.add d])).inner.entries =
      (layer.after before).inner.entries.set i d ∧
    (¬layer.Shadowed (Call.declarations none before) d.path ∧ old = layer.parentEntry d.path ∨
      layer.Shadowed (Call.declarations none before) d.path ∧ old.isDirectory = false ∧
        old ∈ Call.entries before)

/-- An entry comes behind the others, with the directories that are added before it. -/
def Extends (before : List Call) (d : Descriptor) : Prop :=
  ∃ added : List String, (layer.after (before ++ [.add d])).inner.entries =
    (layer.after before).inner.entries ++ added.map layer.parentEntry ++ [d]

/-- What one more entry does to the slots depends on whether it declares an implied directory. -/
theorem replaces_or_extends (before : List Call) (d : Descriptor) :
    (d.isDirectory = true ∧ layer.Implied (Call.declarations none before) d.path) ∧
        layer.Replaces before d ∨
      ¬(d.isDirectory = true ∧ layer.Implied (Call.declarations none before) d.path) ∧
        layer.Extends before d := by
  have h := layer.consistent_after before
  rw [← h.mem_provisional_iff]
  obtain ⟨i, old, hs, heq⟩ | ⟨hnot, heq⟩ := h.add_cases d
  · refine Or.inl ⟨⟨hs.isDirectory, hs.provisional⟩, i, old, hs.slot, hs.entry, hs.path, ?_, ?_⟩
    · rw [layer.after_concat_add, heq]
      rfl
    · obtain ⟨j, e, hj, he, hcase⟩ := layer.occupied_after before d.path hs.provisional
      obtain rfl := Option.some.inj (hs.slot.symm.trans hj)
      obtain rfl := Option.some.inj (hs.entry.symm.trans he)
      rcases hcase with hparent | ⟨hshadowed, holddir⟩
      · exact Or.inl hparent
      · refine Or.inr ⟨hshadowed, holddir, ?_⟩
        rcases h.origin old (List.mem_of_getElem? hs.entry) with ⟨x, hx, rfl⟩ | ⟨directory, rfl⟩
        · exact List.mem_map_of_mem hx
        · cases holddir
  · exact Or.inr ⟨hnot, _, by rw [layer.after_concat_add, heq, layer.recorded_entries]⟩

/-- **An entry is kept unless it is displaced.**  A directory that was only implied before replaces
one entry, and everything else goes to the end; and an entry stays in its slot whatever comes later
if and only if it is not `Displaced`. -/
theorem kept_iff_not_displaced (before later : List Call) (d : Descriptor) :
    ((d.isDirectory = true ∧ layer.Implied (Call.declarations none before) d.path) ∧
        layer.Replaces before d ∨
      ¬(d.isDirectory = true ∧ layer.Implied (Call.declarations none before) d.path) ∧
        layer.Extends before d) ∧
    ∃ i, (layer.after (before ++ [.add d])).inner.slot? d.path = some i ∧
      (layer.after (before ++ [.add d])).inner.entries[i]? = some d ∧
      ((layer.after (before ++ .add d :: later)).inner.entries[i]? = some d ↔
        ¬layer.Displaced before later d) := by
  refine ⟨layer.replaces_or_extends before d, ?_⟩
  have h := layer.consistent_after before
  have hnext := h.add d
  obtain ⟨i, hslot, hentry, -⟩ := h.slot_of_add d
  have hprovisional : d.path ∈ (layer.add Listing.sink (layer.after before) d).state.provisional ↔
      d.isDirectory = false ∧ layer.Implied (Call.declarations none before) d.path := by
    rw [hnext.mem_provisional_iff]
    exact layer.implied_concat_self (x := ⟨_, d⟩)
  have hlater : layer.after (before ++ .add d :: later) =
      (layer.sink Listing.sink).run (layer.add Listing.sink (layer.after before) d).state later :=
    layer.after_append before (.add d :: later)
  rw [layer.after_concat_add, hlater]
  refine ⟨i, hslot, hentry, ?_⟩
  by_cases hp : d.path ∈ (layer.add Listing.sink (layer.after before) d).state.provisional
  · obtain ⟨hdir, himplied⟩ := hprovisional.mp hp
    have hx : Exposed (layer.add Listing.sink (layer.after before) d).state d i :=
      ⟨hp, hslot, hentry⟩
    rw [hx.run_iff hnext hdir later, Displaced]
    simp [hdir, himplied]
  · have hsettled : Settled (layer.add Listing.sink (layer.after before) d).state d.path i :=
      fun h => absurd h hp
    refine iff_of_true (hsettled.run hnext hentry later) ?_
    rintro ⟨hdir, himplied, -⟩
    exact hp (hprovisional.mpr ⟨hdir, himplied⟩)

/-- A file is lost: `/a` is implied by `/a/b`, and the directory declared there replaces the file of
the same path and not the implied directory, so that `/a` is recorded as a directory twice. -/
theorem file_displaced_by_directory :
    (⟨"/a", .file, .bytes [1], .defaultFor .file, none⟩ : Descriptor) ∈ Call.entries
        [.add ⟨"/a/b", .file, .bytes [0], .defaultFor .file, none⟩,
          .add ⟨"/a", .file, .bytes [1], .defaultFor .file, none⟩,
          .add ⟨"/a", .directory, .none, .defaultFor .directory, none⟩] ∧
    (after { registry := {}, bases := ["/"] }
        [.add ⟨"/a/b", .file, .bytes [0], .defaultFor .file, none⟩,
          .add ⟨"/a", .file, .bytes [1], .defaultFor .file, none⟩,
          .add ⟨"/a", .directory, .none, .defaultFor .directory, none⟩]).inner.entries =
      [parentEntry { registry := {}, bases := ["/"] } "/a",
        ⟨"/a/b", .file, .bytes [0], .defaultFor .file, none⟩,
        ⟨"/a", .directory, .none, .defaultFor .directory, none⟩] := by
  refine ⟨?_, rfl⟩
  simp

end ArchivePlan.ParentLayer
