import ArchivePlan.Proofs.Separators
import ArchivePlan.Target

/-! # The directories a target path lies in

`ancestors` cuts a path before its slashes and `isWithin` compares texts.  For any two texts,
`mem_ancestors_iff` and `isWithin_iff` say what each of them finds, which is enough for the order of
the directories (`ancestors_pairwise_length`) and for how they lie in each other.

A canonical path is made of its components (`IsCanonical.isRendered`).  For such paths `isWithin`
compares components (`isWithin_iff_isBelow`), and the directories are made of the proper prefixes of
the components, shallowest first (`ancestors_eq_parents`, `mem_ancestors_iff_isParent`,
`ancestors_pairwise_depth`). -/

namespace ArchivePlan.Target

/-! ### Any path -/

theorem mem_ancestorsFrom_iff {done rest directory : List Char} :
    directory ∈ ancestorsFrom done rest ↔
      directory ≠ [] ∧ ∃ before after, rest = before ++ '/' :: after ∧ directory = done ++ before := by
  induction rest generalizing done with
  | nil => simp [ancestorsFrom]
  | cons c rest ih =>
      have hlater : directory ∈ ancestorsFrom (done ++ [c]) rest ↔ directory ≠ [] ∧
          ∃ before after, c :: rest = (c :: before) ++ '/' :: after ∧
            directory = done ++ c :: before := by
        rw [ih]
        simp
      unfold ancestorsFrom
      split
      · next hcut =>
          rw [List.mem_cons, hlater]
          constructor
          · rintro (rfl | ⟨hne, before, after, hrest, hdir⟩)
            · exact ⟨hcut.2, [], rest, by simp [hcut.1], by simp⟩
            · exact ⟨hne, c :: before, after, hrest, hdir⟩
          · rintro ⟨hne, before, after, hrest, hdir⟩
            cases before with
            | nil => exact Or.inl (by simpa using hdir)
            | cons b before =>
                obtain ⟨rfl, -⟩ := List.cons.inj hrest
                exact Or.inr ⟨hne, before, after, hrest, hdir⟩
      · next hcut =>
          rw [hlater]
          constructor
          · rintro ⟨hne, before, after, hrest, hdir⟩
            exact ⟨hne, c :: before, after, hrest, hdir⟩
          · rintro ⟨hne, before, after, hrest, hdir⟩
            cases before with
            | nil =>
                obtain ⟨hc, -⟩ := List.cons.inj hrest
                rw [List.append_nil] at hdir
                exact absurd ⟨hc, hdir ▸ hne⟩ hcut
            | cons b before =>
                obtain ⟨rfl, -⟩ := List.cons.inj hrest
                exact ⟨hne, before, after, hrest, hdir⟩

/-- The directories of a path are the nonempty texts that end before one of its slashes. -/
theorem mem_ancestors_iff {directory path : String} :
    directory ∈ ancestors path ↔
      directory ≠ "" ∧ ∃ after, path.toList = directory.toList ++ '/' :: after := by
  have hne : directory.toList ≠ [] ↔ directory ≠ "" := by simp
  unfold ancestors
  rw [List.mem_map]
  constructor
  · rintro ⟨chars, hchars, rfl⟩
    obtain ⟨hcut, before, after, hpath, rfl⟩ := mem_ancestorsFrom_iff.mp hchars
    exact ⟨by simpa using hcut, after, by simpa using hpath⟩
  · rintro ⟨hdir, after, hpath⟩
    refine ⟨directory.toList, ?_, String.ofList_toList⟩
    exact mem_ancestorsFrom_iff.mpr ⟨hne.mpr hdir, directory.toList, after, hpath, rfl⟩

theorem ancestorsFrom_pairwise_length (done rest : List Char) :
    (ancestorsFrom done rest).Pairwise (fun a b => a.length < b.length) := by
  induction rest generalizing done with
  | nil => exact List.Pairwise.nil
  | cons c rest ih =>
      unfold ancestorsFrom
      split
      · refine List.pairwise_cons.mpr ⟨fun directory hdir => ?_, ih _⟩
        obtain ⟨-, before, after, -, rfl⟩ := mem_ancestorsFrom_iff.mp hdir
        simp only [List.length_append, List.length_cons, List.length_nil]
        omega
      · exact ih _

theorem ancestors_pairwise_length (path : String) :
    (ancestors path).Pairwise (fun a b => a.length < b.length) := by
  unfold ancestors
  rw [List.pairwise_map]
  simpa only [String.length_ofList] using ancestorsFrom_pairwise_length [] path.toList

theorem ancestors_nodup (path : String) : (ancestors path).Nodup :=
  (ancestors_pairwise_length path).imp fun {a b} hlt heq => by
    rw [heq] at hlt
    omega

theorem length_lt_of_mem_ancestors {directory path : String} (h : directory ∈ ancestors path) :
    directory.length < path.length := by
  obtain ⟨-, after, hpath⟩ := mem_ancestors_iff.mp h
  rw [← String.length_toList, ← String.length_toList, hpath]
  simp

theorem not_mem_ancestors_self (path : String) : path ∉ ancestors path := fun h =>
  Nat.lt_irrefl _ (length_lt_of_mem_ancestors h)

theorem mem_ancestors_trans {outer inner path : String} (h : outer ∈ ancestors inner)
    (h' : inner ∈ ancestors path) : outer ∈ ancestors path := by
  obtain ⟨hne, after, hinner⟩ := mem_ancestors_iff.mp h
  obtain ⟨-, after', hpath⟩ := mem_ancestors_iff.mp h'
  refine mem_ancestors_iff.mpr ⟨hne, after ++ '/' :: after', ?_⟩
  rw [hpath, hinner, List.append_assoc, List.cons_append]

/-- Before a slash the scan finds what it finds in the text that ends there, and this text. -/
theorem ancestorsFrom_append_slash {done before : List Char} (h : done ++ before ≠ [])
    (after : List Char) :
    ancestorsFrom done (before ++ '/' :: after) =
      ancestorsFrom done before ++
        (done ++ before) :: ancestorsFrom (done ++ before ++ ['/']) after := by
  induction before generalizing done with
  | nil =>
      rw [List.append_nil] at h
      rw [List.nil_append, List.append_nil]
      exact if_pos ⟨rfl, h⟩
  | cons c before ih =>
      have hstep := @ih (done ++ [c]) (by simp)
      rw [List.append_assoc, List.singleton_append] at hstep
      rw [List.cons_append, ancestorsFrom, ancestorsFrom, hstep]
      split
      · rfl
      · rfl

/-- The directories of a path up to one of them are those of this one. -/
theorem ancestors_eq_of_append {path directory : String} {before after : List String}
    (h : ancestors path = before ++ directory :: after) : before = ancestors directory := by
  obtain ⟨hne, rest, hpath⟩ :=
    mem_ancestors_iff.mp (h ▸ List.mem_append_right before List.mem_cons_self)
  have hnonempty : [] ++ directory.toList ≠ [] := by simpa using hne
  have hsplit : ancestors path = ancestors directory ++ directory ::
      (ancestorsFrom (directory.toList ++ ['/']) rest).map String.ofList := by
    unfold ancestors
    rw [hpath, ancestorsFrom_append_slash hnonempty]
    simp
  have hnodup := ancestors_nodup path
  rw [h] at hsplit hnodup
  obtain ⟨-, hafter, hapart⟩ := List.nodup_append.mp hnodup
  have hbefore : directory ∉ before := fun hmem => hapart _ hmem _ List.mem_cons_self rfl
  exact ((List.append_cons_inj_of_notMem hbefore (List.nodup_cons.mp hafter).1).mp hsplit).1

theorem isWithin_iff {path base : String} :
    isWithin path base = true ↔
      base = "/" ∨ path = base ∨ ∃ after, path.toList = base.toList ++ '/' :: after := by
  have hroot : base.toList = ['/'] ↔ base = "/" := by
    rw [← String.toList_inj]
    rfl
  have hprefix : base.toList ++ ['/'] <+: path.toList ↔
      ∃ after, path.toList = base.toList ++ '/' :: after := by
    constructor
    · rintro ⟨after, hpath⟩
      exact ⟨after, by simpa using hpath.symm⟩
    · rintro ⟨after, hpath⟩
      exact ⟨after, by simpa using hpath.symm⟩
  simp only [isWithin, isWithinChars, Bool.or_eq_true, beq_iff_eq, List.isPrefixOf_iff_prefix]
  rw [hroot, String.toList_inj, hprefix, or_assoc]

theorem isWithin_of_mem_ancestors {directory path base : String} (h : directory ∈ ancestors path)
    (hbase : isWithin directory base = true) : isWithin path base = true := by
  obtain ⟨-, after, hpath⟩ := mem_ancestors_iff.mp h
  rw [isWithin_iff] at hbase ⊢
  rcases hbase with hroot | rfl | ⟨between, hdir⟩
  · exact Or.inl hroot
  · exact Or.inr (Or.inr ⟨after, hpath⟩)
  · refine Or.inr (Or.inr ⟨between ++ '/' :: after, ?_⟩)
    rw [hpath, hdir, List.append_assoc, List.cons_append]

theorem not_isWithin_of_mem_ancestors {directory path : String} (h : directory ∈ ancestors path) :
    ¬isWithin directory path = true := by
  intro hwithin
  have hlt := length_lt_of_mem_ancestors h
  rcases isWithin_iff.mp hwithin with rfl | rfl | ⟨after, hdir⟩
  · obtain ⟨hne, -, -⟩ := mem_ancestors_iff.mp h
    have hroot : "/".length = 1 := rfl
    have hzero : directory.length = 0 := by omega
    exact hne (String.length_eq_zero_iff.mp hzero)
  · exact Nat.lt_irrefl _ hlt
  · rw [← String.length_toList, ← String.length_toList, hdir] at hlt
    simp only [List.length_append, List.length_cons] at hlt
    omega

/-! ### Canonical paths -/

/-- A component as canonical paths have it: not empty and without a slash. -/
def IsPlain (component : List Char) : Prop :=
  component ≠ [] ∧ '/' ∉ component

theorem isPlain_of_mem_components {part path : List Char} (h : part ∈ components path) :
    IsPlain part := by
  obtain ⟨hmem, hne⟩ := List.mem_filter.mp h
  exact ⟨by simpa using hne, Text.not_mem_of_mem_splitOn hmem⟩

theorem splitOn_append_flatMap {part : List Char} {parts : List (List Char)} (h : '/' ∉ part)
    (hparts : ∀ p ∈ parts, '/' ∉ p) :
    (part ++ parts.flatMap ('/' :: ·)).splitOn '/' = part :: parts := by
  induction parts generalizing part with
  | nil => simpa using List.splitOn_eq_singleton h
  | cons next parts ih =>
      rw [List.flatMap_cons, List.cons_append, List.splitOn_append_cons_self_of_not_mem h]
      rw [ih (hparts next List.mem_cons_self) fun p hp => hparts p (List.mem_cons_of_mem _ hp)]

/-- Plain components are read back from the path that they make. -/
theorem components_render {parts : List (List Char)} (h : ∀ part ∈ parts, IsPlain part) :
    components (render parts) = parts := by
  have hkeep : parts.filter (· ≠ []) = parts :=
    List.filter_eq_self.mpr fun part hpart => by simpa using (h part hpart).1
  cases parts with
  | nil => rfl
  | cons part parts =>
      have hsplit : ([] ++ (part :: parts).flatMap ('/' :: ·)).splitOn '/' = [] :: part :: parts :=
        splitOn_append_flatMap List.not_mem_nil fun p hp => (h p hp).2
      unfold components render
      rw [List.nil_append] at hsplit
      rw [hsplit]
      simpa using hkeep

/-- A path that is its own canonical form. -/
def IsCanonical (path : String) : Prop :=
  canonical path = .ok path

theorem canonical_eq_ok_iff {name path : String} :
    canonical name = .ok path ↔ canonicalChars name.toList = .ok path.toList := by
  unfold canonical
  cases canonicalChars name.toList with
  | error fault => simp [Except.map]
  | ok chars =>
      simp only [Except.map, Except.ok.injEq]
      exact ⟨fun h => by rw [← h, String.toList_ofList], fun h => by rw [h, String.ofList_toList]⟩

theorem canonicalChars_eq_render {name chars : List Char} (h : canonicalChars name = .ok chars) :
    chars = render (components (slashed name)) := by
  unfold canonicalChars at h
  simp only at h
  split at h
  · cases h
  · split at h
    · cases h
    · split at h
      · cases h
      · exact (Except.ok.inj h).symm

/-- A path that is made of its components. -/
def IsRendered (path : String) : Prop :=
  path.toList = render (components path.toList)

theorem isRendered_of_render {path : String} {parts : List (List Char)}
    (h : path.toList = render parts) (hplain : ∀ part ∈ parts, IsPlain part) : IsRendered path := by
  unfold IsRendered
  rw [h, components_render hplain]

theorem isRendered_of_canonical {name path : String} (h : canonical name = .ok path) :
    IsRendered path :=
  isRendered_of_render (canonicalChars_eq_render (canonical_eq_ok_iff.mp h))
    fun _ => isPlain_of_mem_components

theorem IsCanonical.isRendered {path : String} (h : IsCanonical path) : IsRendered path :=
  isRendered_of_canonical h

theorem components_append_slash (before after : List Char) :
    components (before ++ '/' :: after) = components before ++ components after := by
  unfold components
  rw [List.splitOn_append_cons_self, List.filter_append]

/-- One path is another or lies below it, by components. -/
def IsBelow (path base : String) : Prop :=
  components base.toList <+: components path.toList

/-- For paths that are made of components the texts say what the components say. -/
theorem isWithin_iff_isBelow {path base : String} (hpath : IsRendered path)
    (hbase : IsRendered base) : isWithin path base = true ↔ IsBelow path base := by
  rw [isWithin_iff]
  unfold IsBelow
  constructor
  · rintro (rfl | rfl | ⟨after, hafter⟩)
    · exact List.nil_prefix
    · exact List.prefix_rfl
    · rw [hafter, components_append_slash]
      exact List.prefix_append _ _
  · rintro ⟨rest, hrest⟩
    unfold IsRendered at hpath hbase
    rw [← hrest] at hpath
    cases hparts : components base.toList with
    | nil =>
        rw [hparts] at hbase
        exact Or.inl (String.toList_inj.mp hbase)
    | cons first others =>
        rw [hparts] at hpath hbase
        cases rest with
        | nil =>
            rw [List.append_nil, ← hbase] at hpath
            exact Or.inr (Or.inl (String.toList_inj.mp hpath))
        | cons part rest =>
            refine Or.inr (Or.inr ⟨part ++ rest.flatMap ('/' :: ·), ?_⟩)
            rw [hpath, hbase]
            simp [render]

theorem ancestorsFrom_append {done part : List Char} (h : '/' ∉ part) (rest : List Char) :
    ancestorsFrom done (part ++ rest) = ancestorsFrom (done ++ part) rest := by
  induction part generalizing done with
  | nil => simp
  | cons c part ih =>
      rw [List.mem_cons, not_or] at h
      rw [List.cons_append, ancestorsFrom, if_neg fun hcut => h.1 hcut.1.symm, ih h.2]
      simp

theorem ancestorsFrom_flatMap {done : List Char} {parts : List (List Char)} (hdone : done ≠ [])
    (h : ∀ part ∈ parts, '/' ∉ part) :
    ancestorsFrom done (parts.flatMap ('/' :: ·)) =
      (List.range parts.length).map fun k => done ++ (parts.take k).flatMap ('/' :: ·) := by
  induction parts generalizing done with
  | nil => rfl
  | cons part parts ih =>
      rw [List.flatMap_cons, List.cons_append, ancestorsFrom, if_pos ⟨rfl, hdone⟩,
        ancestorsFrom_append (h part List.mem_cons_self),
        ih (by simp) fun p hp => h p (List.mem_cons_of_mem _ hp)]
      rw [List.length_cons, List.range_succ_eq_map, List.map_cons, List.map_map]
      simp [Function.comp_def]

/-- The paths made of the proper prefixes of the components, the shortest first and the root left
out. -/
def parents (path : String) : List String :=
  (List.range ((components path.toList).length - 1)).map fun k =>
    String.ofList (render ((components path.toList).take (k + 1)))

/-- For a canonical path the scan finds what the components say. -/
theorem ancestors_eq_parents {path : String} (h : IsCanonical path) :
    ancestors path = parents path := by
  have hplain : ∀ part ∈ components path.toList, IsPlain part := fun _ =>
    isPlain_of_mem_components
  have hpath : path.toList = render (components path.toList) := h.isRendered
  unfold ancestors parents
  generalize components path.toList = parts at hplain hpath ⊢
  rw [hpath]
  cases parts with
  | nil => rfl
  | cons part parts =>
      have hfirst := (hplain part List.mem_cons_self).2
      have hrest := fun p hp => (hplain p (List.mem_cons_of_mem _ hp)).2
      have hrender : render (part :: parts) = '/' :: (part ++ parts.flatMap ('/' :: ·)) := rfl
      rw [hrender, ancestorsFrom, if_neg (by simp), ancestorsFrom_append hfirst,
        ancestorsFrom_flatMap (by simp) hrest, List.map_map]
      simp [Function.comp_def, render]

/-- A directory that a path lies in, the root left out, by components. -/
def IsParent (directory path : String) : Prop :=
  ∃ before after, before ≠ [] ∧ after ≠ [] ∧ components path.toList = before ++ after ∧
    directory.toList = render before

theorem IsParent.isRendered {directory path : String} (h : IsParent directory path) :
    IsRendered directory := by
  obtain ⟨before, after, -, -, hparts, hdir⟩ := h
  refine isRendered_of_render hdir fun part hpart => ?_
  exact isPlain_of_mem_components (hparts ▸ List.mem_append_left after hpart)

theorem mem_ancestors_iff_isParent {directory path : String} (h : IsCanonical path) :
    directory ∈ ancestors path ↔ IsParent directory path := by
  rw [ancestors_eq_parents h, parents, List.mem_map]
  constructor
  · rintro ⟨k, hk, rfl⟩
    rw [List.mem_range] at hk
    refine ⟨(components path.toList).take (k + 1), (components path.toList).drop (k + 1), ?_, ?_,
      (List.take_append_drop _ _).symm, String.toList_ofList⟩
    · rw [Ne, ← List.length_eq_zero_iff, List.length_take]
      omega
    · rw [Ne, ← List.length_eq_zero_iff, List.length_drop]
      omega
  · rintro ⟨before, after, hbefore, hafter, hparts, hdir⟩
    have hb := List.length_pos_iff.mpr hbefore
    have ha := List.length_pos_iff.mpr hafter
    refine ⟨before.length - 1, ?_, ?_⟩
    · rw [List.mem_range, hparts, List.length_append]
      omega
    · rw [Nat.sub_add_cancel hb, hparts, List.take_left, ← hdir, String.ofList_toList]

def depth (path : String) : Nat :=
  (components path.toList).length

theorem parents_pairwise_depth (path : String) :
    (parents path).Pairwise (fun a b => depth a < depth b) := by
  unfold parents
  rw [List.pairwise_map]
  refine List.pairwise_lt_range.imp_of_mem fun {i j} hi hj hlt => ?_
  rw [List.mem_range] at hi hj
  have hplain : ∀ k, ∀ part ∈ (components path.toList).take k, IsPlain part := fun k part hpart =>
    isPlain_of_mem_components (List.mem_of_mem_take hpart)
  unfold depth
  rw [String.toList_ofList, String.toList_ofList, components_render (hplain _),
    components_render (hplain _), List.length_take, List.length_take]
  omega

theorem parents_nodup (path : String) : (parents path).Nodup := by
  refine (parents_pairwise_depth path).imp fun {a b} hlt heq => ?_
  rw [heq] at hlt
  exact Nat.lt_irrefl _ hlt

theorem ancestors_pairwise_depth {path : String} (h : IsCanonical path) :
    (ancestors path).Pairwise (fun a b => depth a < depth b) := by
  rw [ancestors_eq_parents h]
  exact parents_pairwise_depth path

end ArchivePlan.Target
