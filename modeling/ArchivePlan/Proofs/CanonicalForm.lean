import ArchivePlan.Proofs.CollectedPaths

/-! # The canonical form of a target path

`Spells` says of a text which components it writes, with any number of slashes around them, and
`components` reads them back (`spells_iff`).  A name with slashes in place of backslashes writes one
list of components, and this list alone decides about its canonical form: the form is the text that
writes the same components in a normal way (`IsNormal`), so it is its own canonical form, and names
have the same one if and only if they write the same components (`canonical_isNormalForm`). -/

namespace ArchivePlan.Target

/-! ### Components and slashes -/

/-- A text writes components: runs without a slash, with slashes around them. -/
inductive Spells : List Char → List (List Char) → Prop
  | nil : Spells [] []
  | slash {rest : List Char} {parts : List (List Char)} (h : Spells rest parts) :
      Spells ('/' :: rest) parts
  /-- A component goes on to the next slash or to the end. -/
  | component {part rest : List Char} {parts : List (List Char)} (plain : IsPlain part)
      (ends : rest = [] ∨ rest.head? = some '/') (h : Spells rest parts) :
      Spells (part ++ rest) (part :: parts)

theorem components_of_isPlain {part : List Char} (h : IsPlain part) : components part = [part] := by
  unfold components
  rw [List.splitOn_eq_singleton h.2]
  simp [h.1]

theorem Spells.components_eq {path : List Char} {parts : List (List Char)} (h : Spells path parts) :
    components path = parts := by
  induction h with
  | nil => rfl
  | slash _ ih => exact (components_append_slash [] _).trans ih
  | @component part rest parts plain ends _ ih =>
      rcases ends with rfl | hhead
      · cases ih
        rw [List.append_nil, components_of_isPlain plain]
        rfl
      · obtain ⟨more, rfl⟩ := List.head?_eq_some_iff.mp hhead
        rw [components_append_slash, components_of_isPlain plain, ← ih]
        exact congrArg (part :: ·) (components_append_slash [] more).symm

theorem spells_intercalate {parts : List (List Char)} (h : ∀ part ∈ parts, '/' ∉ part) :
    Spells (['/'].intercalate parts) (parts.filter (· ≠ [])) := by
  induction parts with
  | nil => exact .nil
  | cons part rest ih =>
      have hpart := h part List.mem_cons_self
      have hrest := ih fun p hp => h p (List.mem_cons_of_mem _ hp)
      -- the text behind the part is empty or starts with a slash
      have htail : ∃ tail, ['/'].intercalate (part :: rest) = part ++ tail ∧
          (tail = [] ∨ tail.head? = some '/') ∧ Spells tail (rest.filter (· ≠ [])) := by
        cases rest with
        | nil => exact ⟨[], by simp, Or.inl rfl, .nil⟩
        | cons next more =>
            have hjoin : ['/'].intercalate (part :: next :: more) =
                part ++ '/' :: ['/'].intercalate (next :: more) := by simp
            exact ⟨_, hjoin, Or.inr rfl, .slash hrest⟩
      obtain ⟨tail, hjoin, hends, htail⟩ := htail
      rw [hjoin]
      by_cases hempty : part = []
      · subst hempty
        simpa using htail
      · rw [List.filter_cons_of_pos (by simpa using hempty)]
        exact .component ⟨hempty, hpart⟩ hends htail

/-- **A text writes one list of components, and it can be read back.** -/
theorem spells_iff {path : List Char} {parts : List (List Char)} :
    Spells path parts ↔ components path = parts := by
  refine ⟨Spells.components_eq, ?_⟩
  rintro rfl
  have h := spells_intercalate fun part (hpart : part ∈ path.splitOn '/') =>
    Text.not_mem_of_mem_splitOn hpart
  rwa [List.intercalate_splitOn] at h

/-! ### Normal texts -/

/-- A text that writes components in a normal way: after a slash each, and a lone slash if there is
none. -/
structure IsNormal (path : String) : Prop where
  absolute : path.toList.head? = some '/'
  backslash_not_mem : '\\' ∉ path.toList
  nul_not_mem : '\x00' ∉ path.toList
  /-- No component is empty. -/
  no_slashes : ¬['/', '/'] <:+: path.toList
  no_trailing : path = "/" ∨ path.toList.getLast? ≠ some '/'
  no_dots : ∀ parts, Spells path.toList parts → ['.'] ∉ parts ∧ ['.', '.'] ∉ parts

theorem isDots_eq_false_iff {part : List Char} :
    isDots part = false ↔ part ≠ ['.'] ∧ part ≠ ['.', '.'] := by
  unfold isDots
  rw [Bool.or_eq_false_iff, beq_eq_false_iff_ne, beq_eq_false_iff_ne]

theorem forall_isDots_iff {parts : List (List Char)} :
    (∀ part ∈ parts, isDots part = false) ↔ ['.'] ∉ parts ∧ ['.', '.'] ∉ parts := by
  simp only [isDots_eq_false_iff]
  constructor
  · exact fun h => ⟨fun hmem => (h _ hmem).1 rfl, fun hmem => (h _ hmem).2 rfl⟩
  · rintro ⟨hdot, hdots⟩ part hpart
    exact ⟨fun heq => hdot (heq ▸ hpart), fun heq => hdots (heq ▸ hpart)⟩

theorem tail_splitOn_render {parts : List (List Char)} (h : ∀ part ∈ parts, IsPlain part)
    (hne : parts ≠ []) : ((render parts).splitOn '/').tail = parts := by
  obtain ⟨part, more, rfl⟩ := List.exists_cons_of_ne_nil hne
  have hsplit : ([] ++ (part :: more).flatMap ('/' :: ·)).splitOn '/' = [] :: part :: more :=
    splitOn_append_flatMap List.not_mem_nil fun p hp => (h p hp).2
  exact congrArg List.tail hsplit

theorem isNormal_of_render {path : String} {parts : List (List Char)}
    (hpath : path.toList = render parts) (h : ∀ part ∈ parts, IsComponent part) :
    IsNormal path := by
  have hplain : ∀ part ∈ parts, IsPlain part := fun part hpart => (h part hpart).plain
  have hmem : ∀ c ∈ path.toList, c = '/' ∨ ∃ part ∈ parts, c ∈ part := by
    rw [hpath]
    exact fun c hc => mem_render hc
  have hcut : path = "/" ∨ [] ∉ (path.toList.splitOn '/').tail := by
    by_cases hempty : parts = []
    · subst hempty
      exact Or.inl (String.toList_inj.mp hpath)
    · rw [hpath, tail_splitOn_render hplain hempty]
      exact Or.inr fun hnil => (hplain [] hnil).1 rfl
  rw [Text.nil_mem_tail_splitOn_iff, not_or] at hcut
  constructor
  case absolute =>
    rw [hpath]
    cases parts <;> rfl
  case backslash_not_mem =>
    intro hc
    rcases hmem _ hc with hslash | ⟨part, hpart, hc⟩
    · cases hslash
    · exact (h part hpart).backslash_not_mem hc
  case nul_not_mem =>
    intro hc
    rcases hmem _ hc with hslash | ⟨part, hpart, hc⟩
    · cases hslash
    · exact (h part hpart).nul_not_mem hc
  case no_slashes =>
    rcases hcut with rfl | ⟨hslashes, -⟩
    · decide
    · exact hslashes
  case no_trailing => exact hcut.imp id fun hboth => hboth.2
  case no_dots =>
    intro others hothers
    rw [spells_iff, hpath, components_render hplain] at hothers
    subst hothers
    exact forall_isDots_iff.mp fun part hpart => (h part hpart).not_dots

/-! ### Names -/

theorem exists_canonical_iff {name : String} :
    (∃ path, canonical name = .ok path) ↔
      (slashed name.toList).head? = some '/' ∧ '\x00' ∉ slashed name.toList ∧
        ['.'] ∉ components (slashed name.toList) ∧
        ['.', '.'] ∉ components (slashed name.toList) := by
  simp only [canonical_eq_ok_iff, canonicalChars_eq_ok_iff, ← forall_isDots_iff]
  constructor
  · rintro ⟨path, hhead, hnul, hdots, -⟩
    exact ⟨hhead, hnul, hdots⟩
  · rintro ⟨hhead, hnul, hdots⟩
    exact ⟨String.ofList (render (components (slashed name.toList))), hhead, hnul, hdots,
      String.toList_ofList⟩

/-- The canonical form of a name writes the components that the name writes. -/
theorem components_of_canonical {name path : String} (h : canonical name = .ok path) :
    components path.toList = components (slashed name.toList) := by
  rw [canonicalChars_eq_render (canonical_eq_ok_iff.mp h),
    components_render fun _ => isPlain_of_mem_components]

/-- **The canonical form of a path is a normal form.**  A name, with slashes in place of
backslashes, writes exactly one list of components.  It has a canonical form if and only if it
starts with a slash, has no NUL and none of the components is `.` or `..`.  The canonical form is
normal, writes the same components and is its own canonical form; and another name that has a
canonical form has the same one if and only if it writes the same components. -/
theorem canonical_isNormalForm (name : String) :
    ∃ parts, (∀ others, Spells (slashed name.toList) others ↔ others = parts) ∧
      ((∃ path, canonical name = .ok path) ↔
        (slashed name.toList).head? = some '/' ∧ '\x00' ∉ slashed name.toList ∧
          ['.'] ∉ parts ∧ ['.', '.'] ∉ parts) ∧
      ∀ path, canonical name = .ok path →
        IsNormal path ∧ (∀ others, Spells path.toList others ↔ others = parts) ∧
        canonical path = .ok path ∧
        ∀ name' path', canonical name' = .ok path' →
          (path' = path ↔ Spells (slashed name'.toList) parts) := by
  refine ⟨components (slashed name.toList), fun others => spells_iff.trans eq_comm,
    exists_canonical_iff, fun path hpath => ?_⟩
  have hcomponents := components_of_canonical hpath
  have hrendered : path.toList = render (components path.toList) := isRendered_of_canonical hpath
  refine ⟨isNormal_of_render hrendered fun _ => isComponent_of_canonical hpath, fun others => ?_,
    isCanonical_of_render hrendered fun _ => isComponent_of_canonical hpath, ?_⟩
  · rw [spells_iff, hcomponents, eq_comm]
  · intro name' path' hpath'
    have hcomponents' := components_of_canonical hpath'
    have hrendered' : path'.toList = render (components path'.toList) :=
      isRendered_of_canonical hpath'
    rw [spells_iff, ← hcomponents, ← hcomponents']
    constructor
    · rintro rfl
      rfl
    · intro hsame
      rw [← String.toList_inj, hrendered', hsame, ← hrendered]

/-- Backslashes, slashes in a row and a slash at the end are written in the normal way. -/
example : canonical "\\opt//app\\run.sh/" = .ok "/opt/app/run.sh" := by rfl

end ArchivePlan.Target
