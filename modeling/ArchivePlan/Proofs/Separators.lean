import Mathlib.Data.List.Basic

/-! # Parts between separators

Paths are cut at slashes by `List.splitOn` and put together again by `List.intercalate`.  The
library says how the two undo one another; here is what else the paths need: the parts hold every
element but the separators (`mem_of_mem_splitOn`, `eq_or_exists_mem_splitOn`,
`not_mem_of_mem_splitOn`), and an empty part tells where separators meet or stand at an end
(`head?_splitOn_eq_nil_iff`, `nil_mem_tail_splitOn_iff`). -/

namespace ArchivePlan.Text

variable {α : Type} {separator x : α} {part list rest : List α} {parts : List (List α)}

theorem mem_intercalate_iff :
    x ∈ [separator].intercalate parts ↔
      (∃ part ∈ parts, x ∈ part) ∨ x = separator ∧ 1 < parts.length := by
  induction parts with
  | nil => simp
  | cons first rest ih =>
      cases rest with
      | nil => simp
      | cons second rest =>
          rw [List.intercalate_cons_cons, List.mem_append, List.mem_append, ih]
          simp only [List.mem_cons, List.not_mem_nil, or_false, List.length_cons]
          grind

variable [DecidableEq α]

theorem splitOn_cons_self (separator : α) (rest : List α) :
    (separator :: rest).splitOn separator = [] :: rest.splitOn separator :=
  List.splitOn_append_cons_self_of_not_mem List.not_mem_nil rest

theorem splitOn_cons_of_ne (hne : x ≠ separator) (h : rest.splitOn separator = part :: parts) :
    (x :: rest).splitOn separator = (x :: part) :: parts := by
  rw [List.splitOn_cons_eq_if_modifyHead, if_neg (by simpa using hne), h, List.modifyHead_cons]

theorem not_mem_of_mem_splitOn (h : part ∈ list.splitOn separator) : separator ∉ part := by
  induction list generalizing part with
  | nil =>
      rw [List.splitOn_nil, List.mem_singleton] at h
      rw [h]
      exact List.not_mem_nil
  | cons x rest ih =>
      by_cases hsame : x = separator
      · rw [hsame, splitOn_cons_self] at h
        rcases List.mem_cons.mp h with rfl | h
        · exact List.not_mem_nil
        · exact ih h
      · obtain ⟨first, others, hrest⟩ :=
          List.exists_cons_of_ne_nil (List.splitOn_ne_nil separator rest)
        rw [splitOn_cons_of_ne hsame hrest] at h
        rw [hrest] at ih
        rcases List.mem_cons.mp h with rfl | h
        · exact List.not_mem_cons_of_ne_of_not_mem (Ne.symm hsame) (ih List.mem_cons_self)
        · exact ih (List.mem_cons_of_mem _ h)

theorem mem_of_mem_splitOn (h : part ∈ list.splitOn separator) (hx : x ∈ part) : x ∈ list := by
  rw [← @List.intercalate_splitOn α list _ _ separator, mem_intercalate_iff]
  exact Or.inl ⟨part, h, hx⟩

theorem eq_or_exists_mem_splitOn (separator : α) (h : x ∈ list) :
    x = separator ∨ ∃ part ∈ list.splitOn separator, x ∈ part := by
  rw [← @List.intercalate_splitOn α list _ _ separator, mem_intercalate_iff] at h
  rcases h with hpart | ⟨hsame, -⟩
  · exact Or.inr hpart
  · exact Or.inl hsame

theorem head?_splitOn_eq_nil_iff :
    (list.splitOn separator).head? = some [] ↔ list = [] ∨ list.head? = some separator := by
  cases list with
  | nil => simp
  | cons x rest =>
      by_cases hsame : x = separator
      · simp [hsame, splitOn_cons_self]
      · obtain ⟨first, others, hrest⟩ :=
          List.exists_cons_of_ne_nil (List.splitOn_ne_nil separator rest)
        simp [splitOn_cons_of_ne hsame hrest, hsame]

/-- A part behind the first one is empty only where separators meet or one ends the list. -/
theorem nil_mem_tail_splitOn_iff :
    [] ∈ (list.splitOn separator).tail ↔
      [separator, separator] <:+: list ∨ list.getLast? = some separator := by
  induction list with
  | nil => simp
  | cons x rest ih =>
      obtain ⟨first, others, hrest⟩ :=
        List.exists_cons_of_ne_nil (List.splitOn_ne_nil separator rest)
      rw [hrest, List.tail_cons] at ih
      rw [List.infix_cons_iff]
      by_cases hsame : x = separator
      · subst hsame
        have hfirst : first = [] ↔ rest = [] ∨ rest.head? = some x := by
          rw [← head?_splitOn_eq_nil_iff, hrest, List.head?_cons, Option.some_inj]
        rw [splitOn_cons_self, List.tail_cons, hrest, List.mem_cons, ih, eq_comm, hfirst]
        cases rest with
        | nil => simp
        | cons y more => simp [List.getLast?_cons_cons, eq_comm, or_assoc]
      · rw [splitOn_cons_of_ne hsame hrest, List.tail_cons, ih]
        cases rest with
        | nil => simp [hsame]
        | cons y more => simp [List.getLast?_cons_cons, Ne.symm hsame]

end ArchivePlan.Text
