import ArchivePlan.Files.System
import Mathlib.Data.List.Nodup

/-! # Walks through a directory

In a tree that a file system can hold (`Node.IsLegal`) the children of a directory have different
names.  So the walk through it meets exactly the nodes that names lead to, links not followed
(`mem_descendants_iff`), and none of them twice (`descendants_nodup`).

`Reordered` relates two trees that differ only in the order in which directories list their
children.  The same names lead to nodes in both, which are equal or both directories
(`Reordered.get?`). -/

namespace ArchivePlan

/-- What a file system asks of the name of a child. -/
structure Name.IsLegal (name : Name) : Prop where
  ne_nil : name ≠ []
  slash_not_mem : slash ∉ name
  nul_not_mem : 0 ∉ name
  ne_dot : name ≠ [dot]
  ne_dots : name ≠ [dot, dot]
  length_le : name.length ≤ FileSystem.maxName

instance (name : Name) : Decidable (Name.IsLegal name) :=
  decidable_of_iff
    (name ≠ [] ∧ slash ∉ name ∧ 0 ∉ name ∧ name ≠ [dot] ∧ name ≠ [dot, dot] ∧
      name.length ≤ FileSystem.maxName)
    ⟨fun ⟨h, h', h'', h''', h'''', hlength⟩ => ⟨h, h', h'', h''', h'''', hlength⟩,
      fun ⟨h, h', h'', h''', h'''', hlength⟩ => ⟨h, h', h'', h''', h'''', hlength⟩⟩

namespace Node

variable {names : List Name} {node found : Node} {children : List (Name × Node)}

/-- A tree that a file system can hold: siblings have different names, and all names are legal. -/
inductive IsLegal : Node → Prop
  | file (content : Bytes) : IsLegal (.file content)
  | symlink (target : Bytes) : IsLegal (.symlink target)
  | special (reading : Except IoError Bytes) : IsLegal (.special reading)
  | directory {children : List (Name × Node)} (distinct : (children.map (·.1)).Nodup)
      (names : ∀ c ∈ children, Name.IsLegal c.1) (nodes : ∀ c ∈ children, c.2.IsLegal) :
      IsLegal (.directory children)

/-! ### Names and what they lead to -/

theorem exists_of_isDirectory (h : node.isDirectory = true) :
    ∃ children, node = directory children := by
  cases node with
  | directory children => exact ⟨children, rfl⟩
  | _ => cases h

theorem lookup_eq_some_iff_mem (h : (children.map (·.1)).Nodup) {name : Name} :
    children.lookup name = some node ↔ (name, node) ∈ children := by
  induction children with
  | nil => simp
  | cons c rest ih =>
      obtain ⟨other, old⟩ := c
      rw [List.map_cons, List.nodup_cons] at h
      rw [List.lookup_cons, List.mem_cons, Prod.mk.injEq]
      by_cases hname : name = other
      · subst hname
        have hnot : (name, node) ∉ rest := fun hmem => h.1 (List.mem_map.mpr ⟨_, hmem, rfl⟩)
        simp [hnot, eq_comm]
      · have hbeq : (name == other) = false := by simpa using hname
        rw [hbeq]
        simpa [hname] using ih h.2

theorem get?_cons (name : Name) (rest : List Name) :
    node.get? (name :: rest) = (node.child? name).bind (·.get? rest) := by
  rw [get?]
  cases node.child? name <;> rfl

theorem get?_append (before after : List Name) :
    node.get? (before ++ after) = (node.get? before).bind (·.get? after) := by
  induction before generalizing node with
  | nil => simp [get?]
  | cons name before ih =>
      rw [List.cons_append, get?_cons, get?_cons]
      cases node.child? name with
      | none => rfl
      | some child => exact ih

theorem IsLegal.child? (h : node.IsLegal) {name : Name} (hchild : node.child? name = some found) :
    Name.IsLegal name ∧ found.IsLegal := by
  cases h with
  | directory distinct names nodes =>
      have hmem := (lookup_eq_some_iff_mem distinct).mp hchild
      exact ⟨names _ hmem, nodes _ hmem⟩
  | _ => cases hchild

theorem IsLegal.get? (h : node.IsLegal) (hget : node.get? names = some found) :
    (∀ name ∈ names, Name.IsLegal name) ∧ found.IsLegal := by
  induction names generalizing node with
  | nil =>
      cases hget
      exact ⟨fun name hmem => absurd hmem List.not_mem_nil, h⟩
  | cons name rest ih =>
      rw [get?_cons] at hget
      obtain ⟨child, hchild, hrest⟩ := Option.bind_eq_some_iff.mp hget
      obtain ⟨hname, hlegal⟩ := h.child? hchild
      obtain ⟨hnames, hfound⟩ := ih hlegal hrest
      exact ⟨List.forall_mem_cons.mpr ⟨hname, hnames⟩, hfound⟩

/-! ### The walk -/

theorem descendantsOf_eq (children : List (Name × Node)) :
    descendantsOf children = children.flatMap fun c =>
      ([c.1], c.2) :: c.2.descendants.map fun below => (c.1 :: below.1, below.2) := by
  induction children with
  | nil => rfl
  | cons c rest ih =>
      rw [descendantsOf, ih]
      rfl

/-- The walk meets what names lead to. -/
theorem mem_descendants_iff (h : node.IsLegal) :
    (names, found) ∈ node.descendants ↔ names ≠ [] ∧ node.get? names = some found := by
  induction h generalizing names found with
  | file content | symlink target | special reading =>
      refine iff_of_false List.not_mem_nil ?_
      rintro ⟨hne, hget⟩
      cases names with
      | nil => exact hne rfl
      | cons name rest => cases hget
  | @directory children distinct _ _ ih =>
      rw [descendants, descendantsOf_eq, List.mem_flatMap]
      cases names with
      | nil => simp
      | cons name rest =>
          have hchild : ∀ c ∈ children,
              ((name :: rest, found) ∈ ([c.1], c.2) ::
                c.2.descendants.map (fun below => (c.1 :: below.1, below.2)) ↔
              c.1 = name ∧ c.2.get? rest = some found) := by
            intro c hc
            cases rest with
            | nil =>
                have hself : ([], found) ∈ c.2.descendants ↔ _ := ih c hc
                simp [hself, get?, eq_comm]
            | cons next rest =>
                have hbelow : (next :: rest, found) ∈ c.2.descendants ↔ _ := ih c hc
                simp [hbelow, and_comm, eq_comm]
          rw [get?_cons, Option.bind_eq_some_iff]
          constructor
          · rintro ⟨c, hc, hmem⟩
            obtain ⟨rfl, hget⟩ := (hchild c hc).mp hmem
            exact ⟨List.cons_ne_nil _ _, c.2, (lookup_eq_some_iff_mem distinct).mpr hc, hget⟩
          · rintro ⟨-, child, hlookup, hget⟩
            have hc := (lookup_eq_some_iff_mem distinct).mp hlookup
            exact ⟨(name, child), hc, (hchild _ hc).mpr ⟨rfl, hget⟩⟩

theorem forall_get? {P : List Name → Node → Prop} (h : node.IsLegal) (hself : P [] node)
    (hbelow : ∀ p ∈ node.descendants, P p.1 p.2) (hget : node.get? names = some found) :
    P names found := by
  by_cases hnil : names = []
  · subst hnil
    cases hget
    exact hself
  · exact hbelow (names, found) ((mem_descendants_iff h).mpr ⟨hnil, hget⟩)

theorem descendants_nodup (h : node.IsLegal) : (node.descendants.map (·.1)).Nodup := by
  induction h with
  | file content | symlink target | special reading => exact List.nodup_nil
  | @directory children distinct _ nodes ih =>
      have hwalk : (directory children).descendants.map (·.1) = children.flatMap fun c =>
          ([] :: c.2.descendants.map (·.1)).map (c.1 :: ·) := by
        rw [descendants, descendantsOf_eq, List.map_flatMap]
        simp only [List.map_cons, List.map_map]
        rfl
      rw [hwalk, List.nodup_flatMap]
      constructor
      · intro c hc
        refine (List.nodup_cons.mpr ⟨?_, ih c hc⟩).map List.cons_injective
        intro hmem
        obtain ⟨below, hbelow, hnil⟩ := List.mem_map.mp hmem
        exact ((mem_descendants_iff (nodes c hc)).mp hbelow).1 hnil
      · refine (List.pairwise_map.mp distinct).imp fun {a b} hne => ?_
        intro names ha hb
        obtain ⟨_, _, rfl⟩ := List.mem_map.mp ha
        obtain ⟨_, _, heq⟩ := List.mem_map.mp hb
        exact hne (List.cons.inj heq).1.symm

/-! ### The order of children -/

/-- Two trees differ only in the order in which directories list their children. -/
inductive Reordered : Node → Node → Prop
  | refl (node : Node) : Reordered node node
  | children {children children' : List (Name × Node)} (h : children.Perm children') :
      Reordered (.directory children) (.directory children')
  | child {before after : List (Name × Node)} {name : Name} {node node' : Node}
      (h : Reordered node node') :
      Reordered (.directory (before ++ (name, node) :: after))
        (.directory (before ++ (name, node') :: after))
  | trans {a b c : Node} (h : Reordered a b) (h' : Reordered b c) : Reordered a c

/-- Two nodes are the same but for what lies below them. -/
def Alike (a b : Node) : Prop :=
  a = b ∨ a.isDirectory = true ∧ b.isDirectory = true

theorem Alike.trans {a b c : Node} (h : a.Alike b) (h' : b.Alike c) : a.Alike c := by
  rcases h with rfl | ⟨ha, hb⟩
  · exact h'
  · rcases h' with rfl | ⟨-, hc⟩
    · exact Or.inr ⟨ha, hb⟩
    · exact Or.inr ⟨ha, hc⟩

theorem Alike.isDirectory {a b : Node} (h : a.Alike b) (ha : a.isDirectory = true) :
    b.isDirectory = true := by
  rcases h with rfl | ⟨-, hb⟩
  · exact ha
  · exact hb

namespace Reordered

variable {a b : Node}

theorem alike (h : Reordered a b) : a.Alike b := by
  induction h with
  | refl node => exact Or.inl rfl
  | children _ => exact Or.inr ⟨rfl, rfl⟩
  | child _ _ => exact Or.inr ⟨rfl, rfl⟩
  | trans _ _ ih ih' => exact ih.trans ih'

theorem symm (h : Reordered a b) : Reordered b a := by
  induction h with
  | refl node => exact .refl node
  | children h => exact .children h.symm
  | child _ ih => exact .child ih
  | trans _ _ ih ih' => exact ih'.trans ih

theorem isLegal (h : Reordered a b) (ha : a.IsLegal) : b.IsLegal := by
  induction h with
  | refl node => exact ha
  | children h =>
      cases ha with
      | directory distinct names nodes =>
          exact .directory ((h.map (·.1)).nodup_iff.mp distinct)
            (fun c hc => names c (h.mem_iff.mpr hc)) fun c hc => nodes c (h.mem_iff.mpr hc)
  | @child before after name node node' h ih =>
      cases ha with
      | directory distinct names nodes =>
          refine .directory (by simpa using distinct) ?_ ?_
          · intro c hc
            rcases List.mem_append.mp hc with hc | hc
            · exact names c (List.mem_append_left _ hc)
            · rcases List.mem_cons.mp hc with rfl | hc
              · exact names (name, node) (by simp)
              · exact names c (List.mem_append_right _ (List.mem_cons_of_mem _ hc))
          · intro c hc
            rcases List.mem_append.mp hc with hc | hc
            · exact nodes c (List.mem_append_left _ hc)
            · rcases List.mem_cons.mp hc with rfl | hc
              · exact ih (nodes (name, node) (by simp))
              · exact nodes c (List.mem_append_right _ (List.mem_cons_of_mem _ hc))
  | trans _ _ ih ih' => exact ih' (ih ha)

/-- Names lead to the same in trees that differ in the order of children. -/
theorem get? (h : Reordered a b) (ha : a.IsLegal) {names : List Name} {found : Node}
    (hget : a.get? names = some found) :
    ∃ found', b.get? names = some found' ∧ found.Alike found' := by
  induction h generalizing names found with
  | refl node => exact ⟨found, hget, Or.inl rfl⟩
  | @children children children' h =>
      cases names with
      | nil =>
          cases hget
          exact ⟨_, rfl, Or.inr ⟨rfl, rfl⟩⟩
      | cons name rest =>
          cases ha with
          | directory distinct names nodes =>
              have hlookup : children.lookup name = children'.lookup name := by
                refine Option.ext fun node => ?_
                rw [lookup_eq_some_iff_mem distinct, h.mem_iff,
                  lookup_eq_some_iff_mem ((h.map (·.1)).nodup_iff.mp distinct)]
              rw [get?_cons, child?, hlookup] at hget
              exact ⟨found, by rw [get?_cons]; exact hget, Or.inl rfl⟩
  | @child before after name node node' h ih =>
      cases names with
      | nil =>
          cases hget
          exact ⟨_, rfl, Or.inr ⟨rfl, rfl⟩⟩
      | cons other rest =>
          rw [get?_cons, child?, List.lookup_append, List.lookup_cons] at hget
          rw [get?_cons, child?, List.lookup_append, List.lookup_cons]
          cases hbefore : before.lookup other with
          | some old =>
              rw [hbefore] at hget
              exact ⟨found, hget, Or.inl rfl⟩
          | none =>
              rw [hbefore, Option.none_or] at hget
              rw [Option.none_or]
              by_cases hname : (other == name) = true
              · rw [hname] at hget ⊢
                cases ha with
                | directory _ _ nodes => exact ih (nodes (name, node) (by simp)) hget
              · rw [Bool.not_eq_true] at hname
                rw [hname] at hget ⊢
                exact ⟨found, hget, Or.inl rfl⟩
  | trans h _ ih ih' =>
      obtain ⟨middle, hmiddle, halike⟩ := ih ha hget
      obtain ⟨found', hfound', halike'⟩ := ih' (h.isLegal ha) hmiddle
      exact ⟨found', hfound', halike.trans halike'⟩

end Reordered

end Node

end ArchivePlan
