import ArchivePlan.Proofs.CollectedPaths

/-! # The order of components

`isWithin` compares texts and `ancestors` cuts a text before its slashes, but on canonical paths
both go by components.  A path lies within another if and only if the components of the other come
first among its own (`isWithin_iff_components`), so this is a partial order with the root as its
least element, and a longer last component makes a different directory (`isWithin_append_iff`).  The
directories that a path lies in are the paths between the root and itself in this order
(`mem_ancestors_iff_isWithin`).  They come outermost first, so each lies within those before it
(`ancestors_pairwise_mem`) and not within those behind it. -/

namespace ArchivePlan.Target

variable {path base directory : String}

/-! ### Canonical paths and their components -/

theorem isWithin_iff_components (hpath : IsCanonical path) (hbase : IsCanonical base) :
    isWithin path base = true ↔ components base.toList <+: components path.toList :=
  isWithin_iff_isBelow hpath.isRendered hbase.isRendered

theorem eq_of_components_eq (hpath : IsCanonical path) (hbase : IsCanonical base)
    (h : components path.toList = components base.toList) : path = base := by
  have hrendered := hpath.isRendered
  unfold IsRendered at hrendered
  rw [h, ← hbase.isRendered] at hrendered
  exact String.toList_inj.mp hrendered

theorem IsCanonical.ne_empty (h : IsCanonical path) : path ≠ "" := by
  rintro rfl
  cases h

theorem isWithin_root (path : String) : isWithin path "/" = true :=
  isWithin_iff.mpr (Or.inl rfl)

theorem isWithin_refl (path : String) : isWithin path path = true :=
  isWithin_iff.mpr (Or.inr (Or.inl rfl))

theorem isWithin_antisymm (hpath : IsCanonical path) (hbase : IsCanonical base)
    (h : isWithin path base = true) (h' : isWithin base path = true) : path = base := by
  rw [isWithin_iff_components hpath hbase] at h
  rw [isWithin_iff_components hbase hpath] at h'
  have hlength : (components path.toList).length = (components base.toList).length :=
    Nat.le_antisymm h'.length_le h.length_le
  exact eq_of_components_eq hpath hbase (h.eq_of_length hlength.symm).symm

theorem isWithin_trans {outer : String} (hpath : IsCanonical path) (hbase : IsCanonical base)
    (houter : IsCanonical outer) (h : isWithin path base = true) (h' : isWithin base outer = true) :
    isWithin path outer = true := by
  rw [isWithin_iff_components hpath hbase] at h
  rw [isWithin_iff_components hbase houter] at h'
  exact (isWithin_iff_components hpath houter).mpr (h'.trans h)

theorem isWithin_append_iff (hroot : base ≠ "/") (rest : String) :
    isWithin (base ++ rest) base = true ↔ rest = "" ∨ rest.toList.head? = some '/' := by
  rw [isWithin_iff, String.toList_append]
  constructor
  · rintro (hbase | hsame | ⟨after, hafter⟩)
    · exact absurd hbase hroot
    · exact Or.inl (by simpa using hsame)
    · rw [List.append_cancel_left hafter]
      exact Or.inr rfl
  · rintro (rfl | hslash)
    · exact Or.inr (Or.inl String.append_empty)
    · obtain ⟨after, hafter⟩ := List.head?_eq_some_iff.mp hslash
      rw [hafter]
      exact Or.inr (Or.inr ⟨after, rfl⟩)

/-! ### The directories that a path lies in -/

theorem isCanonical_of_mem_ancestors (hpath : IsCanonical path) (h : directory ∈ ancestors path) :
    IsCanonical directory := by
  obtain ⟨before, after, -, -, hparts, hdir⟩ := (mem_ancestors_iff_isParent hpath).mp h
  refine isCanonical_of_render hdir fun part hpart => ?_
  exact isComponent_of_canonical hpath (hparts ▸ List.mem_append_left after hpart)

theorem ne_root_of_mem_ancestors (hpath : IsCanonical path) (h : directory ∈ ancestors path) :
    directory ≠ "/" := by
  obtain ⟨before, after, hbefore, -, hparts, hdir⟩ := (mem_ancestors_iff_isParent hpath).mp h
  have hplain : ∀ part ∈ before, IsPlain part := fun part hpart =>
    isPlain_of_mem_components (hparts ▸ List.mem_append_left after hpart)
  rintro rfl
  have hnone : components (render before) = [] := by
    rw [← hdir]
    rfl
  rw [components_render hplain] at hnone
  exact hbefore hnone

theorem isWithin_of_mem_ancestors_self (h : directory ∈ ancestors path) :
    isWithin path directory = true := by
  obtain ⟨-, after, hpath⟩ := mem_ancestors_iff.mp h
  exact isWithin_iff.mpr (Or.inr (Or.inr ⟨after, hpath⟩))

/-- The directories that a path lies in are those between the root and the path. -/
theorem mem_ancestors_iff_isWithin (hpath : IsCanonical path) :
    directory ∈ ancestors path ↔ IsCanonical directory ∧ directory ≠ "/" ∧ directory ≠ path ∧
      isWithin path directory = true := by
  constructor
  · intro h
    refine ⟨isCanonical_of_mem_ancestors hpath h, ne_root_of_mem_ancestors hpath h, ?_,
      isWithin_of_mem_ancestors_self h⟩
    rintro rfl
    exact not_mem_ancestors_self directory h
  · rintro ⟨hdir, hroot, hne, hwithin⟩
    rcases isWithin_iff.mp hwithin with heq | heq | ⟨after, hafter⟩
    · exact absurd heq hroot
    · exact absurd heq.symm hne
    · exact mem_ancestors_iff.mpr ⟨hdir.ne_empty, after, hafter⟩

/-- Of two directories that a path lies in, the longer one lies in the other. -/
theorem mem_ancestors_of_length_lt {inner : String} (h : directory ∈ ancestors path)
    (h' : inner ∈ ancestors path) (hlt : directory.length < inner.length) :
    directory ∈ ancestors inner := by
  obtain ⟨hne, after, hpath⟩ := mem_ancestors_iff.mp h
  obtain ⟨-, after', hpath'⟩ := mem_ancestors_iff.mp h'
  rw [← String.length_toList, ← String.length_toList] at hlt
  have hcut : directory.toList ++ ['/'] <+: path.toList := ⟨after, by simp [hpath]⟩
  have hinner : inner.toList <+: path.toList := ⟨'/' :: after', hpath'.symm⟩
  have hlength : (directory.toList ++ ['/']).length ≤ inner.toList.length := by
    rw [List.length_append, List.length_singleton]
    exact hlt
  obtain ⟨between, hbetween⟩ := List.prefix_of_prefix_length_le hcut hinner hlength
  exact mem_ancestors_iff.mpr ⟨hne, between, by simp [← hbetween]⟩

theorem utf8ByteSize_lt_of_mem_ancestors (h : directory ∈ ancestors path) :
    directory.utf8ByteSize < path.utf8ByteSize := by
  obtain ⟨-, after, hpath⟩ := mem_ancestors_iff.mp h
  have hjoin : path = directory ++ ("/" ++ String.ofList after) := by
    rw [← String.toList_inj]
    simp [hpath]
  rw [hjoin, String.utf8ByteSize_append, String.utf8ByteSize_append]
  have hslash : "/".utf8ByteSize = 1 := by decide
  omega

/-- Directories come outermost first: each lies in those before it and is longer, and none of those
lies in it. -/
theorem ancestors_pairwise_mem (path : String) :
    (ancestors path).Pairwise (fun outer inner => outer ∈ ancestors inner) := by
  refine (ancestors_pairwise_length path).imp_of_mem fun houter hinner hlt => ?_
  exact mem_ancestors_of_length_lt houter hinner hlt

/-- **Canonical paths are ordered by their components.**  A path lies within another if and only if
the components of the other come first among its own.  So this is a partial order with the root as
its least element, and a path goes on below another only behind a slash.  The directories that a
path lies in are the canonical paths other than the root and itself that it lies within, each once.
They get longer, each lies within all those before it, and none of those lies within it. -/
theorem isWithin_componentOrder {path base : String} (hpath : IsCanonical path)
    (hbase : IsCanonical base) :
    (isWithin path base = true ↔ components base.toList <+: components path.toList) ∧
    (isWithin path path = true ∧
      (isWithin path base = true → isWithin base path = true → path = base) ∧
      ∀ outer, IsCanonical outer → isWithin path base = true → isWithin base outer = true →
        isWithin path outer = true) ∧
    (IsCanonical "/" ∧ isWithin path "/" = true) ∧
    (base ≠ "/" → ∀ rest,
      (isWithin (base ++ rest) base = true ↔ rest = "" ∨ rest.toList.head? = some '/')) ∧
    (∀ directory, directory ∈ ancestors path ↔ IsCanonical directory ∧ directory ≠ "/" ∧
      directory ≠ path ∧ isWithin path directory = true) ∧
    (ancestors path).Nodup ∧
    (ancestors path).Pairwise fun outer inner =>
      outer.length < inner.length ∧ outer.utf8ByteSize < inner.utf8ByteSize ∧
        isWithin inner outer = true ∧ ¬isWithin outer inner = true := by
  refine ⟨isWithin_iff_components hpath hbase, ⟨isWithin_refl path, isWithin_antisymm hpath hbase,
    fun outer houter => isWithin_trans hpath hbase houter⟩, ⟨rfl, isWithin_root path⟩,
    isWithin_append_iff, fun directory => mem_ancestors_iff_isWithin hpath,
    ancestors_nodup path, ?_⟩
  refine (ancestors_pairwise_mem path).imp fun {outer inner} hmem => ?_
  exact ⟨length_lt_of_mem_ancestors hmem, utf8ByteSize_lt_of_mem_ancestors hmem,
    isWithin_of_mem_ancestors_self hmem, not_isWithin_of_mem_ancestors hmem⟩

/-- `/opt/app/lib` lies in `/opt/app` and `/opt`, though not within `/opt/ap`. -/
theorem isWithin_componentOrder_app :
    (IsCanonical "/opt/app/lib" ∧ IsCanonical "/opt/ap") ∧
      ¬isWithin "/opt/app/lib" "/opt/ap" = true ∧ "/opt/app" ∈ ancestors "/opt/app/lib" := by
  have happ : IsCanonical "/opt/app/lib" := rfl
  have hap : IsCanonical "/opt/ap" := rfl
  obtain ⟨hcomponents, -, -, -, hmem, -⟩ := isWithin_componentOrder happ hap
  refine ⟨⟨happ, hap⟩, fun h => absurd (hcomponents.mp h) (by decide), ?_⟩
  exact (hmem "/opt/app").mpr ⟨rfl, by decide, by decide, rfl⟩

/-- The directories do not lie within those behind them. -/
theorem ancestors_not_inward :
    IsCanonical "/opt/app/lib" ∧ ancestors "/opt/app/lib" = ["/opt", "/opt/app"] ∧
      ¬isWithin "/opt" "/opt/app" = true := by
  refine ⟨rfl, rfl, ?_⟩
  decide

end ArchivePlan.Target
