import ArchivePlan.Proofs.StandIns

/-! # The target paths of what an entry is resolved to

A source that is no collection gives one archive entry, at the canonical target of the declared
entry.  A collection gives one for each item, at the path of the item behind the target and one
slash (`Resolver.paths_of_resolve`).  The order of the items survives that, since all paths get the
same text in front (`pathBelow_lt`).

That these paths are proper (`Target.IsProper`) follows from what file systems allow as names and
not from a canonical form, for a name may have a backslash in it: the path is made of the components
of the target and the names (`Item.IsAt.toList_pathBelow`), and each of them is a segment. -/

namespace ArchivePlan

/-! ### Proper paths -/

namespace Target

/-- A path that starts with a slash and has no part behind it that is empty, `.` or `..`, no NUL and
no slash at its end. -/
structure IsProper (path : String) : Prop where
  absolute : path.toList.head? = some '/'
  parts : ∀ part ∈ (path.toList.splitOn '/').tail, part ≠ [] ∧ part ≠ ['.'] ∧ part ≠ ['.', '.']
  nul_not_mem : '\x00' ∉ path.toList
  slash_not_last : path.toList.getLast? ≠ some '/'

theorem IsComponent.isSegment {component : List Char} (h : IsComponent component) :
    IsSegment component :=
  ⟨h.plain, h.nul_not_mem, h.not_dots⟩

theorem isProper_of_render {path : String} {parts : List (List Char)} (hne : parts ≠ [])
    (h : path.toList = render parts) (hparts : ∀ part ∈ parts, IsSegment part) : IsProper path := by
  obtain ⟨first, rest, rfl⟩ := List.exists_cons_of_ne_nil hne
  have hsplit : path.toList.splitOn '/' = [] :: first :: rest := by
    rw [h]
    exact @splitOn_append_flatMap [] _ List.not_mem_nil fun part hpart => (hparts part hpart).plain.2
  refine ⟨by rw [h]; rfl, fun part hpart => ?_, fun hnul => ?_, fun hlast => ?_⟩
  · rw [hsplit] at hpart
    have hsegment := hparts part hpart
    have hdots := hsegment.not_dots
    rw [isDots, Bool.or_eq_false_iff, beq_eq_false_iff_ne, beq_eq_false_iff_ne] at hdots
    exact ⟨hsegment.plain.1, hdots⟩
  · rw [h] at hnul
    rcases mem_render hnul with hslash | ⟨part, hpart, hnul⟩
    · cases hslash
    · exact (hparts part hpart).nul_not_mem hnul
  · -- a slash at the end would leave an empty part behind it
    obtain ⟨before, hbefore⟩ := List.getLast?_eq_some_iff.mp hlast
    rw [hbefore, List.splitOn_append_cons_self] at hsplit
    have hend : [] ∈ first :: rest := by
      cases hfront : before.splitOn '/' with
      | nil => exact absurd hfront (List.splitOn_ne_nil '/' before)
      | cons part more =>
          rw [hfront] at hsplit
          rw [← (List.cons.inj hsplit).2]
          exact List.mem_append_right more List.mem_cons_self
    exact (hparts [] hend).plain.1 rfl

end Target

/-! ### Paths below a target -/

/-- Paths behind the same target have the order of their texts. -/
theorem Resolver.pathBelow_lt {target a b : String} (h : Utf8.ofString a < Utf8.ofString b) :
    Utf8.ofString (pathBelow target a) < Utf8.ofString (pathBelow target b) := by
  unfold pathBelow
  rw [Utf8.ofString_append, Utf8.ofString_append]
  exact List.append_left_lt h

namespace Item

variable {item : Item} {root : Location} {dir node : Node} {texts : List String}
  {name target : String}

theorem IsAt.isSegment_append (h : item.IsAt root dir texts node) (hlegal : dir.IsLegal)
    (htarget : Target.canonical name = .ok target) :
    ∀ part ∈ Target.components target.toList ++ texts.map String.toList,
      Target.IsSegment part := by
  intro part hpart
  rcases List.mem_append.mp hpart with hcomponent | hname
  · exact (Target.isComponent_of_canonical htarget hcomponent).isSegment
  · obtain ⟨text, htext, rfl⟩ := List.mem_map.mp hname
    exact isSegment_of_isLegal
      ((hlegal.get? h.found).1 _ (List.mem_map_of_mem htext))

/-- **The path of an item below a canonical target is proper and lies strictly below it.** -/
theorem IsAt.isProper_pathBelow (h : item.IsAt root dir texts node) (hlegal : dir.IsLegal)
    (htarget : Target.canonical name = .ok target) :
    Target.IsProper (Resolver.pathBelow target item.path) ∧
      Target.isWithin (Resolver.pathBelow target item.path) target = true ∧
      Resolver.pathBelow target item.path ≠ target := by
  have hrender := h.toList_pathBelow htarget
  have hsegments := h.isSegment_append hlegal htarget
  have hplain := fun part hpart => (hsegments part hpart).plain
  have hnames : texts.map String.toList ≠ [] := mt List.map_eq_nil_iff.mp h.ne_nil
  have hbelow : Target.components (Resolver.pathBelow target item.path).toList =
      Target.components target.toList ++ texts.map String.toList := by
    rw [hrender, Target.components_render hplain]
  refine ⟨Target.isProper_of_render (List.append_ne_nil_of_right_ne_nil _ hnames) hrender hsegments,
    ?_, fun heq => ?_⟩
  · refine (Target.isWithin_iff_isBelow (Target.isRendered_of_render hrender hplain)
      (Target.isRendered_of_canonical htarget)).mpr ?_
    rw [Target.IsBelow, hbelow]
    exact List.prefix_append _ _
  · rw [heq, List.self_eq_append_right] at hbelow
    exact hnames hbelow

end Item

/-! ### Resolved entries -/

namespace Resolver

variable {resolver : Resolver} {fs : FileSystem} {entry : Entry} {ds : List Descriptor}
  {target : String}

theorem path_of_descriptor {path : String} {kind : EntryKind} {content : Content}
    {explicit : Attributes} {d : Descriptor}
    (h : resolver.descriptor entry path kind content explicit = .ok d) : d.path = path := by
  obtain ⟨metadata, -, rfl⟩ := descriptor_eq_ok_iff.mp h
  rfl

/-- The archive entries of items are at the paths of the items below the target, in order. -/
theorem map_path_of_items {items : List Item}
    (h : List.Forall₂ (fun item d => resolver.descriptor entry (pathBelow target item.path)
      item.kind item.content entry.explicit = .ok d) items ds) :
    ds.map (·.path) = items.map fun item => pathBelow target item.path := by
  rw [← List.forall₂_eq_eq_eq, List.forall₂_map_left_iff, List.forall₂_map_right_iff]
  exact h.flip.imp fun d item hd => path_of_descriptor hd

/-- **The target paths of a resolved entry.**  The declared name has a canonical form.  A collection
gives archive entries at the paths of its items behind this target and one slash, strictly
increasing in the order of their bytes, each strictly below the target and proper; any other source
gives one archive entry, at the target. -/
theorem paths_of_resolve (hlegal : fs.root.IsLegal) (h : resolver.resolve fs entry = .ok ds) :
    ∃ source target, entry.source = .ok source ∧ Target.canonical entry.name = .ok target ∧
      match source with
      | .collect collection =>
        (∃ items, collection.items fs (resolver.locate fs collection.root) = .ok items ∧
          ds.map (·.path) =
            items.map fun item => (if target = "/" then "/" else target ++ "/") ++ item.path) ∧
        ds.Pairwise (fun a b => Utf8.ofString a.path < Utf8.ofString b.path) ∧
        ∀ d ∈ ds, Target.IsProper d.path ∧ Target.isWithin d.path target = true ∧ d.path ≠ target
      | _ => ∃ d, ds = [d] ∧ d.path = target := by
  obtain ⟨source, target, hsource, htarget, -, h⟩ := exists_of_resolve h
  have hcanonical := Entry.target_eq_ok_iff.mp htarget
  refine ⟨source, target, hsource, hcanonical, ?_⟩
  rcases ofSource_cases h with
    ⟨kind, content, explicit, d, hasks, hd, rfl⟩ | ⟨collection, items, rfl, hitems, heach⟩
  · have hone : ∃ e, [d] = [e] ∧ e.path = target := ⟨d, rfl, path_of_descriptor hd⟩
    cases hasks <;> exact hone
  · have hpaths := map_path_of_items heach
    obtain ⟨selection, dir, -, hroot, -, hnot, hlists⟩ := lists_of_items hlegal hitems
    have hdir := FileSystem.isLegal_of_node hlegal hroot
    refine ⟨⟨items, hitems, ?_⟩, ?_, fun d hd => ?_⟩
    · rw [hpaths]
      refine List.map_congr_left fun item _ => ?_
      unfold pathBelow
      split
      · next hslash => rw [hslash]
      · rfl
    · have hincreasing : (items.map fun item => pathBelow target item.path).Pairwise
          fun a b => Utf8.ofString a < Utf8.ofString b :=
        List.pairwise_map.mpr (hlists.increasing.imp pathBelow_lt)
      rwa [← hpaths, List.pairwise_map] at hincreasing
    · obtain ⟨item, hitem, hresolved⟩ := exists_of_forall₂ heach.flip hd
      obtain ⟨texts, node, hat⟩ := hlists.exists_isAt hdir hnot hitem
      rw [path_of_descriptor hresolved]
      exact hat.isProper_pathBelow hdir hcanonical

/-- What lies below `/t` is found under `/opt` in order: a directory, the file in it and a link. -/
theorem paths_of_resolve_collectedTree :
    Plan.collectedTree.root.IsLegal ∧
    ({ registry := {} } : Resolver).resolve Plan.collectedTree
        { name := "/opt", collect := some { root := "/t", symbolicLinks := true } } =
      .ok Plan.collectedDescriptors ∧
    Plan.collectedDescriptors.map (·.path) = ["/opt/d", "/opt/d/f", "/opt/l"] ∧
    Plan.collectedDescriptors.Pairwise
      (fun a b => Utf8.ofString a.path < Utf8.ofString b.path) ∧
    ∀ d ∈ Plan.collectedDescriptors,
      Target.IsProper d.path ∧ Target.isWithin d.path "/opt" = true ∧ d.path ≠ "/opt" := by
  have hlegal := Plan.collectedTree_isSound.legal
  have hresolve := Plan.resolve_collectedTree
  obtain ⟨source, target, hsource, htarget, hpaths⟩ := paths_of_resolve hlegal hresolve
  have hcollect : Except.ok (.collect { root := "/t", symbolicLinks := true }) = .ok source :=
    hsource
  have hopt : Except.ok "/opt" = .ok target := htarget
  cases hcollect
  cases hopt
  exact ⟨hlegal, hresolve, rfl, hpaths.2⟩

end Resolver

end ArchivePlan
