import ArchivePlan.Proofs.Sources
import ArchivePlan.Proofs.TargetPath
import Mathlib.Data.Set.List

/-! # Target paths of collected items

The path of an item below a target is written by putting texts together, and nothing brings it into
canonical form.  It is canonical all the same if no name on the way to the item has a backslash
(`isCanonical_pathBelow`): file systems have no names with slashes or NUL in them and none that
consist of dots.

So the directories that such a path lies in are made of components.  Those strictly below the target
are the paths of directories on the way to the item (`exists_of_mem_ancestors`), and a collection
that leaves out no directory lists them before the item (`exists_outer`). -/

namespace ArchivePlan

/-! ### Canonical forms -/

namespace Target

/-- A component without a NUL that is neither `.` nor `..`, so that it names something. -/
structure IsSegment (component : List Char) : Prop where
  plain : IsPlain component
  nul_not_mem : '\x00' ∉ component
  not_dots : isDots component = false

/-- A component that canonical paths can have. -/
structure IsComponent (component : List Char) : Prop where
  plain : IsPlain component
  backslash_not_mem : '\\' ∉ component
  nul_not_mem : '\x00' ∉ component
  not_dots : isDots component = false

theorem canonicalChars_eq_ok_iff {name chars : List Char} :
    canonicalChars name = .ok chars ↔ (slashed name).head? = some '/' ∧ '\x00' ∉ slashed name ∧
      (∀ part ∈ components (slashed name), isDots part = false) ∧
      chars = render (components (slashed name)) := by
  unfold canonicalChars
  dsimp only
  have hdots : (∀ part ∈ components (slashed name), isDots part = false) ↔
      ¬(components (slashed name)).any isDots = true := by
    simp
  rw [hdots]
  split
  · next hhead => simp [hhead]
  · next hhead =>
      rw [not_not] at hhead
      split
      · next hnul => simp [hnul]
      · next hnul =>
          split
          · next hany => simp [hany]
          · next hany => simp [hhead, hnul, hany, eq_comm]

theorem slashed_eq_self {path : List Char} (h : '\\' ∉ path) : slashed path = path :=
  (List.map_congr_left fun c hc => if_neg fun heq : c = '\\' => h (heq ▸ hc)).trans
    (List.map_id path)

theorem backslash_not_mem_slashed (name : List Char) : '\\' ∉ slashed name := by
  intro h
  obtain ⟨c, -, hc⟩ := List.mem_map.mp h
  split at hc
  · cases hc
  · next hne => exact hne hc

theorem mem_of_mem_components {path part : List Char} {c : Char} (hpart : part ∈ components path)
    (hc : c ∈ part) : c ∈ path :=
  Text.mem_of_mem_splitOn (List.mem_of_mem_filter hpart) hc

theorem mem_render {parts : List (List Char)} {c : Char} (h : c ∈ render parts) :
    c = '/' ∨ ∃ part ∈ parts, c ∈ part := by
  cases parts with
  | nil => exact Or.inl (List.mem_singleton.mp h)
  | cons part parts =>
      obtain ⟨found, hfound, hc⟩ := List.mem_flatMap.mp h
      exact (List.mem_cons.mp hc).imp id fun hc => ⟨found, hfound, hc⟩

theorem isComponent_of_canonical {name path : String} (h : canonical name = .ok path)
    {part : List Char} (hpart : part ∈ components path.toList) : IsComponent part := by
  obtain ⟨-, hnul, hdots, hpath⟩ := canonicalChars_eq_ok_iff.mp (canonical_eq_ok_iff.mp h)
  rw [hpath, components_render fun _ => isPlain_of_mem_components] at hpart
  exact ⟨isPlain_of_mem_components hpart,
    fun hc => backslash_not_mem_slashed _ (mem_of_mem_components hpart hc),
    fun hc => hnul (mem_of_mem_components hpart hc), hdots part hpart⟩

theorem isCanonical_of_render {path : String} {parts : List (List Char)}
    (h : path.toList = render parts) (hparts : ∀ part ∈ parts, IsComponent part) :
    IsCanonical path := by
  have hplain : ∀ part ∈ parts, IsPlain part := fun part hpart => (hparts part hpart).plain
  have hslashed : slashed path.toList = path.toList := by
    refine slashed_eq_self fun hc => ?_
    rw [h] at hc
    rcases mem_render hc with hslash | ⟨part, hpart, hc⟩
    · cases hslash
    · exact (hparts part hpart).backslash_not_mem hc
  refine canonical_eq_ok_iff.mpr (canonicalChars_eq_ok_iff.mpr ?_)
  rw [hslashed, h, components_render hplain]
  refine ⟨?_, fun hc => ?_, fun part hpart => (hparts part hpart).not_dots, rfl⟩
  · cases parts with
    | nil => rfl
    | cons part parts => rfl
  · rcases mem_render hc with hslash | ⟨part, hpart, hc⟩
    · cases hslash
    · exact (hparts part hpart).nul_not_mem hc

end Target

/-! ### Names as texts -/

theorem Utf8.mem_ofString {text : String} {c : Char} (h : c ∈ text.toList) {b : UInt8}
    (hb : b ∈ String.utf8EncodeChar c) : b ∈ Utf8.ofString text :=
  List.mem_flatMap.mpr ⟨c, h, hb⟩

def backslash : UInt8 := 0x5C

theorem isSegment_of_isLegal {text : String} (hlegal : Name.IsLegal (Utf8.ofString text)) :
    Target.IsSegment text.toList := by
  have hne : ∀ other : List Char, Utf8.ofString text ≠ Utf8.encode other → text.toList ≠ other := by
    intro other hbytes heq
    exact hbytes (congrArg Utf8.encode heq)
  refine ⟨⟨hne [] hlegal.ne_nil, fun hc => ?_⟩, fun hc => ?_, ?_⟩
  · exact hlegal.slash_not_mem (Utf8.mem_ofString hc (by decide))
  · exact hlegal.nul_not_mem (Utf8.mem_ofString hc (by decide))
  · unfold Target.isDots
    rw [Bool.or_eq_false_iff, beq_eq_false_iff_ne, beq_eq_false_iff_ne]
    exact ⟨hne _ hlegal.ne_dot, hne _ hlegal.ne_dots⟩

theorem isComponent_of_isLegal {text : String} (hlegal : Name.IsLegal (Utf8.ofString text))
    (hbackslash : backslash ∉ Utf8.ofString text) : Target.IsComponent text.toList := by
  have hsegment := isSegment_of_isLegal hlegal
  exact ⟨hsegment.plain, fun hc => hbackslash (Utf8.mem_ofString hc (by decide)),
    hsegment.nul_not_mem, hsegment.not_dots⟩

theorem flatMap_slash {texts : List String} (hne : texts ≠ []) :
    (texts.map String.toList).flatMap ('/' :: ·) =
      '/' :: (String.intercalate "/" texts).toList := by
  rw [String.toList_intercalate]
  induction texts with
  | nil => exact absurd rfl hne
  | cons text rest ih =>
      cases rest with
      | nil => simp
      | cons next rest =>
          rw [List.map_cons, List.flatMap_cons, ih (List.cons_ne_nil _ _)]
          simp [List.intercalate_cons_cons]

/-- A path below a target is made of the components of both. -/
theorem toList_pathBelow {target : String} (htarget : Target.IsRendered target)
    {texts : List String} (hne : texts ≠ []) :
    (Resolver.pathBelow target (String.intercalate "/" texts)).toList =
      Target.render (Target.components target.toList ++ texts.map String.toList) := by
  have hflat := flatMap_slash hne
  obtain ⟨text, rest, rfl⟩ := List.exists_cons_of_ne_nil hne
  unfold Target.IsRendered at htarget
  unfold Resolver.pathBelow
  split
  · next hroot =>
      rw [hroot, String.toList_append]
      exact hflat.symm
  · next hroot =>
      cases hparts : Target.components target.toList with
      | nil =>
          rw [hparts] at htarget
          exact absurd (String.toList_inj.mp htarget) hroot
      | cons part parts =>
          rw [hparts] at htarget
          have hall : Target.render (part :: parts ++ (text :: rest).map String.toList) =
              (part :: parts).flatMap ('/' :: ·) ++
                ((text :: rest).map String.toList).flatMap ('/' :: ·) := List.flatMap_append
          rw [hall, hflat, String.toList_append, String.toList_append, htarget, List.append_assoc]
          rfl

theorem Utf8.ofString_append (text text' : String) :
    Utf8.ofString (text ++ text') = Utf8.ofString text ++ Utf8.ofString text' := by
  rw [Utf8.ofString, String.toList_append, Utf8.encode, List.flatMap_append]
  rfl

theorem Utf8.IsText.append {bytes bytes' : Bytes} (h : Utf8.IsText bytes)
    (h' : Utf8.IsText bytes') : Utf8.IsText (bytes ++ bytes') := by
  obtain ⟨text, rfl⟩ := h
  obtain ⟨text', rfl⟩ := h'
  exact ⟨text ++ text', Utf8.ofString_append text text'⟩

theorem Location.isText_join {base rest : Location} (h : Utf8.IsText base.bytes)
    (h' : Utf8.IsText rest.bytes) : Utf8.IsText (base.join rest).bytes := by
  have hslash : Utf8.IsText (slash :: rest.bytes) := by
    have hone : Utf8.IsText [slash] := ⟨"/", by decide⟩
    exact hone.append h'
  unfold join
  split
  · exact h'
  · split
    · exact h.append h'
    · exact h.append hslash

theorem Item.isText_location {root : Location} (h : Utf8.IsText root.bytes)
    (texts : List String) : Utf8.IsText (location root (texts.map Utf8.ofString)).bytes := by
  induction texts generalizing root with
  | nil => exact h
  | cons text rest ih => exact ih (Location.isText_join h ⟨text, rfl⟩)

/-! ### Items and texts -/

/-- No name below a directory has a backslash. -/
def Node.LacksBackslash (dir : Node) : Prop :=
  ∀ names node, dir.get? names = some node → ∀ name ∈ names, backslash ∉ name

namespace Item

variable {item : Item} {root : Location} {dir node : Node} {texts before after : List String}
  {name target : String}

/-- An item is made of the node that texts lead to from a directory. -/
structure IsAt (item : Item) (root : Location) (dir : Node) (texts : List String) (node : Node) :
    Prop where
  ne_nil : texts ≠ []
  found : dir.get? (texts.map Utf8.ofString) = some node
  describes : item.Describes root (texts.map Utf8.ofString, node)

theorem IsAt.path (h : item.IsAt root dir texts node) :
    item.path = String.intercalate "/" texts := by
  rw [← Utf8.ofString_inj, ofString_intercalate]
  exact h.describes.path

theorem IsAt.isComponent (h : item.IsAt root dir texts node) (hlegal : dir.IsLegal)
    (hnames : dir.LacksBackslash) :
    ∀ part ∈ texts.map String.toList, Target.IsComponent part := by
  intro part hpart
  obtain ⟨text, htext, rfl⟩ := List.mem_map.mp hpart
  have hname : Utf8.ofString text ∈ texts.map Utf8.ofString := List.mem_map_of_mem htext
  exact isComponent_of_isLegal ((hlegal.get? h.found).1 _ hname) (hnames _ _ h.found _ hname)

theorem IsAt.isComponent_append (h : item.IsAt root dir texts node) (hlegal : dir.IsLegal)
    (hnames : dir.LacksBackslash) (htarget : Target.canonical name = .ok target) :
    ∀ part ∈ Target.components target.toList ++ texts.map String.toList,
      Target.IsComponent part := fun part hpart =>
  (List.mem_append.mp hpart).elim (Target.isComponent_of_canonical htarget)
    (h.isComponent hlegal hnames part)

theorem IsAt.toList_pathBelow (h : item.IsAt root dir texts node)
    (htarget : Target.canonical name = .ok target) :
    (Resolver.pathBelow target item.path).toList =
      Target.render (Target.components target.toList ++ texts.map String.toList) := by
  rw [h.path]
  exact ArchivePlan.toList_pathBelow (Target.isRendered_of_canonical htarget) h.ne_nil

/-- **The path of an item below a canonical target is canonical.** -/
theorem IsAt.isCanonical_pathBelow (h : item.IsAt root dir texts node) (hlegal : dir.IsLegal)
    (hnames : dir.LacksBackslash) (htarget : Target.canonical name = .ok target) :
    Target.IsCanonical (Resolver.pathBelow target item.path) :=
  Target.isCanonical_of_render (h.toList_pathBelow htarget)
    (h.isComponent_append hlegal hnames htarget)

/-- Strictly below the target the path lies in what the first texts lead to. -/
theorem IsAt.exists_of_mem_ancestors (h : item.IsAt root dir texts node) (hlegal : dir.IsLegal)
    (hnames : dir.LacksBackslash) (htarget : Target.canonical name = .ok target)
    {directory : String}
    (hdirectory : directory ∈ Target.ancestors (Resolver.pathBelow target item.path))
    (hwithin : Target.isWithin directory target = true) (hne : directory ≠ target) :
    ∃ before after, texts = before ++ after ∧ before ≠ [] ∧ after ≠ [] ∧
      directory = Resolver.pathBelow target (String.intercalate "/" before) := by
  have hrendered := Target.isRendered_of_canonical htarget
  have hcanonical := h.isCanonical_pathBelow hlegal hnames htarget
  have hparent := (Target.mem_ancestors_iff_isParent hcanonical).mp hdirectory
  have hbelow := (Target.isWithin_iff_isBelow hparent.isRendered hrendered).mp hwithin
  have hplain := fun part hpart => (h.isComponent_append hlegal hnames htarget part hpart).plain
  obtain ⟨first, rest, hfirst, hrest, hparts, hdir⟩ := hparent
  rw [h.toList_pathBelow htarget, Target.components_render hplain] at hparts
  have hfirstPlain : ∀ part ∈ first, Target.IsPlain part := fun part hpart =>
    hplain part (hparts ▸ List.mem_append_left rest hpart)
  unfold Target.IsBelow at hbelow
  rw [hdir, Target.components_render hfirstPlain] at hbelow
  obtain ⟨between, rfl⟩ := hbelow
  rw [List.append_assoc] at hparts
  obtain ⟨before, after, rfl, rfl, rfl⟩ :=
    List.map_eq_append_iff.mp (List.append_cancel_left hparts)
  have hbefore : before ≠ [] := by
    rintro rfl
    rw [List.map_nil, List.append_nil] at hdir
    exact hne (String.toList_inj.mp (hdir.trans hrendered.symm))
  refine ⟨before, after, rfl, hbefore, fun hnil => hrest (by rw [hnil, List.map_nil]), ?_⟩
  rw [← String.toList_inj, hdir, ArchivePlan.toList_pathBelow hrendered hbefore]

end Item

/-! ### Items of a collection -/

namespace Collection

variable {collection : Collection} {selection : Selection} {root : Location} {dir node : Node}
  {items : List Item} {item : Item} {before after : List String}

theorem Lists.exists_isAt (h : collection.Lists selection root dir items) (hlegal : dir.IsLegal)
    (hnot : ¬collection.Stuck dir) (hitem : item ∈ items) :
    ∃ texts node, item.IsAt root dir texts node := by
  obtain ⟨⟨names, node⟩, hfinds, hdescribes⟩ := h.mem_iff.mp hitem
  have htexts := isText_of_not_stuck hlegal hnot hfinds.below hfinds.found
  obtain ⟨texts, rfl⟩ : names ∈ Set.range (List.map Utf8.ofString) := by
    rw [Set.range_list_map]
    exact htexts
  exact ⟨texts, node, mt List.map_eq_nil_iff.mpr hfinds.below, hfinds.found, hdescribes⟩

theorem takes_of_no_patterns (h : Selection.make collection = .ok selection)
    (hincludes : collection.includes = []) (hexcludes : collection.excludes = []) (path : String) :
    selection.takes path = true := by
  unfold Selection.make at h
  rw [hincludes, hexcludes] at h
  cases h
  rfl

/-- **A directory on the way to an item is listed before it**, if nothing is left out. -/
theorem Lists.exists_outer (h : collection.Lists selection root dir items)
    (hdirectories : collection.directories = true) (htakes : ∀ path, selection.takes path = true)
    (hitem : item.IsAt root dir (before ++ after) node) (hbefore : before ≠ [])
    (hafter : after ≠ []) :
    ∃ outer ∈ items, outer.kind = .directory ∧ outer.path = String.intercalate "/" before ∧
      outer.path.toList ++ ['/'] <+: item.path.toList := by
  have hfound := hitem.found
  rw [List.map_append, Node.get?_append] at hfound
  obtain ⟨between, hbetween, hbelow⟩ := Option.bind_eq_some_iff.mp hfound
  obtain ⟨children, rfl⟩ : ∃ children, between = .directory children := by
    obtain ⟨text, rest, rfl⟩ := List.exists_cons_of_ne_nil hafter
    rw [List.map_cons, Node.get?_cons] at hbelow
    obtain ⟨child, hchild, -⟩ := Option.bind_eq_some_iff.mp hbelow
    cases between with
    | directory children => exact ⟨children, rfl⟩
    | _ => cases hchild
  have hpath : (String.intercalate "/" (before ++ after)).toList =
      (String.intercalate "/" before).toList ++ '/' :: (String.intercalate "/" after).toList := by
    have hflat := flatMap_slash (List.append_ne_nil_of_left_ne_nil hbefore after)
    rw [List.map_append, List.flatMap_append, flatMap_slash hbefore, flatMap_slash hafter] at hflat
    exact (List.cons.inj hflat).2.symm
  refine ⟨⟨String.intercalate "/" before, .directory, .none⟩, ?_, rfl, rfl, ?_⟩
  · refine h.mem_iff.mpr ⟨(before.map Utf8.ofString, .directory children), ?_, ?_⟩
    · exact ⟨mt List.map_eq_nil_iff.mp hbefore, hbetween, hdirectories,
        _, Item.ofString_intercalate before, htakes _⟩
    · exact ⟨Item.ofString_intercalate before, rfl, rfl⟩
  · rw [hitem.path, hpath]
    exact ⟨(String.intercalate "/" after).toList, by simp⟩

end Collection

end ArchivePlan
