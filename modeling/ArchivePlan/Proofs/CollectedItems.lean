import ArchivePlan.Collect
import ArchivePlan.Proofs.DirectoryTree
import ArchivePlan.Proofs.EncodedText
import Mathlib.Data.List.Perm.Basic
import Mathlib.Data.List.Sort
import Mathlib.Data.String.Basic

/-! # What a collection lists

The walk of a collection finds one node after the other.  Each is refused, passed over or made an
item (`ofNode_cases`), so the items are those of the nodes that the collection takes, one for each
(`ofNodes_cases`).  Their paths are the names that lead to the nodes, which no two nodes share, and
the items are listed in the order of the bytes of these paths (`Lists`).  There is only one such
list (`Lists.eq_of_mem_iff`), and the order in which directories list their children does not show
in it (`Lists.reordered`).

`items_of_tree` puts this together. -/

namespace ArchivePlan

theorem exists_of_forall₂ {α β : Type} {R : α → β → Prop} {as : List α} {bs : List β}
    (h : List.Forall₂ R as bs) {a : α} (ha : a ∈ as) : ∃ b ∈ bs, R a b := by
  induction h with
  | nil => cases ha
  | cons hab _ ih =>
      rcases List.mem_cons.mp ha with rfl | ha
      · exact ⟨_, List.mem_cons_self, hab⟩
      · obtain ⟨b, hb, hrel⟩ := ih ha
        exact ⟨b, List.mem_cons_of_mem _ hb, hrel⟩

/-! ### Paths -/

namespace Item

variable {names : List Name}

theorem ofString_intercalate (parts : List String) :
    Utf8.ofString (String.intercalate "/" parts) =
      [slash].intercalate (parts.map Utf8.ofString) := by
  rw [Utf8.ofString, String.toList_intercalate]
  induction parts with
  | nil => rfl
  | cons part rest ih =>
      cases rest with
      | nil => simp [Utf8.ofString]
      | cons next rest =>
          have hcons : List.intercalate "/".toList ((part :: next :: rest).map String.toList) =
              part.toList ++
                '/' :: List.intercalate "/".toList ((next :: rest).map String.toList) := by
            simp [List.intercalate_cons_cons]
          rw [hcons, Utf8.encode, List.flatMap_append, List.flatMap_cons]
          show _ ++ ([slash] ++ Utf8.encode _) = _
          rw [ih]
          rfl

/-- Names give a path unless one of them is no text, and its bytes are the names between slashes. -/
theorem path?_cases (names : List Name) :
    (∃ name ∈ names, Utf8.decode? name = none) ∧ path? names = none ∨
    (∀ name ∈ names, Utf8.decode? name ≠ none) ∧
      ∃ path, path? names = some path ∧ Utf8.ofString path = [slash].intercalate names := by
  have hparts : (∃ name ∈ names, Utf8.decode? name = none) ∧ names.mapM Utf8.decode? = none ∨
      (∀ name ∈ names, Utf8.decode? name ≠ none) ∧
        ∃ parts, names.mapM Utf8.decode? = some parts ∧ parts.map Utf8.ofString = names := by
    induction names with
    | nil => exact Or.inr ⟨fun name hname => absurd hname List.not_mem_nil, [], rfl, rfl⟩
    | cons name rest ih =>
        rw [List.mapM_cons]
        cases hname : Utf8.decode? name with
        | none => exact Or.inl ⟨⟨name, List.mem_cons_self, hname⟩, rfl⟩
        | some part =>
            rcases ih with ⟨⟨other, hother, hnone⟩, hrest⟩ | ⟨hall, parts, hrest, hparts⟩
            · exact Or.inl ⟨⟨other, List.mem_cons_of_mem _ hother, hnone⟩, by rw [hrest]; rfl⟩
            · refine Or.inr ⟨?_, part :: parts, by rw [hrest]; rfl, ?_⟩
              · exact List.forall_mem_cons.mpr ⟨by simp [hname], hall⟩
              · rw [List.map_cons, hparts, Utf8.decode?_eq_some_iff.mp hname]
  unfold path?
  rcases hparts with ⟨hbad, hnone⟩ | ⟨hall, parts, hsome, hparts⟩
  · exact Or.inl ⟨hbad, by rw [hnone]; rfl⟩
  · refine Or.inr ⟨hall, String.intercalate "/" parts, by rw [hsome]; rfl, ?_⟩
    rw [ofString_intercalate, hparts]

theorem path?_eq_some_iff {path : String} (h : ∀ name ∈ names, Utf8.decode? name ≠ none) :
    path? names = some path ↔ Utf8.ofString path = [slash].intercalate names := by
  rcases path?_cases names with ⟨⟨name, hname, hnone⟩, -⟩ | ⟨-, found, hfound, hbytes⟩
  · exact absurd hnone (h name hname)
  · rw [hfound, Option.some.injEq, ← hbytes, Utf8.ofString_inj, eq_comm]

/-! ### Items and nodes -/

/-- An item has the path, the kind and the content of the node that names lead to from a root. -/
structure Describes (root : Location) (p : List Name × Node) (item : Item) : Prop where
  path : Utf8.ofString item.path = [slash].intercalate p.1
  content : match p.2 with
    | .directory _ => item.kind = .directory ∧ item.content = .none
    | .symlink target =>
      item.kind = .symlink ∧ ∃ text, Utf8.ofString text = target ∧ item.content = .link text
    | .file _ | .special _ => item.kind = .file ∧ item.content = .file (location root p.1)

end Item

/-- Whether a collection has a use for a node, its path aside. -/
def Collection.wants (collection : Collection) : Node → Bool
  | .directory _ => collection.directories
  | .symlink _ => collection.symbolicLinks
  | .file _ | .special _ => true

/-- Names that are no text, or the target of a link that a collection wants. -/
def Collection.Refuses (collection : Collection) (names : List Name) (node : Node) : Prop :=
  (∃ name ∈ names, Utf8.decode? name = none) ∨
    collection.symbolicLinks = true ∧
      ∃ target, node = .symlink target ∧ Utf8.decode? target = none

/-- Whether a collection takes the node that names lead to. -/
def Collection.takes (collection : Collection) (selection : Selection)
    (p : List Name × Node) : Bool :=
  collection.wants p.2 && (Item.path? p.1).any selection.takes

namespace Item

variable (collection : Collection) (selection : Selection) (root : Location)

theorem ofNode_cases (names : List Name) (node : Node) :
    (collection.Refuses names node ∧
      ofNode collection root names node = .error (.notText (location root names))) ∨
    (¬collection.Refuses names node ∧ collection.wants node = false ∧
      ofNode collection root names node = .ok none) ∨
    ¬collection.Refuses names node ∧ collection.wants node = true ∧
      ∃ item, ofNode collection root names node = .ok (some item) ∧
        path? names = some item.path ∧ Describes root (names, node) item := by
  unfold ofNode Collection.Refuses Collection.wants
  rcases path?_cases names with ⟨hbad, hnone⟩ | ⟨hall, path, hpath, hbytes⟩
  · exact Or.inl ⟨Or.inl hbad, by rw [hnone]⟩
  · have hnames : ¬∃ name ∈ names, Utf8.decode? name = none :=
      fun ⟨name, hname, hnone⟩ => hall name hname hnone
    simp only [hpath, hnames, false_or]
    cases node with
    | file content =>
        refine Or.inr (Or.inr ⟨?_, rfl, _, rfl, rfl, hbytes, rfl, rfl⟩)
        rintro ⟨-, target, ⟨⟩, -⟩
    | special reading =>
        refine Or.inr (Or.inr ⟨?_, rfl, _, rfl, rfl, hbytes, rfl, rfl⟩)
        rintro ⟨-, target, ⟨⟩, -⟩
    | directory children =>
        have hlink : ¬(collection.symbolicLinks = true ∧
            ∃ target, Node.directory children = .symlink target ∧ Utf8.decode? target = none) := by
          rintro ⟨-, target, ⟨⟩, -⟩
        cases hdirectories : collection.directories with
        | false => exact Or.inr (Or.inl ⟨hlink, rfl, rfl⟩)
        | true => exact Or.inr (Or.inr ⟨hlink, rfl, _, rfl, rfl, hbytes, rfl, rfl⟩)
    | symlink target =>
        cases hlinks : collection.symbolicLinks with
        | false =>
            refine Or.inr (Or.inl ⟨?_, rfl, rfl⟩)
            rintro ⟨⟨⟩, -⟩
        | true =>
            cases htarget : Utf8.decode? target with
            | none => exact Or.inl ⟨⟨rfl, target, rfl, htarget⟩, by simp [htarget]⟩
            | some text =>
                refine Or.inr (Or.inr ⟨?_, rfl, ⟨path, .symlink, .link text⟩, by simp [htarget],
                  rfl, hbytes, rfl, text, ?_, rfl⟩)
                · rintro ⟨-, _, ⟨⟩, hnone⟩
                  cases htarget.symm.trans hnone
                · exact Utf8.decode?_eq_some_iff.mp htarget

/-- Nodes are refused, or the items are those of the nodes that the collection takes. -/
theorem ofNodes_cases (nodes : List (List Name × Node)) :
    (∃ p ∈ nodes, collection.Refuses p.1 p.2 ∧
      ofNodes collection selection root nodes = .error (.notText (location root p.1))) ∨
    (∀ p ∈ nodes, ¬collection.Refuses p.1 p.2) ∧
      ∃ items, ofNodes collection selection root nodes = .ok items ∧
        List.Forall₂ (Describes root) (nodes.filter (collection.takes selection)) items := by
  induction nodes with
  | nil => exact Or.inr ⟨fun p hp => absurd hp List.not_mem_nil, [], rfl, .nil⟩
  | cons p rest ih =>
      obtain ⟨names, node⟩ := p
      rw [ofNodes]
      rcases ofNode_cases collection root names node with ⟨hrefuses, herror⟩ | hrest
      · exact Or.inl ⟨_, List.mem_cons_self, hrefuses, by rw [herror]⟩
      · have hself : ¬collection.Refuses names node := by
          rcases hrest with ⟨h, -⟩ | ⟨h, -⟩ <;> exact h
        rcases ih with ⟨p, hp, hrefuses, herror⟩ | ⟨hall, items, hitems, hdescribe⟩
        · refine Or.inl ⟨p, List.mem_cons_of_mem _ hp, hrefuses, ?_⟩
          rcases hrest with ⟨-, -, hok⟩ | ⟨-, -, item, hok, -⟩ <;> simp only [hok, herror]
        · refine Or.inr ⟨List.forall_mem_cons.mpr ⟨hself, hall⟩, ?_⟩
          rcases hrest with ⟨-, hwants, hok⟩ | ⟨-, hwants, item, hok, hpath, hitem⟩
          · have htakes : collection.takes selection (names, node) = false := by
              simp [Collection.takes, hwants]
            simp only [hok, hitems]
            rw [List.filter_cons_of_neg (by simp [htakes])]
            exact ⟨items, rfl, hdescribe⟩
          · have htakes : collection.takes selection (names, node) =
                selection.takes item.path := by
              simp [Collection.takes, hwants, hpath]
            simp only [hok, hitems]
            cases hselected : selection.takes item.path with
            | false =>
                rw [List.filter_cons_of_neg (by simp [htakes, hselected])]
                exact ⟨items, by simp [Option.filter, hselected], hdescribe⟩
            | true =>
                rw [List.filter_cons_of_pos (by rw [htakes, hselected])]
                exact ⟨item :: items, by simp [Option.filter, hselected], .cons hitem hdescribe⟩

/-! ### Order -/

variable {collection selection root}

theorem intercalate_inj {names names' : List Name} (hne : names ≠ []) (hne' : names' ≠ [])
    (hslash : ∀ name ∈ names, slash ∉ name) (hslash' : ∀ name ∈ names', slash ∉ name)
    (h : [slash].intercalate names = [slash].intercalate names') : names = names' := by
  rw [← List.splitOn_intercalate slash hslash hne, h, List.splitOn_intercalate slash hslash' hne']

theorem Describes.unique {p : List Name × Node} {a b : Item} (ha : Describes root p a)
    (hb : Describes root p b) : a = b := by
  obtain ⟨names, node⟩ := p
  obtain ⟨pathA, kindA, contentA⟩ := a
  obtain ⟨pathB, kindB, contentB⟩ := b
  have hpath : pathA = pathB := Utf8.ofString_inj.mp (ha.path.trans hb.path.symm)
  have hcontent : kindA = kindB ∧ contentA = contentB := by
    have hca := ha.content
    have hcb := hb.content
    cases node with
    | symlink target =>
        obtain ⟨hkindA, textA, htextA, hlinkA⟩ := hca
        obtain ⟨hkindB, textB, htextB, hlinkB⟩ := hcb
        have htext : textA = textB := Utf8.ofString_inj.mp (htextA.trans htextB.symm)
        exact ⟨hkindA.trans hkindB.symm, hlinkA.trans (htext ▸ hlinkB.symm)⟩
    | _ => exact ⟨hca.1.trans hcb.1.symm, hca.2.trans hcb.2.symm⟩
  rw [hpath, hcontent.1, hcontent.2]

theorem sorted_pairwise (items : List Item) :
    (sorted items).Pairwise fun a b => a.path ≤ b.path := by
  have htrans : ∀ a b c : Item, decide (a.path ≤ b.path) = true →
      decide (b.path ≤ c.path) = true → decide (a.path ≤ c.path) = true := by
    intro a b c hab hbc
    rw [decide_eq_true_iff] at hab hbc ⊢
    exact hab.trans hbc
  have htotal : ∀ a b : Item, (decide (a.path ≤ b.path) || decide (b.path ≤ a.path)) = true := by
    intro a b
    rw [Bool.or_eq_true, decide_eq_true_iff, decide_eq_true_iff]
    exact le_total a.path b.path
  exact (List.pairwise_mergeSort htrans htotal items).imp fun h => of_decide_eq_true h

theorem exists_sorted {found : List (List Name × Node)} {items : List Item}
    (hnodup : (found.map (·.1)).Nodup)
    (hnames : ∀ p ∈ found, p.1 ≠ [] ∧ ∀ name ∈ p.1, slash ∉ name)
    (h : List.Forall₂ (Describes root) found items) :
    (∃ found', found'.Perm found ∧ List.Forall₂ (Describes root) found' (sorted items)) ∧
      (sorted items).Pairwise fun a b => Utf8.ofString a.path < Utf8.ofString b.path := by
  obtain ⟨found', hdescribe, hperm⟩ :=
    List.perm_comp_forall₂ (List.mergeSort_perm items _) h.flip
  have hdescribe := hdescribe.flip
  refine ⟨⟨found', hperm, hdescribe⟩, ?_⟩
  have hpaths : found'.map (fun p => [slash].intercalate p.1) =
      (sorted items).map fun item => Utf8.ofString item.path := by
    rw [← List.forall₂_eq_eq_eq, List.forall₂_map_left_iff, List.forall₂_map_right_iff]
    exact hdescribe.imp fun _ _ hitem => hitem.path.symm
  have hdistinct : (found'.map fun p => [slash].intercalate p.1).Nodup := by
    have hsplit : (found'.map fun p => [slash].intercalate p.1) =
        (found'.map (·.1)).map ([slash].intercalate) := by
      rw [List.map_map]
      rfl
    rw [hsplit]
    refine ((hperm.map (·.1)).nodup_iff.mpr hnodup).map_on fun a ha b hb heq => ?_
    obtain ⟨p, hp, rfl⟩ := List.mem_map.mp ha
    obtain ⟨q, hq, rfl⟩ := List.mem_map.mp hb
    obtain ⟨hpne, hpslash⟩ := hnames p (hperm.mem_iff.mp hp)
    obtain ⟨hqne, hqslash⟩ := hnames q (hperm.mem_iff.mp hq)
    exact intercalate_inj hpne hqne hpslash hqslash heq
  rw [hpaths, List.Nodup, List.pairwise_map] at hdistinct
  refine ((sorted_pairwise items).and hdistinct).imp fun {a b} hab => ?_
  exact Utf8.ofString_lt (lt_of_le_of_ne hab.1 fun heq => hab.2 (congrArg Utf8.ofString heq))

end Item

/-! ### Collections of a directory -/

namespace Collection

variable (collection : Collection) (selection : Selection) (root : Location) {dir dir' : Node}

/-- What a collection lists below a directory: what names lead to without crossing a link, if it
wants such nodes and the selection takes the path. -/
structure Finds (dir : Node) (p : List Name × Node) : Prop where
  below : p.1 ≠ []
  found : dir.get? p.1 = some p.2
  wanted : collection.wants p.2 = true
  selected : ∃ path, Utf8.ofString path = [slash].intercalate p.1 ∧ selection.takes path = true

/-- Something below a directory has a name that is no text, or is a link that would be listed and
whose target is no text. -/
def Stuck (dir : Node) : Prop :=
  ∃ before name node, dir.get? (before ++ [name]) = some node ∧
    (¬Utf8.IsText name ∨ collection.symbolicLinks = true ∧
      ∃ target, node = .symlink target ∧ ¬Utf8.IsText target)

/-- One item for each node that a collection lists below a directory, in increasing order of the
bytes of the paths. -/
structure Lists (dir : Node) (items : List Item) : Prop where
  each : ∃ found, found.Nodup ∧ (∀ p, p ∈ found ↔ collection.Finds selection dir p) ∧
    List.Forall₂ (Item.Describes root) found items
  increasing : items.Pairwise fun a b => Utf8.ofString a.path < Utf8.ofString b.path

variable {collection selection root}

theorem stuck_iff (hlegal : dir.IsLegal) :
    collection.Stuck dir ↔ ∃ p ∈ dir.descendants, collection.Refuses p.1 p.2 := by
  unfold Stuck Refuses
  simp only [← Utf8.decode?_eq_none_iff]
  constructor
  · rintro ⟨before, name, node, hget, hcase⟩
    refine ⟨(before ++ [name], node), (Node.mem_descendants_iff hlegal).mpr ⟨by simp, hget⟩, ?_⟩
    exact hcase.imp (fun hnone => ⟨name, by simp, hnone⟩) id
  · rintro ⟨⟨names, node⟩, hmem, hcase⟩
    obtain ⟨hne, hget⟩ := (Node.mem_descendants_iff hlegal).mp hmem
    rcases hcase with ⟨name, hname, hnone⟩ | hlink
    · -- the name belongs to a node on the way
      obtain ⟨before, after, rfl⟩ := List.append_of_mem hname
      rw [← List.singleton_append, ← List.append_assoc, Node.get?_append] at hget
      obtain ⟨between, hbetween, -⟩ := Option.bind_eq_some_iff.mp hget
      exact ⟨before, name, between, hbetween, Or.inl hnone⟩
    · refine ⟨names.dropLast, names.getLast hne, node, ?_, Or.inr hlink⟩
      rwa [List.dropLast_append_getLast hne]

theorem isText_of_not_stuck (hlegal : dir.IsLegal) (hnot : ¬collection.Stuck dir)
    {names : List Name} {node : Node} (hne : names ≠ []) (hget : dir.get? names = some node) :
    ∀ name ∈ names, Utf8.IsText name := by
  intro name hname
  by_contra hbad
  rw [stuck_iff hlegal] at hnot
  exact hnot ⟨_, (Node.mem_descendants_iff hlegal).mpr ⟨hne, hget⟩,
    Or.inl ⟨name, hname, Utf8.decode?_eq_none_iff.mpr hbad⟩⟩

theorem mem_filter_takes_iff (hlegal : dir.IsLegal) (hnot : ¬collection.Stuck dir)
    {p : List Name × Node} :
    p ∈ dir.descendants.filter (collection.takes selection) ↔
      collection.Finds selection dir p := by
  obtain ⟨names, node⟩ := p
  rw [List.mem_filter, Node.mem_descendants_iff hlegal, takes, Bool.and_eq_true,
    Option.any_eq_true]
  have htexts : names ≠ [] → dir.get? names = some node →
      ∀ name ∈ names, Utf8.decode? name ≠ none := by
    intro hne hget name hname hnone
    exact Utf8.decode?_eq_none_iff.mp hnone (isText_of_not_stuck hlegal hnot hne hget name hname)
  constructor
  · rintro ⟨⟨hne, hget⟩, hwants, path, hpath, htakes⟩
    exact ⟨hne, hget, hwants, path, (Item.path?_eq_some_iff (htexts hne hget)).mp hpath, htakes⟩
  · rintro ⟨hne, hget, hwants, path, hpath, htakes⟩
    exact ⟨⟨hne, hget⟩, hwants, path, (Item.path?_eq_some_iff (htexts hne hget)).mpr hpath, htakes⟩

/-! ### The order of children -/

theorem Finds.reordered {p : List Name × Node} {item : Item}
    (h : collection.Finds selection dir p) (hreordered : dir.Reordered dir') (hlegal : dir.IsLegal)
    (hitem : item.Describes root p) :
    ∃ p', collection.Finds selection dir' p' ∧ item.Describes root p' := by
  obtain ⟨node, hget, halike⟩ := hreordered.get? hlegal h.found
  have hwanted := h.wanted
  have hcontent := hitem.content
  rcases halike with heq | ⟨hdir, hdir'⟩
  · rw [heq] at hwanted hcontent
    exact ⟨(p.1, node), ⟨h.below, hget, hwanted, h.selected⟩, hitem.path, hcontent⟩
  · obtain ⟨children, heq⟩ := Node.exists_of_isDirectory hdir
    obtain ⟨children', rfl⟩ := Node.exists_of_isDirectory hdir'
    rw [heq] at hwanted hcontent
    exact ⟨(p.1, .directory children'), ⟨h.below, hget, hwanted, h.selected⟩, hitem.path, hcontent⟩

theorem Stuck.reordered (h : collection.Stuck dir) (hreordered : dir.Reordered dir')
    (hlegal : dir.IsLegal) : collection.Stuck dir' := by
  obtain ⟨before, name, node, hget, hcase⟩ := h
  obtain ⟨node', hget', halike⟩ := hreordered.get? hlegal hget
  refine ⟨before, name, node', hget', hcase.imp id ?_⟩
  rintro ⟨hlinks, target, rfl, hnot⟩
  obtain rfl | ⟨⟨⟩, -⟩ := halike
  exact ⟨hlinks, target, rfl, hnot⟩

namespace Lists

variable {items items' : List Item}

theorem mem_iff (h : collection.Lists selection root dir items) {item : Item} :
    item ∈ items ↔ ∃ p, collection.Finds selection dir p ∧ item.Describes root p := by
  obtain ⟨found, -, hfound, hdescribe⟩ := h.each
  constructor
  · intro hmem
    obtain ⟨p, hp, hitem⟩ := exists_of_forall₂ hdescribe.flip hmem
    exact ⟨p, (hfound p).mp hp, hitem⟩
  · rintro ⟨p, hp, hitem⟩
    obtain ⟨other, hother, hdescribes⟩ := exists_of_forall₂ hdescribe ((hfound p).mpr hp)
    rwa [hitem.unique hdescribes]

/-- A listed directory stands before whatever is listed below it. -/
theorem lt_of_below (h : collection.Lists selection root dir items) {i j : Nat} {a b : Item}
    (ha : items[i]? = some a) (hb : items[j]? = some b)
    (hbelow : a.path.toList ++ ['/'] <+: b.path.toList) : i < j := by
  obtain ⟨hi, rfl⟩ := List.getElem?_eq_some_iff.mp ha
  obtain ⟨hj, rfl⟩ := List.getElem?_eq_some_iff.mp hb
  obtain ⟨below, hbelow⟩ := hbelow
  have hlt : Utf8.ofString items[i].path < Utf8.ofString items[j].path := by
    refine Utf8.encode_lt ?_
    have hlonger : items[i].path.toList ++ [] < items[i].path.toList ++ '/' :: below :=
      List.append_left_lt (List.nil_lt_cons '/' below)
    rw [← hbelow, List.append_assoc]
    simpa using hlonger
  have hincreasing := List.pairwise_iff_getElem.mp h.increasing
  rcases Nat.lt_trichotomy i j with hij | rfl | hji
  · exact hij
  · exact absurd hlt (List.lt_irrefl _)
  · exact absurd hlt (List.lt_asymm (hincreasing j i hj hi hji))

theorem eq_of_mem_iff (h : collection.Lists selection root dir items)
    (h' : collection.Lists selection root dir' items')
    (hmem : ∀ item, item ∈ items ↔ item ∈ items') : items = items' := by
  have hantisymm : ∀ a b : Item, a ∈ items → b ∈ items' →
      Utf8.ofString a.path < Utf8.ofString b.path →
      Utf8.ofString b.path < Utf8.ofString a.path → a = b :=
    fun a b _ _ hab hba => absurd hab (List.lt_asymm hba)
  have hnodup : ∀ {items : List Item}, (items.Pairwise fun a b =>
      Utf8.ofString a.path < Utf8.ofString b.path) → items.Nodup := by
    intro items h
    refine h.imp ?_
    rintro a _ hlt rfl
    exact List.lt_irrefl _ hlt
  have hperm : items.Perm items' :=
    (List.perm_ext_iff_of_nodup (hnodup h.increasing) (hnodup h'.increasing)).mpr hmem
  exact hperm.eq_of_pairwise hantisymm h.increasing h'.increasing

/-- The order of the children does not show in what is listed. -/
theorem reordered (h : collection.Lists selection root dir items)
    (h' : collection.Lists selection root dir' items') (hreordered : dir.Reordered dir')
    (hlegal : dir.IsLegal) : items = items' := by
  refine h.eq_of_mem_iff h' fun item => ?_
  rw [h.mem_iff, h'.mem_iff]
  constructor
  · rintro ⟨p, hp, hitem⟩
    exact hp.reordered hreordered hlegal hitem
  · rintro ⟨p, hp, hitem⟩
    exact hp.reordered hreordered.symm (hreordered.isLegal hlegal) hitem

end Lists

/-! ### The items of a collection -/

variable (collection selection root) in
/-- What is found below a directory is stuck or listed. -/
theorem map_sorted_ofNodes (hlegal : dir.IsLegal) :
    (collection.Stuck dir ∧
      ∃ l, (Item.ofNodes collection selection root dir.descendants).map Item.sorted =
        .error (.notText l)) ∨
    ¬collection.Stuck dir ∧
      ∃ items, (Item.ofNodes collection selection root dir.descendants).map Item.sorted =
        .ok items ∧ collection.Lists selection root dir items := by
  rw [stuck_iff hlegal]
  rcases Item.ofNodes_cases collection selection root dir.descendants with
    ⟨p, hp, hrefuses, herror⟩ | ⟨hall, items, hok, hdescribe⟩
  · exact Or.inl ⟨⟨p, hp, hrefuses⟩, _, by rw [herror]; rfl⟩
  · have hnot : ¬∃ p ∈ dir.descendants, collection.Refuses p.1 p.2 :=
      fun ⟨p, hp, hrefuses⟩ => hall p hp hrefuses
    refine Or.inr ⟨hnot, Item.sorted items, by rw [hok]; rfl, ?_⟩
    have hfinds : ∀ p, p ∈ dir.descendants.filter (collection.takes selection) ↔
        collection.Finds selection dir p :=
      fun p => mem_filter_takes_iff hlegal (by rwa [stuck_iff hlegal])
    have hnodup : ((dir.descendants.filter (collection.takes selection)).map (·.1)).Nodup :=
      (Node.descendants_nodup hlegal).sublist (List.filter_sublist.map _)
    obtain ⟨⟨found, hperm, hsorted⟩, hincreasing⟩ := Item.exists_sorted hnodup (fun p hp => by
      obtain ⟨hne, hget, -⟩ := (hfinds p).mp hp
      exact ⟨hne, fun name hname => ((hlegal.get? hget).1 name hname).slash_not_mem⟩) hdescribe
    refine ⟨⟨found, hperm.nodup_iff.mpr hnodup.of_map, fun p => ?_, hsorted⟩, hincreasing⟩
    rw [hperm.mem_iff, hfinds]

theorem items_eq {fs : FileSystem} (hselection : Selection.make collection = .ok selection)
    (hroot : fs.node root = .ok dir) (hdir : dir.isDirectory = true) :
    collection.items fs root =
      (Item.ofNodes collection selection root dir.descendants).map Item.sorted := by
  obtain ⟨children, rfl⟩ := Node.exists_of_isDirectory hdir
  unfold items
  rw [hselection, hroot]
  rfl

/-- **A collection lists exactly what it selects of a directory tree.**  It fails if and only if it
is stuck at a name or a link target that is no text.  Otherwise it lists one item for each node that
it finds, in increasing order of the bytes of the paths, a directory before what lies in it; and
nothing of this depends on the order in which directories list their children. -/
theorem items_of_tree {fs : FileSystem} (hselection : Selection.make collection = .ok selection)
    (hroot : fs.node root = .ok dir) (hdir : dir.isDirectory = true) (hlegal : dir.IsLegal) :
    ((∃ l, collection.items fs root = .error (.notText l)) ↔ collection.Stuck dir) ∧
    (¬collection.Stuck dir → ∃ items, collection.items fs root = .ok items ∧
      collection.Lists selection root dir items ∧
      ∀ (i j : Nat) (a b : Item), items[i]? = some a → items[j]? = some b →
        a.path.toList ++ ['/'] <+: b.path.toList → i < j) ∧
    ∀ (fs' : FileSystem) (dir' : Node), fs'.node root = .ok dir' → dir.Reordered dir' →
      (∃ items, collection.items fs root = .ok items ∧ collection.items fs' root = .ok items) ∨
      ∃ l l', collection.items fs root = .error (.notText l) ∧
        collection.items fs' root = .error (.notText l') := by
  have hitems := items_eq hselection hroot hdir
  have hitems' : ∀ (fs' : FileSystem) (dir' : Node), fs'.node root = .ok dir' →
      dir.Reordered dir' → collection.items fs' root =
        (Item.ofNodes collection selection root dir'.descendants).map Item.sorted := by
    intro fs' dir' hroot' hreordered
    exact items_eq hselection hroot' (hreordered.alike.isDirectory hdir)
  rcases map_sorted_ofNodes collection selection root hlegal with
    ⟨hstuck, l, herror⟩ | ⟨hnot, items, hok, hlists⟩
  · rw [← hitems] at herror
    refine ⟨iff_of_true ⟨l, herror⟩ hstuck, fun hnot => absurd hstuck hnot, ?_⟩
    intro fs' dir' hroot' hreordered
    rcases map_sorted_ofNodes collection selection root (hreordered.isLegal hlegal) with
      ⟨-, l', herror'⟩ | ⟨hnot', -⟩
    · exact Or.inr ⟨l, l', herror, (hitems' fs' dir' hroot' hreordered).trans herror'⟩
    · exact absurd (hstuck.reordered hreordered hlegal) hnot'
  · rw [← hitems] at hok
    refine ⟨iff_of_false ?_ hnot, fun _ => ⟨items, hok, hlists, ?_⟩, ?_⟩
    · rintro ⟨l, herror⟩
      cases hok.symm.trans herror
    · exact fun i j a b ha hb hbelow => hlists.lt_of_below ha hb hbelow
    · intro fs' dir' hroot' hreordered
      have hlegal' := hreordered.isLegal hlegal
      rcases map_sorted_ofNodes collection selection root hlegal' with
        ⟨hstuck', -⟩ | ⟨-, items', hok', hlists'⟩
      · exact absurd (hstuck'.reordered hreordered.symm hlegal') hnot
      · obtain rfl := hlists.reordered hlists' hreordered hlegal
        exact Or.inl ⟨items, hok, (hitems' fs' dir' hroot' hreordered).trans hok'⟩

/-- A directory that lists a file `b` before a link `a` to it. -/
def fileBeforeLink : Node :=
  .directory [([0x62], .file []), ([0x61], .symlink [0x62])]

def linkBeforeFile : Node :=
  .directory [([0x61], .symlink [0x62]), ([0x62], .file [])]

/-- The items are the same whether the file or the link is listed first. -/
theorem items_of_tree_link :
    Selection.make { root := "/d", symbolicLinks := true } = .ok ⟨[], [], true⟩ ∧
    FileSystem.node { root := .directory [([0x64], fileBeforeLink)] } (.ofString "/d") =
      .ok fileBeforeLink ∧
    fileBeforeLink.IsLegal ∧
    ∃ items,
      Collection.items { root := "/d", symbolicLinks := true }
        { root := .directory [([0x64], fileBeforeLink)] } (.ofString "/d") = .ok items ∧
      Collection.items { root := "/d", symbolicLinks := true }
        { root := .directory [([0x64], linkBeforeFile)] } (.ofString "/d") = .ok items := by
  have hselection : Selection.make { root := "/d", symbolicLinks := true } =
      .ok ⟨[], [], true⟩ := rfl
  have hroot : FileSystem.node { root := .directory [([0x64], fileBeforeLink)] }
      (.ofString "/d") = .ok fileBeforeLink := rfl
  have hlegal : fileBeforeLink.IsLegal := by
    refine .directory (by decide) (by decide) ?_
    simp only [List.forall_mem_cons, List.not_mem_nil, false_imp_iff, implies_true, and_true]
    exact ⟨.file [], .symlink [0x62]⟩
  have hreordered : fileBeforeLink.Reordered linkBeforeFile := .children (List.Perm.swap _ _ _)
  refine ⟨hselection, hroot, hlegal, ?_⟩
  obtain ⟨-, -, horder⟩ := items_of_tree hselection hroot rfl hlegal
  rcases horder { root := .directory [([0x64], linkBeforeFile)] } _ rfl hreordered with
    hsame | ⟨l, l', herror, -⟩
  · exact hsame
  · cases herror

end Collection

end ArchivePlan
