import ArchivePlan.Collect
import ArchivePlan.Proofs.DirectoryTree

/-! # What locations lead to

`Advances` says part by part where a location leads up to the next link, and `Follows` goes on
through links; `advance` and `follow` compute them (`advance_eq_ok_iff`, `follow_eq_ok_iff`).  Parts
that are no components are passed over: dropping some of them (`Sparser`) keeps what is found
(`Follows.sparser`), so two locations with the same key that both lead somewhere lead to the same
place (`resolve_of_key_eq`).  Names behind a location that leads to a directory lead on from there
(`Follows.append`); so what a collection finds below its root is found again at the locations that
it gives, unless a location is too long (`node_location`). -/

namespace ArchivePlan

/-! ### Parts that are passed over -/

namespace Location

theorem isComponent_eq_false_iff {part : Bytes} :
    isComponent part = false ↔ part = [] ∨ part = [dot] := by
  unfold isComponent
  by_cases h : part = [] <;> simp [h]

/-- The second list of parts is the first without some that are no components. -/
inductive Sparser : List Bytes → List Bytes → Prop
  | nil : Sparser [] []
  | drop {part : Bytes} {parts parts' : List Bytes} (hpart : isComponent part = false)
      (h : Sparser parts parts') : Sparser (part :: parts) parts'
  | keep {part : Bytes} {parts parts' : List Bytes} (h : Sparser parts parts') :
      Sparser (part :: parts) (part :: parts')

namespace Sparser

variable {parts parts' parts'' more more' : List Bytes}

theorem refl (parts : List Bytes) : Sparser parts parts := by
  induction parts with
  | nil => exact .nil
  | cons part parts ih => exact .keep ih

theorem trans (h : Sparser parts parts') (h' : Sparser parts' parts'') :
    Sparser parts parts'' := by
  induction h generalizing parts'' with
  | nil => exact h'
  | drop hpart _ ih => exact .drop hpart (ih h')
  | keep _ ih =>
      cases h' with
      | drop hpart h' => exact .drop hpart (ih h')
      | keep h' => exact .keep (ih h')

theorem append (h : Sparser parts parts') (h' : Sparser more more') :
    Sparser (parts ++ more) (parts' ++ more') := by
  induction h with
  | nil => exact h'
  | drop hpart _ ih => exact .drop hpart ih
  | keep _ ih => exact .keep ih

theorem filter (parts : List Bytes) : Sparser parts (parts.filter isComponent) := by
  induction parts with
  | nil => exact .nil
  | cons part parts ih =>
      rw [List.filter_cons]
      split
      · exact .keep ih
      · next hpart => exact .drop (by simpa using hpart) ih

end Sparser

theorem filter_parts_of_key_eq {l l' : Location} (h : l.key = l'.key) :
    l.parts.filter isComponent = l'.parts.filter isComponent := by
  have hcomponents : ∀ l : Location,
      l.components.filter isComponent = l.parts.filter isComponent := by
    intro l
    unfold components
    split
    · next hparts => rw [hparts]
    · next first rest hparts =>
        rw [hparts, List.filter_append, List.filter_filter, List.filter_cons]
        by_cases hfirst : first = []
        · have hempty : isComponent [] = false := rfl
          simp [hfirst, hempty]
        · by_cases hcomponent : isComponent first = true <;> simp [hfirst, hcomponent]
  rw [← hcomponents l, ← hcomponents l', (Prod.mk.inj h).2]

end Location

/-! ### Following parts -/

namespace FileSystem

open Location (Sparser isComponent isComponent_eq_false_iff)

variable {fs : FileSystem} {place found : List Name} {node dir : Node}
  {parts parts' : List Bytes}

/-- A part that names what lies in a directory. -/
structure IsName (part : Bytes) : Prop where
  component : isComponent part = true
  ne_dots : part ≠ [dot, dot]
  length_le : part.length ≤ maxName

/-- Where parts lead from a place, up to the next link or to a name that is missing. -/
inductive Advances (fs : FileSystem) : List Name → List Bytes → Halt → Prop
  | stop {place : List Name} {node : Node} (hnode : fs.root.get? place = some node) :
      Advances fs place [] (.node place node)
  | skip {place : List Name} {part : Bytes} {parts : List Bytes} {halt : Halt}
      (hpart : isComponent part = false) (h : Advances fs place parts halt) :
      Advances fs place (part :: parts) halt
  | up {place : List Name} {parts : List Bytes} {halt : Halt}
      (h : Advances fs place.dropLast parts halt) :
      Advances fs place ([dot, dot] :: parts) halt
  | down {place : List Name} {part : Bytes} {parts : List Bytes} {halt : Halt}
      {children : List (Name × Node)} (hname : IsName part)
      (hchild : fs.root.get? (place ++ [part]) = some (.directory children))
      (h : Advances fs (place ++ [part]) parts halt) : Advances fs place (part :: parts) halt
  | link {place : List Name} {part : Bytes} {target : Bytes} (hname : IsName part)
      (hchild : fs.root.get? (place ++ [part]) = some (.symlink target)) (parts : List Bytes) :
      Advances fs place (part :: parts) (.link (place ++ [part]) target parts)
  | gap {place : List Name} {part : Bytes} (hname : IsName part)
      (hchild : fs.root.get? (place ++ [part]) = none) (parts : List Bytes) :
      Advances fs place (part :: parts) (.gap (place ++ [part]) parts)
  | last {place : List Name} {part : Bytes} {node : Node} (hname : IsName part)
      (hchild : fs.root.get? (place ++ [part]) = some node) (hnode : node.isDirectory = false)
      (hplain : ∀ target, node ≠ .symlink target) :
      Advances fs place [part] (.node (place ++ [part]) node)

theorem isName_of_isLegal {name : Name} (h : Name.IsLegal name) : IsName name where
  component := by
    rw [← Bool.not_eq_false, isComponent_eq_false_iff]
    exact fun hpart => hpart.elim h.ne_nil h.ne_dot
  ne_dots := h.ne_dots
  length_le := h.length_le

theorem get?_concat (name : Name) :
    node.get? (place ++ [name]) = (node.get? place).bind (·.child? name) := by
  rw [Node.get?_append]
  congr 1
  funext found
  rw [Node.get?_cons]
  cases found.child? name <;> rfl

theorem advance_skip {part : Bytes} (hpart : isComponent part = false) :
    fs.advance place (part :: parts) = fs.advance place parts := by
  rw [advance, if_pos (isComponent_eq_false_iff.mp hpart)]

theorem advance_up : fs.advance place ([dot, dot] :: parts) = fs.advance place.dropLast parts := by
  rw [advance, if_neg (by decide), if_pos rfl]

/-- What a name does depends on what it names: nothing, a directory, a link, or something else,
which has to come last. -/
theorem advance_name (fs : FileSystem) (place : List Name) {part : Bytes} (hname : IsName part)
    (parts : List Bytes) :
    (fs.root.get? (place ++ [part]) = none →
      fs.advance place (part :: parts) = .ok (.gap (place ++ [part]) parts)) ∧
    (∀ children, fs.root.get? (place ++ [part]) = some (.directory children) →
      fs.advance place (part :: parts) = fs.advance (place ++ [part]) parts) ∧
    (∀ target, fs.root.get? (place ++ [part]) = some (.symlink target) →
      fs.advance place (part :: parts) = .ok (.link (place ++ [part]) target parts)) ∧
    ∀ node, fs.root.get? (place ++ [part]) = some node → node.isDirectory = false →
      (∀ target, node ≠ .symlink target) → fs.advance place (part :: parts) =
        if parts = [] then .ok (.node (place ++ [part]) node) else .error .notDirectory := by
  have hskip : ¬(part = [] ∨ part = [dot]) := by
    rw [← isComponent_eq_false_iff, hname.component]
    exact Bool.noConfusion
  rw [advance, if_neg hskip, if_neg hname.ne_dots, if_neg (Nat.not_lt.mpr hname.length_le)]
  dsimp only
  rw [← get?_concat]
  refine ⟨fun h => by rw [h], fun children h => by rw [h], fun target h => by rw [h], ?_⟩
  intro node h hnode hplain
  rw [h]
  cases node with
  | directory children => cases hnode
  | symlink target => exact absurd rfl (hplain target)
  | file content | special reading => rfl

theorem advances_of_name {part : Bytes} {halt : Halt} (hname : IsName part)
    (hrest : fs.advance (place ++ [part]) parts = .ok halt →
      fs.Advances (place ++ [part]) parts halt)
    (h : fs.advance place (part :: parts) = .ok halt) : fs.Advances place (part :: parts) halt := by
  obtain ⟨hgap, hdown, hlink, hother⟩ := advance_name fs place hname parts
  cases hchild : fs.root.get? (place ++ [part]) with
  | none =>
      cases (hgap hchild).symm.trans h
      exact .gap hname hchild parts
  | some node =>
      cases node with
      | directory children =>
          exact .down hname hchild (hrest ((hdown children hchild).symm.trans h))
      | symlink target =>
          cases (hlink target hchild).symm.trans h
          exact .link hname hchild parts
      | file content | special reading =>
          have hlast := (hother _ hchild rfl fun target => Node.noConfusion).symm.trans h
          split at hlast <;> cases hlast
          next hempty =>
            subst hempty
            exact .last hname hchild rfl fun target => Node.noConfusion

/-- Each part is passed over, leads up or names something, unless it is too long. -/
theorem advance_eq_ok_iff {halt : Halt} :
    fs.advance place parts = .ok halt ↔ fs.Advances place parts halt := by
  constructor
  · intro h
    induction parts generalizing place with
    | nil =>
        rw [advance] at h
        split at h <;> cases h
        exact .stop ‹_›
    | cons part parts ih =>
        by_cases hpart : isComponent part = false
        · exact .skip hpart (ih ((advance_skip hpart).symm.trans h))
        · by_cases hup : part = [dot, dot]
          · subst hup
            exact .up (ih (advance_up.symm.trans h))
          · by_cases hlong : maxName < part.length
            · rw [advance, if_neg (by rwa [← isComponent_eq_false_iff]), if_neg hup,
                if_pos hlong] at h
              cases h
            · have hname : IsName part := ⟨by simpa using hpart, hup, Nat.not_lt.mp hlong⟩
              exact advances_of_name hname ih h
  · intro h
    induction h with
    | stop hnode => rw [advance, hnode]
    | skip hpart _ ih => exact (advance_skip hpart).trans ih
    | up _ ih => exact advance_up.trans ih
    | down hname hchild _ ih => exact ((advance_name _ _ hname _).2.1 _ hchild).trans ih
    | link hname hchild => exact (advance_name _ _ hname _).2.2.1 _ hchild
    | gap hname hchild => exact (advance_name _ _ hname _).1 hchild
    | last hname hchild hnode hplain =>
        exact (advance_name _ _ hname _).2.2.2 _ hchild hnode hplain

theorem Advances.get?_node {halt : Halt} (h : fs.Advances place parts halt)
    (hhalt : halt = .node found node) : fs.root.get? found = some node := by
  induction h with
  | stop hnode =>
      cases hhalt
      exact hnode
  | last _ hchild =>
      cases hhalt
      exact hchild
  | link | gap => cases hhalt
  | skip _ _ ih | up _ ih | down _ _ _ ih => exact ih hhalt

/-- Where parts lead from a place through at most the given number of links. -/
inductive Follows (fs : FileSystem) : Nat → List Name → List Bytes → List Name × Node → Prop
  | stop {links : Nat} {place found : List Name} {parts : List Bytes} {node : Node}
      (h : fs.Advances place parts (.node found node)) :
      Follows fs links place parts (found, node)
  | link {links : Nat} {place found : List Name} {parts rest : List Bytes} {target : Bytes}
      {result : List Name × Node} (h : fs.Advances place parts (.link found target rest))
      (hrest : Follows fs links (startOf target found.dropLast) (target.splitOn slash ++ rest)
        result) :
      Follows fs (links + 1) place parts result

theorem follow_eq_ok_iff {links : Nat} {result : List Name × Node} :
    fs.follow links place parts = .ok result ↔ fs.Follows links place parts result := by
  constructor
  · intro h
    induction links generalizing place parts with
    | zero =>
        unfold follow at h
        split at h <;> cases h
        next hadvance => exact .stop (advance_eq_ok_iff.mp hadvance)
    | succ links ih =>
        unfold follow at h
        split at h
        · cases h
        · next hadvance =>
            cases h
            exact .stop (advance_eq_ok_iff.mp hadvance)
        · cases h
        · next hadvance => exact .link (advance_eq_ok_iff.mp hadvance) (ih h)
  · intro h
    induction h with
    | stop h =>
        unfold follow
        rw [advance_eq_ok_iff.mpr h]
    | link h _ ih =>
        unfold follow
        rw [advance_eq_ok_iff.mpr h]
        exact ih

theorem Follows.get? {links : Nat} {result : List Name × Node}
    (h : fs.Follows links place parts result) : fs.root.get? result.1 = some result.2 := by
  induction h with
  | stop h => exact h.get?_node rfl
  | link _ _ ih => exact ih

/-! ### Dropping parts -/

/-- Two halts at one place, the second with sparser parts left to follow. -/
inductive Thinned : Halt → Halt → Prop
  | node (place : List Name) (node : Node) : Thinned (.node place node) (.node place node)
  | link (place : List Name) (target : Bytes) {rest rest' : List Bytes} (h : Sparser rest rest') :
      Thinned (.link place target rest) (.link place target rest')
  | gap (place : List Name) {rest rest' : List Bytes} (h : Sparser rest rest') :
      Thinned (.gap place rest) (.gap place rest')

theorem Thinned.refl (halt : Halt) : Thinned halt halt := by
  cases halt with
  | node place node => exact .node place node
  | link place target rest => exact .link place target (.refl rest)
  | gap place rest => exact .gap place (.refl rest)

theorem Advances.sparser {halt : Halt} (h : fs.Advances place parts halt)
    (hparts : Sparser parts parts') :
    ∃ halt', fs.Advances place parts' halt' ∧ Thinned halt halt' := by
  induction hparts generalizing place with
  | nil => exact ⟨halt, h, .refl halt⟩
  | drop hpart _ ih =>
      cases h with
      | skip _ h => exact ih h
      | up => cases hpart
      | down hname | link hname | gap hname | last hname =>
          cases hpart.symm.trans hname.component
  | keep hparts ih =>
      cases h with
      | skip hpart h =>
          obtain ⟨halt', h', hthinned⟩ := ih h
          exact ⟨halt', .skip hpart h', hthinned⟩
      | up h =>
          obtain ⟨halt', h', hthinned⟩ := ih h
          exact ⟨halt', .up h', hthinned⟩
      | down hname hchild h =>
          obtain ⟨halt', h', hthinned⟩ := ih h
          exact ⟨halt', .down hname hchild h', hthinned⟩
      | link hname hchild => exact ⟨_, .link hname hchild _, .link _ _ hparts⟩
      | gap hname hchild => exact ⟨_, .gap hname hchild _, .gap _ hparts⟩
      | last hname hchild hnode hplain =>
          cases hparts
          exact ⟨_, .last hname hchild hnode hplain, .node _ _⟩

/-- What is found is found without the parts that are no components. -/
theorem Follows.sparser {links : Nat} {result : List Name × Node}
    (h : fs.Follows links place parts result) (hparts : Sparser parts parts') :
    fs.Follows links place parts' result := by
  induction h generalizing parts' with
  | stop h =>
      obtain ⟨_, h', ⟨⟩⟩ := h.sparser hparts
      exact .stop h'
  | link h _ ih =>
      obtain ⟨_, h', hthinned⟩ := h.sparser hparts
      cases hthinned with
      | link _ _ hrest => exact .link h' (ih ((Sparser.refl _).append hrest))

theorem check_eq_ok_iff {bytes : Bytes} :
    check bytes = .ok () ↔ 0 ∉ bytes ∧ bytes ≠ [] ∧ bytes.length < maxLocation := by
  unfold check
  split_ifs with hnul hempty hlong
  · simp [hnul]
  · simp [hempty]
  · simp [hlong]
  · simp [hnul, hempty, Nat.lt_of_not_le hlong]

theorem resolve_eq_ok_iff {l : Location} {result : List Name × Node} :
    fs.resolve l = .ok result ↔ (0 ∉ l.bytes ∧ l.bytes ≠ [] ∧ l.bytes.length < maxLocation) ∧
      fs.Follows maxLinks (startOf l.bytes fs.workDir) l.parts result := by
  rw [← check_eq_ok_iff, ← follow_eq_ok_iff]
  unfold resolve
  cases check l.bytes <;> simp

theorem node_eq_ok_iff {l : Location} :
    fs.node l = .ok node ↔ ∃ place, fs.resolve l = .ok (place, node) := by
  unfold FileSystem.node
  cases fs.resolve l with
  | error e => simp [Except.map]
  | ok result => simp [Except.map, Prod.ext_iff]

theorem read_eq_ok_iff {l : Location} {content : Bytes} :
    fs.read l = .ok content ↔ ∃ node, fs.node l = .ok node ∧ node.reading = .ok content := by
  unfold read
  cases fs.node l <;> simp

theorem startOf_of_key_eq {l l' : Location} (hkey : l.key = l'.key) (place : List Name) :
    startOf l.bytes place = startOf l'.bytes place := by
  have habsolute : (l.bytes.head? = some slash) ↔ l'.bytes.head? = some slash := by
    simpa [Location.isAbsolute] using congrArg (· = true) (Prod.mk.inj hkey).1
  unfold startOf
  simp only [habsolute]

/-- Locations with the same key that both lead somewhere lead to the same place. -/
theorem resolve_of_key_eq {l l' : Location} (hkey : l.key = l'.key) {r r' : List Name × Node}
    (h : fs.resolve l = .ok r) (h' : fs.resolve l' = .ok r') : r = r' := by
  have hfiltered : ∀ {l : Location} {r : List Name × Node}, fs.resolve l = .ok r →
      fs.follow maxLinks (startOf l.bytes fs.workDir) (l.parts.filter isComponent) = .ok r :=
    fun {l _} h => follow_eq_ok_iff.mpr ((resolve_eq_ok_iff.mp h).2.sparser (.filter l.parts))
  have hr := hfiltered h
  rw [startOf_of_key_eq hkey, Location.filter_parts_of_key_eq hkey, hfiltered h'] at hr
  exact (Except.ok.inj hr).symm

theorem node_of_key_eq {l l' : Location} (hkey : l.key = l'.key)
    {node node' : Node} (h : fs.node l = .ok node) (h' : fs.node l' = .ok node') :
    node = node' := by
  obtain ⟨place, hresolve⟩ := node_eq_ok_iff.mp h
  obtain ⟨place', hresolve'⟩ := node_eq_ok_iff.mp h'
  exact (Prod.mk.inj (resolve_of_key_eq hkey hresolve hresolve')).2

theorem content_of_key_eq {l l' : Location} (hkey : l.key = l'.key)
    {content content' : Bytes} (h : fs.read l = .ok content) (h' : fs.read l' = .ok content') :
    content = content' := by
  obtain ⟨node, hnode, hreading⟩ := read_eq_ok_iff.mp h
  obtain ⟨node', hnode', hreading'⟩ := read_eq_ok_iff.mp h'
  obtain rfl := node_of_key_eq hkey hnode hnode'
  exact Except.ok.inj (hreading.symm.trans hreading')

/-! ### Going on from a directory -/

theorem Advances.append_of_node {halt : Halt} {more : List Bytes}
    (h : fs.Advances place parts halt) (hhalt : halt = .node found dir)
    (hdir : dir.isDirectory = true) {next : Halt} (hmore : fs.Advances found more next) :
    fs.Advances place (parts ++ more) next := by
  induction h with
  | stop =>
      cases hhalt
      exact hmore
  | skip hpart _ ih => exact .skip hpart (ih hhalt)
  | up _ ih => exact .up (ih hhalt)
  | down hname hchild _ ih => exact .down hname hchild (ih hhalt)
  | link | gap => cases hhalt
  | last _ _ hnode =>
      cases hhalt
      cases hdir.symm.trans hnode

theorem Advances.append_of_link {halt : Halt} {target : Bytes} {rest : List Bytes}
    (h : fs.Advances place parts halt) (hhalt : halt = .link found target rest)
    (more : List Bytes) :
    fs.Advances place (parts ++ more) (.link found target (rest ++ more)) := by
  induction h with
  | skip hpart _ ih => exact .skip hpart (ih hhalt)
  | up _ ih => exact .up (ih hhalt)
  | down hname hchild _ ih => exact .down hname hchild (ih hhalt)
  | link hname hchild =>
      cases hhalt
      exact .link hname hchild _
  | stop | gap | last => cases hhalt

theorem Follows.append {links : Nat} {more : List Bytes} {result : List Name × Node}
    {place' : List Name} (h : fs.Follows links place parts result)
    (hdir : result.2.isDirectory = true)
    (hmore : fs.Advances result.1 more (.node place' node)) :
    fs.Follows links place (parts ++ more) (place', node) := by
  induction h with
  | stop h => exact .stop (h.append_of_node rfl hdir hmore)
  | link h _ ih =>
      refine .link (h.append_of_link rfl more) ?_
      rw [← List.append_assoc]
      exact ih hdir hmore

/-- Names lead to what they lead to in the tree, unless that is a link. -/
theorem advances_names {names : List Name} (hplace : fs.root.get? place = some dir)
    (hlegal : dir.IsLegal) (hget : dir.get? names = some node)
    (hplain : ∀ target, node ≠ .symlink target) :
    fs.Advances place names (.node (place ++ names) node) := by
  induction names generalizing place dir with
  | nil =>
      cases hget
      rw [List.append_nil]
      exact .stop hplace
  | cons name rest ih =>
      rw [Node.get?_cons] at hget
      obtain ⟨child, hchild, hrest⟩ := Option.bind_eq_some_iff.mp hget
      obtain ⟨hname, hchildLegal⟩ := hlegal.child? hchild
      have hfound : fs.root.get? (place ++ [name]) = some child := by
        rw [get?_concat, hplace]
        exact hchild
      cases child with
      | directory children =>
          have hdown := ih hfound hchildLegal hrest
          rw [List.append_assoc, List.singleton_append] at hdown
          exact .down (isName_of_isLegal hname) hfound hdown
      | symlink target =>
          cases rest with
          | nil =>
              cases hrest
              exact absurd rfl (hplain target)
          | cons next rest => cases hrest
      | file content | special reading =>
          cases rest with
          | nil =>
              cases hrest
              exact .last (isName_of_isLegal hname) hfound rfl hplain
          | cons next rest => cases hrest
end FileSystem

/-! ### Locations below a directory -/

namespace Location

/-- A location that names lead to from a root. -/
structure Extends (root : Location) (names : List Name) (l : Location) : Prop where
  head : l.bytes.head? = root.bytes.head?
  nul : 0 ∉ root.bytes → 0 ∉ l.bytes
  parts : Sparser (root.parts ++ names) l.parts

variable {root l : Location} {name : Name} {names : List Name}

theorem Extends.ne_nil (h : root.Extends names l) (hroot : root.bytes ≠ []) : l.bytes ≠ [] := by
  intro hnil
  have hhead := h.head
  rw [hnil] at hhead
  exact hroot (List.head?_eq_none_iff.mp hhead.symm)

theorem Extends.isAbsolute (h : root.Extends names l) : l.isAbsolute = root.isAbsolute := by
  unfold Location.isAbsolute
  rw [h.head]

theorem extends_join (hroot : root.bytes ≠ []) (hname : Name.IsLegal name) :
    root.Extends [name] (root.join ⟨name⟩) := by
  have hrelative : Location.isAbsolute ⟨name⟩ = false := by
    have hhead : name.head? ≠ some slash :=
      fun h => hname.slash_not_mem (List.mem_of_mem_head? h)
    simpa [Location.isAbsolute] using hhead
  have hplain : name.splitOn slash = [name] := List.splitOn_eq_singleton hname.slash_not_mem
  have hhead : ∀ more : Bytes, (root.bytes ++ more).head? = root.bytes.head? :=
    fun more => List.head?_append_of_ne_nil _ hroot
  unfold join
  rw [if_neg (by simp [hrelative])]
  split
  · next hcase =>
      -- the root ends in a slash, and the name comes in place of the empty part behind it
      obtain ⟨before, hbefore⟩ : ∃ before, root.bytes = before ++ [slash] :=
        List.getLast?_eq_some_iff.mp (hcase.resolve_left hroot)
      refine ⟨hhead name, fun hnul hmem => ?_, ?_⟩
      · rcases List.mem_append.mp hmem with hmem | hmem
        · exact hnul hmem
        · exact hname.nul_not_mem hmem
      · unfold parts
        rw [hbefore, List.append_assoc, List.singleton_append, List.splitOn_append_cons_self,
          List.splitOn_append_cons_self, hplain, List.append_assoc]
        exact (Sparser.refl _).append (.drop rfl (.refl _))
  · refine ⟨hhead _, fun hnul hmem => ?_, ?_⟩
    · rcases List.mem_append.mp hmem with hmem | hmem
      · exact hnul hmem
      · rcases List.mem_cons.mp hmem with hslash | hmem
        · cases hslash
        · exact hname.nul_not_mem hmem
    · unfold parts
      rw [List.splitOn_append_cons_self, hplain]
      exact .refl _

theorem extends_location (hroot : root.bytes ≠ []) (hnames : ∀ name ∈ names, Name.IsLegal name) :
    root.Extends names (Item.location root names) := by
  induction names generalizing root with
  | nil => exact ⟨rfl, id, by simpa [Item.location] using Sparser.refl root.parts⟩
  | cons name rest ih =>
      obtain ⟨hname, hrest⟩ := List.forall_mem_cons.mp hnames
      have hjoin := extends_join hroot hname
      obtain ⟨hhead, hnul, hparts⟩ := ih (hjoin.ne_nil hroot) hrest
      refine ⟨hhead.trans hjoin.head, fun h => hnul (hjoin.nul h), ?_⟩
      have hstep := hjoin.parts.append (.refl rest)
      rw [List.append_assoc, List.singleton_append] at hstep
      exact hstep.trans hparts

end Location

namespace FileSystem

variable {fs fs' : FileSystem} {node dir : Node} {root : Location} {names : List Name}

theorem isLegal_of_node (hlegal : fs.root.IsLegal) (h : fs.node root = .ok dir) :
    dir.IsLegal := by
  obtain ⟨place, hresolve⟩ := node_eq_ok_iff.mp h
  exact (hlegal.get? (resolve_eq_ok_iff.mp hresolve).2.get?).2

theorem ne_nil_of_node (h : fs.node root = .ok dir) : root.bytes ≠ [] := by
  obtain ⟨place, hresolve⟩ := node_eq_ok_iff.mp h
  exact (resolve_eq_ok_iff.mp hresolve).1.2.1

/-- **What a collection finds is found again at its location**, unless the location is too long. -/
theorem node_location (hlegal : fs.root.IsLegal) (hroot : fs.node root = .ok dir)
    (hdir : dir.isDirectory = true) (hget : dir.get? names = some node)
    (hplain : ∀ target, node ≠ .symlink target) :
    fs.node (Item.location root names) = .ok node ∨
      maxLocation ≤ (Item.location root names).bytes.length ∧
        fs.node (Item.location root names) = .error .nameTooLong := by
  have hdirLegal := isLegal_of_node hlegal hroot
  obtain ⟨place, hresolve⟩ := node_eq_ok_iff.mp hroot
  obtain ⟨⟨hnul, hnonempty, -⟩, hfollows⟩ := resolve_eq_ok_iff.mp hresolve
  have hextends := Location.extends_location hnonempty (hdirLegal.get? hget).1
  by_cases hlong : maxLocation ≤ (Item.location root names).bytes.length
  · refine Or.inr ⟨hlong, ?_⟩
    unfold FileSystem.node resolve check
    rw [if_neg (hextends.nul hnul), if_neg (hextends.ne_nil hnonempty), if_pos hlong]
    rfl
  · have hstart : startOf (Item.location root names).bytes fs.workDir =
        startOf root.bytes fs.workDir := by
      unfold startOf
      rw [hextends.head]
    have hnames := advances_names hfollows.get? hdirLegal hget hplain
    refine Or.inl (node_eq_ok_iff.mpr ⟨place ++ names, resolve_eq_ok_iff.mpr ⟨?_, ?_⟩⟩)
    · exact ⟨hextends.nul hnul, hextends.ne_nil hnonempty, Nat.lt_of_not_le hlong⟩
    · rw [hstart]
      exact (hfollows.append hdir hnames).sparser hextends.parts

/-! ### Targets of links -/

/-- A file system as it can be: its tree is legal, and every link in it has a target. -/
structure IsSound (fs : FileSystem) : Prop where
  legal : fs.root.IsLegal
  target_ne_nil : ∀ names, fs.root.get? names ≠ some (.symlink [])

theorem isSound_empty : IsSound {} where
  legal := .directory List.nodup_nil (fun _ h => absurd h List.not_mem_nil)
    fun _ h => absurd h List.not_mem_nil
  target_ne_nil names := by cases names <;> rintro ⟨⟩

theorem IsSound.target_ne_nil_of_node (h : fs.IsSound) (hroot : fs.node root = .ok dir) :
    dir.get? names ≠ some (.symlink []) := by
  intro hget
  obtain ⟨place, hresolve⟩ := node_eq_ok_iff.mp hroot
  refine h.target_ne_nil (place ++ names) ?_
  rw [Node.get?_append, (resolve_eq_ok_iff.mp hresolve).2.get?]
  exact hget

/-! ### The working directory -/

theorem advance_congr (hroot : fs.root = fs'.root) (place : List Name) (parts : List Bytes) :
    fs.advance place parts = fs'.advance place parts := by
  induction parts generalizing place with
  | nil => rw [advance, advance, hroot]
  | cons part parts ih => simp only [advance, hroot, ih]

theorem follow_congr (hroot : fs.root = fs'.root) (links : Nat) (place : List Name)
    (parts : List Bytes) : fs.follow links place parts = fs'.follow links place parts := by
  induction links generalizing place parts with
  | zero =>
      unfold follow
      rw [advance_congr hroot]
  | succ links ih =>
      unfold follow
      rw [advance_congr hroot]
      simp only [ih]

/-- Where an absolute location leads to does not depend on the working directory. -/
theorem node_congr (hroot : fs.root = fs'.root) {l : Location} (h : l.isAbsolute = true) :
    fs.node l = fs'.node l := by
  have hhead : l.bytes.head? = some slash := by simpa [Location.isAbsolute] using h
  unfold node resolve startOf
  simp only [if_pos hhead, follow_congr hroot]

end FileSystem

end ArchivePlan
