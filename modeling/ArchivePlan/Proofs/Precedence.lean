import ArchivePlan.Proofs.AddedParents
import Mathlib.Data.List.Nodup

/-! # What decides an attribute

Mode, owner, group and each flag are parts of the attributes that overlaying treats one by one
(`IsField`).  For such a part the explicit attributes decide if they set it, else the last rule that
applies and sets it (`Decides`).  Laying the rules over one another in order comes to the same
(`decides_iff`): rules in a row are the overlay of those behind on those in front
(`attributesOf_append`), so a setter is covered by each later one.

`metadata_eq_ok_iff` carries this through the choice of the ruleset and the defaults of the kind. -/

namespace ArchivePlan

/-! ### Rules in a row -/

section rules

variable (path : String) (kind : FileKind)

/-- Laying rules over attributes is laying what the rules set over them. -/
theorem foldl_overlay (below : Attributes) (rules : List Rule) :
    rules.foldl (fun a rule => a.overlay rule.effects) below =
      below.overlay (rules.foldl (fun a rule => a.overlay rule.effects) .empty) := by
  induction rules generalizing below with
  | nil => exact (below.overlay_empty).symm
  | cons rule rest ih =>
      rw [List.foldl_cons, List.foldl_cons, ih, ih (Attributes.empty.overlay rule.effects),
        Attributes.empty_overlay, Attributes.overlay_assoc]

theorem attributesOf_append (first second : List Rule) :
    attributesOf (first ++ second) path kind =
      (attributesOf first path kind).overlay (attributesOf second path kind) := by
  unfold attributesOf
  rw [List.filter_append, List.foldl_append, foldl_overlay]

theorem attributesOf_singleton (rule : Rule) :
    attributesOf [rule] path kind = if rule.applies path kind then rule.effects else .empty := by
  unfold attributesOf
  rw [List.filter_singleton]
  cases rule.applies path kind with
  | true => exact Attributes.empty_overlay _
  | false => rfl

end rules

/-! ### Parts of attributes -/

namespace Attributes

/-- A part of attributes for which the upper record decides if it sets it, else the lower one. -/
structure IsField {α : Type} (field : Attributes → Option α) : Prop where
  empty : field .empty = none
  overlay : ∀ lower upper, field (lower.overlay upper) = (field upper).or (field lower)

theorem isField_mode : IsField Attributes.mode := ⟨rfl, fun _ _ => rfl⟩

theorem isField_owner : IsField Attributes.owner := ⟨rfl, fun _ _ => rfl⟩

theorem isField_group : IsField Attributes.group := ⟨rfl, fun _ _ => rfl⟩

theorem isField_flag (flag : Flag) : IsField fun a => a.flag flag := ⟨rfl, fun _ _ => rfl⟩

end Attributes

/-- What decides a part of the attributes of a path of a kind, given the rules in their order and
the explicit attributes. -/
inductive Decides {α : Type} (field : Attributes → Option α) (rules : List Rule) (path : String)
    (kind : FileKind) (explicit : Attributes) : Option α → Prop
  /-- It is set explicitly. -/
  | explicit {value : α} (h : field explicit = some value) :
    Decides field rules path kind explicit (some value)
  /-- A rule sets it, and none behind it that applies does. -/
  | rule {before after : List Rule} {rule : Rule} {value : α} (h : field explicit = none)
    (hrules : rules = before ++ rule :: after) (happlies : rule.applies path kind = true)
    (hsets : field rule.effects = some value)
    (hlast : ∀ later ∈ after, later.applies path kind = true → field later.effects = none) :
    Decides field rules path kind explicit (some value)
  /-- Nothing sets it. -/
  | nothing (h : field explicit = none)
    (hnone : ∀ rule ∈ rules, rule.applies path kind = true → field rule.effects = none) :
    Decides field rules path kind explicit none

namespace Attributes.IsField

variable {α : Type} {field : Attributes → Option α} {path : String} {kind : FileKind}

theorem attributesOf_cons (hf : IsField field) (rule : Rule) (rules : List Rule) :
    field (attributesOf (rule :: rules) path kind) =
      (field (attributesOf rules path kind)).or
        (if rule.applies path kind then field rule.effects else none) := by
  have hcons := attributesOf_append path kind [rule] rules
  rw [List.singleton_append, attributesOf_singleton] at hcons
  rw [hcons, hf.overlay, apply_ite field, hf.empty]

theorem attributesOf_eq_none (hf : IsField field) {rules : List Rule}
    (hnone : ∀ rule ∈ rules, rule.applies path kind = true → field rule.effects = none) :
    field (attributesOf rules path kind) = none := by
  induction rules with
  | nil => exact hf.empty
  | cons rule rest ih =>
      rw [hf.attributesOf_cons, ih fun other hother => hnone other (List.mem_cons_of_mem _ hother),
        Option.none_or, ite_eq_right_iff]
      exact hnone rule List.mem_cons_self

/-- The rules set what the last setter among them sets. -/
theorem attributesOf_of_last (hf : IsField field) {before after : List Rule} {rule : Rule}
    {value : α} (happlies : rule.applies path kind = true) (hsets : field rule.effects = some value)
    (hlast : ∀ later ∈ after, later.applies path kind = true → field later.effects = none) :
    field (attributesOf (before ++ rule :: after) path kind) = some value := by
  rw [attributesOf_append, hf.overlay, hf.attributesOf_cons, hf.attributesOf_eq_none hlast,
    if_pos happlies, hsets]
  rfl

theorem decides_attributesOf (hf : IsField field) {explicit : Attributes}
    (hopen : field explicit = none) (rules : List Rule) :
    Decides field rules path kind explicit (field (attributesOf rules path kind)) := by
  induction rules with
  | nil =>
      rw [show attributesOf [] path kind = .empty from rfl, hf.empty]
      exact .nothing hopen fun rule hrule => absurd hrule List.not_mem_nil
  | cons rule rest ih =>
      rw [hf.attributesOf_cons]
      cases hrest : field (attributesOf rest path kind) with
      | some value =>
          -- the last setter of the rest is the last one of all
          rw [hrest] at ih
          cases ih with
          | explicit h => cases hopen.symm.trans h
          | rule _ hrules happlies hsets hlast =>
              exact .rule hopen (by rw [hrules, List.cons_append]) happlies hsets hlast
      | none =>
          rw [hrest] at ih
          cases ih with
          | nothing _ hnone =>
              rw [Option.none_or]
              cases hsets : if rule.applies path kind then field rule.effects else none with
              | some value =>
                  obtain ⟨happlies, hsets⟩ := Option.ite_none_right_eq_some.mp hsets
                  exact .rule hopen (List.nil_append _).symm happlies hsets hnone
              | none =>
                  rw [ite_eq_right_iff] at hsets
                  exact .nothing hopen (List.forall_mem_cons.mpr ⟨hsets, hnone⟩)

/-- **The last setter decides**: what a part of the attributes comes to is what decides it. -/
theorem decides_iff (hf : IsField field) {rules : List Rule} {explicit : Attributes}
    {value : Option α} :
    Decides field rules path kind explicit value ↔
      field ((attributesOf rules path kind).overlay explicit) = value := by
  rw [hf.overlay]
  constructor
  · rintro (h | ⟨h, rfl, happlies, hsets, hlast⟩ | ⟨h, hnone⟩)
    · rw [h, Option.some_or]
    · rw [h, Option.none_or, hf.attributesOf_of_last happlies hsets hlast]
    · rw [h, Option.none_or, hf.attributesOf_eq_none hnone]
  · rintro rfl
    cases hopen : field explicit with
    | some value => exact .explicit hopen
    | none => exact hf.decides_attributesOf hopen rules

end Attributes.IsField

/-! ### Metadata -/

/-- The rules that hold where a ruleset may be requested: those of the requested one, else those of
the default; an empty name is no request. -/
inductive Registry.Governs (registry : Registry) (requested : Option String) : List Rule → Prop
  | requested {ruleset : Ruleset} (hname : requested = some ruleset.name)
    (hnonempty : ruleset.name ≠ "") (hmem : ruleset ∈ registry.rulesets) :
    registry.Governs requested ruleset.rules
  | default {ruleset : Ruleset} (hnone : requested = none ∨ requested = some "")
    (hname : registry.default = some ruleset.name) (hmem : ruleset ∈ registry.rulesets) :
    registry.Governs requested ruleset.rules
  | none (hnone : requested = none ∨ requested = some "") (hdefault : registry.default = none) :
    registry.Governs requested []

/-- Metadata of which each part is what rules and explicit attributes decide, or else the default
of the kind. -/
structure Metadata.IsDecided (rules : List Rule) (path : String) (kind : FileKind)
    (explicit : Attributes) (m : Metadata) : Prop where
  mode : ∃ mode, Decides Attributes.mode rules path kind explicit mode ∧
    m.mode = mode.getD (Mode.defaultFor kind)
  owner : Decides Attributes.owner rules path kind explicit m.owner
  group : Decides Attributes.group rules path kind explicit m.group
  flags : ∀ flag, m.flags flag = true ↔
    Decides (fun a => a.flag flag) rules path kind explicit (some true)
  modified : m.modified = none

theorem Metadata.isDecided_iff {rules : List Rule} {path : String} {kind : FileKind}
    {explicit : Attributes} {m : Metadata} :
    m.IsDecided rules path kind explicit ↔
      m = ofAttributes kind ((attributesOf rules path kind).overlay explicit) := by
  constructor
  · rintro ⟨⟨mode, hmode, hm⟩, howner, hgroup, hflags, hmodified⟩
    refine Metadata.ext ?_ ?_ ?_ (funext fun flag => ?_) hmodified
    · rw [hm, ← Attributes.isField_mode.decides_iff.mp hmode]
      rfl
    · exact (Attributes.isField_owner.decides_iff.mp howner).symm
    · exact (Attributes.isField_group.decides_iff.mp hgroup).symm
    · rw [Bool.eq_iff_iff, hflags, (Attributes.isField_flag flag).decides_iff, ← beq_iff_eq]
      rfl
  · rintro rfl
    exact {
      mode := ⟨_, Attributes.isField_mode.decides_iff.mpr rfl, rfl⟩
      owner := Attributes.isField_owner.decides_iff.mpr rfl
      group := Attributes.isField_group.decides_iff.mpr rfl
      flags := fun flag => by
        rw [(Attributes.isField_flag flag).decides_iff]
        exact beq_iff_eq
      modified := rfl }

namespace Registry

variable {registry : Registry}

theorem get?_name {ruleset : Ruleset} (h : ruleset ∈ registry.rulesets) :
    registry.get? ruleset.name = some ruleset := by
  obtain ⟨found, hfound⟩ := registry.get?_isSome (List.mem_map_of_mem h)
  have hname : found.name = ruleset.name := by simpa using List.find?_some hfound
  have hmem : found ∈ registry.rulesets := List.mem_of_find?_eq_some hfound
  rw [hfound, List.inj_on_of_nodup_map registry.nodup hmem h hname]

theorem effective_eq_some_iff {requested : Option String} {name : String} :
    registry.effective requested = some name ↔
      requested = some name ∧ name ≠ "" ∨
        (requested = none ∨ requested = some "") ∧ registry.default = some name := by
  unfold effective
  rw [Option.or_eq_some_iff, named_eq_some_iff, named_eq_none_iff]

theorem effective_eq_none_iff {requested : Option String} :
    registry.effective requested = none ↔
      (requested = none ∨ requested = some "") ∧ registry.default = none := by
  unfold effective
  rw [Option.or_eq_none_iff, named_eq_none_iff]

/-- The attributes of a path come from the rules that govern it, if there are any such rules. -/
theorem attributes_eq_ok_iff {path : String} {kind : FileKind} {requested : Option String}
    {explicit a : Attributes} :
    registry.attributes path kind requested explicit = .ok a ↔
      ∃ rules, registry.Governs requested rules ∧
        (attributesOf rules path kind).overlay explicit = a := by
  unfold attributes
  constructor
  · intro h
    split at h
    · next heff =>
        obtain ⟨hnone, hdefault⟩ := effective_eq_none_iff.mp heff
        exact ⟨[], .none hnone hdefault, Except.ok.inj h⟩
    · next name heff =>
        split at h
        · next ruleset hget =>
            have hmem : ruleset ∈ registry.rulesets := List.mem_of_find?_eq_some hget
            obtain rfl : ruleset.name = name := by simpa using List.find?_some hget
            refine ⟨ruleset.rules, ?_, Except.ok.inj h⟩
            rcases effective_eq_some_iff.mp heff with ⟨hname, hnonempty⟩ | ⟨hnone, hname⟩
            · exact .requested hname hnonempty hmem
            · exact .default hnone hname hmem
        · cases h
  · rintro ⟨rules, hgoverns, rfl⟩
    cases hgoverns with
    | requested hname hnonempty hmem =>
        rw [effective_eq_some_iff.mpr (.inl ⟨hname, hnonempty⟩)]
        simp only [get?_name hmem]
        rfl
    | default hnone hname hmem =>
        rw [effective_eq_some_iff.mpr (.inr ⟨hnone, hname⟩)]
        simp only [get?_name hmem]
        rfl
    | none hnone hdefault =>
        rw [effective_eq_none_iff.mpr ⟨hnone, hdefault⟩]
        rfl

theorem metadata_eq_ok_iff {path : String} {kind : FileKind} {requested : Option String}
    {explicit : Attributes} {m : Metadata} :
    registry.metadata path kind requested explicit = .ok m ↔
      ∃ rules, registry.Governs requested rules ∧
        m = .ofAttributes kind ((attributesOf rules path kind).overlay explicit) := by
  unfold metadata
  constructor
  · intro h
    cases hattributes : registry.attributes path kind requested explicit with
    | error e =>
        rw [hattributes] at h
        cases h
    | ok a =>
        rw [hattributes] at h
        obtain ⟨rules, hgoverns, rfl⟩ := attributes_eq_ok_iff.mp hattributes
        exact ⟨rules, hgoverns, (Except.ok.inj h).symm⟩
  · rintro ⟨rules, hgoverns, rfl⟩
    rw [attributes_eq_ok_iff.mpr ⟨rules, hgoverns, rfl⟩]
    rfl

/-- Rules that do not apply to a path count for nothing, and neither do other rulesets. -/
theorem metadata_congr {other : Registry} {path : String} {kind : FileKind}
    {requested requested' : Option String} {rules rules' : List Rule}
    (h : registry.Governs requested rules) (h' : other.Governs requested' rules')
    (hfilter : rules.filter (·.applies path kind) = rules'.filter (·.applies path kind))
    (explicit : Attributes) :
    registry.metadata path kind requested explicit =
      other.metadata path kind requested' explicit := by
  have hsame : attributesOf rules path kind = attributesOf rules' path kind := by
    unfold attributesOf
    rw [hfilter]
  rw [metadata_eq_ok_iff.mpr ⟨rules, h, rfl⟩, metadata_eq_ok_iff.mpr ⟨rules', h', rfl⟩, hsame]

/-- **Precedence, part by part.**  The metadata of a path are there if and only if rules govern it:
those of the requested ruleset or, without a request, of the default.  Each part is then what is set
explicitly, else what the last of these rules sets that applies and sets this part, else the default
of the kind; and a flag is on if and only if `true` decides.  Rules that do not apply and other
rulesets have no influence, and evaluating two lists of rules in a row is overlaying the attributes
of the second on those of the first. -/
theorem metadata_precedence (registry : Registry) (path : String) (kind : FileKind)
    (requested : Option String) (explicit : Attributes) :
    (∀ m, registry.metadata path kind requested explicit = .ok m ↔
      ∃ rules, registry.Governs requested rules ∧ m.IsDecided rules path kind explicit) ∧
    (∀ (other : Registry) (requested' : Option String) (rules rules' : List Rule),
      registry.Governs requested rules → other.Governs requested' rules' →
      rules.filter (·.applies path kind) = rules'.filter (·.applies path kind) →
      registry.metadata path kind requested explicit =
        other.metadata path kind requested' explicit) ∧
    ∀ first second : List Rule, attributesOf (first ++ second) path kind =
      (attributesOf first path kind).overlay (attributesOf second path kind) := by
  refine ⟨fun m => ?_, fun other requested' rules rules' h h' hfilter =>
    metadata_congr h h' hfilter explicit, attributesOf_append path kind⟩
  simp only [Metadata.isDecided_iff, metadata_eq_ok_iff]

/-- Two rulesets, of which the second is the default and stays out of the matter where the first is
requested. -/
def webRegistry : Registry where
  rulesets := [
    { name := "web", rules := [
      { effects := Attributes.setFlag { owner := some "root" } .configuration true },
      { condition := { start := some "/etc/" }
        effects := Attributes.setFlag { owner := some "www" } .configuration false },
      { condition := { kind := some .directory }
        effects := { mode := some ⟨0o750, by decide⟩, owner := some "dir" } }] },
    { name := "base", rules := [{ effects := { mode := some ⟨0o600, by decide⟩ } }] }]
  default := some "base"
  nodup := by decide
  default_mem := by decide

/-- The second rule decides about owner and flag of a file, though the first one sets both; the
rule for directories does not apply, the group is explicit, and nothing sets the mode. -/
theorem metadata_precedence_web :
    ∃ m, webRegistry.metadata "/etc/web.conf" .file (some "web") { group := some "adm" } = .ok m ∧
      (∃ rules, webRegistry.Governs (some "web") rules ∧
        m.IsDecided rules "/etc/web.conf" .file { group := some "adm" }) ∧
      m.owner = some "www" ∧ m.group = some "adm" ∧ m.mode = Mode.defaultFor .file ∧
      m.flags .configuration = false := by
  refine ⟨_, rfl, ?_, rfl, rfl, rfl, rfl⟩
  exact ((metadata_precedence webRegistry "/etc/web.conf" .file (some "web")
    { group := some "adm" }).1 _).mp rfl

end Registry

end ArchivePlan
