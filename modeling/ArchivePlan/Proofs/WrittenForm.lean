import ArchivePlan.Manifest.Encode
import ArchivePlan.Manifest.Load
import ArchivePlan.Proofs.DecodedFlags
import ArchivePlan.Proofs.Numerals

/-! # Reading what was written

Every part of a manifest is read from its written form as it was, save that a ghost flag has no key
and a base directory none either.  What is read has no ghost flag, so reading undoes writing for all
that can be read (`isFaithful_of_isRead`), and a second way to spell something is gone once it has
been read.

Fields are read one after the other, so a written record is followed through the records that are
complete up to a field (`readFields_append`, `readFields_optionalField`).  Rules and entries have
their attributes in the same table; each of the two reads passes over the keys of the other, which
the lists of keys show to be disjoint (`Attributes.keys`, `Entry.ownKeys`).  The same lists show
that no key comes twice (`Toml.FieldsAmong`). -/

namespace ArchivePlan

open Toml (Value)

/-! ### Regular values -/

namespace Toml

/-- A tree of tables without repeated keys, arrays, strings, integers and truth values. -/
inductive Value.IsRegular : Value → Prop
  | string (text : String) : IsRegular (.string text)
  | integer (n : Int) : IsRegular (.integer n)
  | boolean (b : Bool) : IsRegular (.boolean b)
  | array {items : List Value} (hitems : ∀ item ∈ items, IsRegular item) : IsRegular (.array items)
  | table {fields : List (String × Value)} (hkeys : (fields.map (·.1)).Nodup)
    (hfields : ∀ field ∈ fields, IsRegular field.2) : IsRegular (.table fields)

theorem Value.isRegular_ofList {α : Type} {write : α → Value} {items : List α}
    (hwrite : ∀ item ∈ items, (write item).IsRegular) : (ofList write items).IsRegular := by
  refine .array fun v hv => ?_
  obtain ⟨item, hitem, rfl⟩ := List.mem_map.mp hv
  exact hwrite item hitem

/-- Fields with regular values, whose keys are some of the given ones in their order. -/
structure FieldsAmong (keys : List String) (fields : List (String × Value)) : Prop where
  sublist : (fields.map (·.1)).Sublist keys
  regular : ∀ field ∈ fields, field.2.IsRegular

namespace FieldsAmong

variable {keys keys' : List String} {fields fields' : List (String × Value)}

theorem single (key : String) {v : Value} (hv : v.IsRegular) : FieldsAmong [key] [(key, v)] where
  sublist := .refl _
  regular := by
    intro field hfield
    rw [List.mem_singleton.mp hfield]
    exact hv

theorem optional (key : String) {α : Type} {write : α → Value} {a : Option α}
    (hwrite : ∀ x ∈ a, (write x).IsRegular) : FieldsAmong [key] (optionalField key write a) := by
  cases a with
  | none => exact ⟨List.nil_sublist _, fun _ hfield => absurd hfield List.not_mem_nil⟩
  | some x => exact single key (hwrite x rfl)

theorem append (h : FieldsAmong keys fields) (h' : FieldsAmong keys' fields') :
    FieldsAmong (keys ++ keys') (fields ++ fields') where
  sublist := by
    rw [List.map_append]
    exact h.sublist.append h'.sublist
  regular field hfield := (List.mem_append.mp hfield).elim (h.regular field) (h'.regular field)

theorem key_mem (h : FieldsAmong keys fields) {field : String × Value} (hfield : field ∈ fields) :
    field.1 ∈ keys :=
  h.sublist.subset (List.mem_map_of_mem hfield)

theorem isRegular (h : FieldsAmong keys fields) (hkeys : keys.Nodup) :
    (Value.table fields).IsRegular :=
  .table (hkeys.sublist h.sublist) h.regular

end FieldsAmong

end Toml

open Toml (FieldsAmong)

/-! ### Fields that are read in a row -/

theorem bind_eq_ok {ε α β : Type} {x : Except ε α} {f : α → Except ε β} {a : α} {b : β}
    (h : x = .ok a) (h' : f a = .ok b) : x >>= f = .ok b :=
  h ▸ h'

section readFields

variable {α β : Type} {read : α → String → Value → Except DataFault α} {a b c : α}
  {fields fields' : List (String × Value)}

theorem readFields_append (h : readFields read a fields = .ok b)
    (h' : readFields read b fields' = .ok c) : readFields read a (fields ++ fields') = .ok c := by
  unfold readFields at h h' ⊢
  rw [List.foldlM_append, h]
  exact h'

theorem readFields_single {key : String} {v : Value} (h : read a key v = .ok b) :
    readFields read a [(key, v)] = .ok b := by
  change (read a key v >>= fun b => .ok b) = .ok b
  rw [h]
  rfl

theorem readFields_optionalField {key : String} {write : β → Value} (set : Option β → α)
    (o : Option β) (h : ∀ x, read (set none) key (write x) = .ok (set (some x))) :
    readFields read (set none) (optionalField key write o) = .ok (set o) := by
  cases o with
  | none => rfl
  | some x => exact readFields_single (h x)

theorem readFields_pass (h : ∀ field ∈ fields, read a field.1 field.2 = .ok a) :
    readFields read a fields = .ok a := by
  induction fields with
  | nil => rfl
  | cons field fields ih =>
      exact readFields_append (readFields_single (h field List.mem_cons_self))
        (ih fun later hlater => h later (List.mem_cons_of_mem field hlater))

end readFields

theorem Toml.Value.asList_ofList {α : Type} {read : Value → Except DataFault α} {write : α → Value}
    {items : List α} (h : ∀ item ∈ items, read (write item) = .ok item) :
    (ofList write items).asList read = .ok items := by
  refine mapM_eq_ok_iff.mpr ?_
  rw [List.forall₂_map_left_iff, List.forall₂_same]
  exact h

/-! ### Simple values -/

theorem Mode.decode_encode (mode : Mode) : decode mode.encode = .ok mode := by
  rw [encode, decode, parse_text]
  rfl

theorem Algorithm.decode_encode (algorithm : Algorithm) :
    decode algorithm.encode = .ok algorithm := by
  cases algorithm <;> rfl

theorem Timestamp.decode_encode (time : Timestamp) : decode time.encode = .ok time := by
  cases time <;> rfl

theorem FileKind.decode_encode (kind : FileKind) : decode kind.encode = .ok kind := by
  cases kind <;> rfl

theorem Timestamp.isRegular_encode (time : Timestamp) : time.encode.IsRegular := by
  cases time with
  | epoch seconds => exact .integer seconds
  | written text => exact .string text

/-! ### Attributes -/

namespace Attributes

def keys : List String :=
  ["mode", "user", "group"] ++ Flag.all.filterMap Flag.key?

theorem fieldsAmong_flags (a : Attributes) (flags : List Flag) :
    FieldsAmong (flags.filterMap Flag.key?) (flags.flatMap a.flagField) := by
  induction flags with
  | nil => exact ⟨.refl _, fun _ hfield => absurd hfield List.not_mem_nil⟩
  | cons flag flags ih =>
      rw [List.flatMap_cons, List.filterMap_cons, flagField]
      cases flag.key? with
      | none => exact ih
      | some key => exact (FieldsAmong.optional key fun b _ => .boolean b).append ih

theorem fieldsAmong (a : Attributes) : FieldsAmong keys a.fields :=
  (((FieldsAmong.optional "mode" fun mode _ => .string mode.text).append
    (.optional "user" fun owner _ => .string owner)).append
    (.optional "group" fun group _ => .string group)).append (a.fieldsAmong_flags Flag.all)

theorem isRegular_encode (a : Attributes) : a.encode.IsRegular :=
  a.fieldsAmong.isRegular (by decide)

theorem readField_flag {flag : Flag} {key : String} (hkey : flag.key? = some key)
    (a : Attributes) (value : Bool) :
    a.readField key (.boolean value) = .ok (a.setFlag flag value) := by
  cases flag <;> cases hkey <;> rfl

theorem readFields_flagField {a : Attributes} (hghost : a.flag .ghost = none) (flag : Flag)
    (start : Attributes) :
    readFields readField start (a.flagField flag) =
      .ok { start with flag := fun f => if f = flag then (a.flag f).or (start.flag f)
        else start.flag f } := by
  rw [flagField]
  cases hvalue : a.flag flag with
  | none =>
      have hsame : (fun f => if f = flag then (a.flag f).or (start.flag f) else start.flag f) =
          start.flag := by
        funext f
        split
        · next hf => rw [hf, hvalue, Option.none_or]
        · rfl
      rw [hsame]
      cases flag.key? <;> rfl
  | some value =>
      have hset : (fun f => if f = flag then (a.flag f).or (start.flag f) else start.flag f) =
          (start.setFlag flag value).flag := by
        funext f
        by_cases hf : f = flag
        · simp [setFlag, hf, hvalue]
        · simp [setFlag, hf]
      rw [hset]
      cases hkey : flag.key? with
      | none =>
          obtain rfl : flag = .ghost := by cases flag <;> cases hkey; rfl
          cases hghost.symm.trans hvalue
      | some key => exact readFields_single (readField_flag hkey start value)

theorem readFields_flags {a : Attributes} (hghost : a.flag .ghost = none) (flags : List Flag)
    (start : Attributes) :
    readFields readField start (flags.flatMap a.flagField) =
      .ok { start with flag := fun f => if f ∈ flags then (a.flag f).or (start.flag f)
        else start.flag f } := by
  induction flags generalizing start with
  | nil => simp [readFields, pure, Except.pure]
  | cons flag flags ih =>
      rw [List.flatMap_cons]
      refine (readFields_append (readFields_flagField hghost flag start) (ih _)).trans ?_
      congr 2
      funext f
      by_cases hf : f = flag
      · subst hf
        simp [← Option.or_assoc]
      · simp [hf]

theorem readField_of_not_mem {key : String} (hkey : key ∉ "owner" :: keys) (a : Attributes)
    (v : Value) : a.readField key v = .ok a := by
  have hne : ∀ known ∈ "owner" :: keys, key ≠ known := by
    rintro known hknown rfl
    exact hkey hknown
  have hflag : Flag.ofKey? key = none := by
    refine List.find?_eq_none.mpr fun flag hflag hfound => ?_
    have hflagKey : flag.key? = some key := eq_of_beq hfound
    exact hne key (List.mem_cons_of_mem _ (List.mem_append_right _
      (List.mem_filterMap.mpr ⟨flag, hflag, hflagKey⟩))) rfl
  rw [readField, if_neg (hne "mode" (by decide)),
    if_neg (not_or.mpr ⟨hne "user" (by decide), hne "owner" (by decide)⟩),
    if_neg (hne "group" (by decide)), hflag]

/-- Attributes are read from among other fields. -/
theorem ofFields_append {a : Attributes} (hghost : a.flag .ghost = none)
    {own : List (String × Value)} (hown : ∀ field ∈ own, field.1 ∉ "owner" :: keys) :
    ofFields (own ++ a.fields) = .ok a := by
  have hpass : readFields readField empty own = .ok empty :=
    readFields_pass fun field hfield => readField_of_not_mem (hown field hfield) empty field.2
  have hmode : readFields readField empty (optionalField "mode" Mode.encode a.mode) =
      .ok { mode := a.mode } :=
    readFields_optionalField (fun mode => ({ mode } : Attributes)) a.mode fun mode => by
      rw [readField, if_pos rfl, Mode.decode_encode]
      rfl
  have howner : readFields readField { mode := a.mode }
      (optionalField "user" Value.string a.owner) = .ok { mode := a.mode, owner := a.owner } :=
    readFields_optionalField (fun owner => ({ mode := a.mode, owner } : Attributes)) a.owner
      fun _ => rfl
  have hgroup : readFields readField { mode := a.mode, owner := a.owner }
      (optionalField "group" Value.string a.group) =
      .ok { mode := a.mode, owner := a.owner, group := a.group } :=
    readFields_optionalField
      (fun group => ({ mode := a.mode, owner := a.owner, group } : Attributes)) a.group
      fun _ => rfl
  have hflags : readFields readField { mode := a.mode, owner := a.owner, group := a.group }
      (Flag.all.flatMap a.flagField) = .ok a := by
    rw [readFields_flags hghost]
    simp [Flag.mem_all]
  exact readFields_append hpass (readFields_append
    (readFields_append (readFields_append hmode howner) hgroup) hflags)

theorem decode_encode {a : Attributes} (hghost : a.flag .ghost = none) :
    decode a.encode = .ok a :=
  ofFields_append hghost fun _ hfield => absurd hfield List.not_mem_nil

end Attributes

/-! ### Rules -/

theorem Condition.decode_encode (c : Condition) : decode c.encode = .ok c := by
  have hkind : readFields readField {} (optionalField "type" FileKind.encode c.kind) =
      .ok { kind := c.kind } :=
    readFields_optionalField (fun kind => ({ kind } : Condition)) c.kind fun kind =>
      bind_eq_ok kind.decode_encode rfl
  have hstart : readFields readField { kind := c.kind }
      (optionalField "prefix" Value.string c.start) = .ok { kind := c.kind, start := c.start } :=
    readFields_optionalField (fun start => ({ kind := c.kind, start } : Condition)) c.start
      fun _ => rfl
  have hending : readFields readField { kind := c.kind, start := c.start }
      (optionalField "suffix" Value.string c.ending) = .ok c :=
    readFields_optionalField
      (fun ending => ({ kind := c.kind, start := c.start, ending } : Condition)) c.ending
      fun _ => rfl
  exact readFields_append (readFields_append hkind hstart) hending

theorem Condition.isRegular_encode (c : Condition) : c.encode.IsRegular :=
  (((FieldsAmong.optional "type" fun kind _ => .string kind.name).append
    (.optional "prefix" fun start _ => .string start)).append
    (.optional "suffix" fun ending _ => .string ending)).isRegular (by decide)

theorem Rule.decode_encode {rule : Rule} (hghost : rule.effects.flag .ghost = none) :
    decode rule.encode = .ok rule := by
  have hcondition : readFields readField {} [("when", rule.condition.encode)] =
      .ok { condition := rule.condition } :=
    readFields_single (by rw [readField, Condition.decode_encode]; rfl)
  have hpass : readFields readField { condition := rule.condition } rule.effects.fields =
      .ok { condition := rule.condition } := by
    refine readFields_pass fun field hfield => readField.eq_2 _ _ _ ?_
    have hne : ∀ key ∈ Attributes.keys, key ≠ "when" := by decide
    exact hne field.1 (rule.effects.fieldsAmong.key_mem hfield)
  have hown : ∀ field ∈ [("when", rule.condition.encode)],
      field.1 ∉ "owner" :: Attributes.keys := by
    intro field hfield
    rw [List.mem_singleton.mp hfield]
    change "when" ∉ "owner" :: Attributes.keys
    decide
  exact bind_eq_ok rfl (bind_eq_ok (readFields_append hcondition hpass)
    (bind_eq_ok (Attributes.ofFields_append hghost hown) rfl))

theorem Rule.isRegular_encode (rule : Rule) : rule.encode.IsRegular :=
  ((FieldsAmong.single "when" rule.condition.isRegular_encode).append
    rule.effects.fieldsAmong).isRegular (by decide)

theorem Ruleset.decode_encode {ruleset : Ruleset} (hghost : ruleset.LeavesGhost) :
    decode ruleset.encode = .ok ruleset := by
  have hrules : (Value.ofList Rule.encode ruleset.rules).asList Rule.decode = .ok ruleset.rules :=
    Toml.Value.asList_ofList fun rule hrule => Rule.decode_encode (hghost rule hrule)
  have hname : readFields readField { name := "" } [("id", .string ruleset.name)] =
      .ok { name := ruleset.name } := rfl
  have hrule : readFields readField { name := ruleset.name }
      [("rule", Value.ofList Rule.encode ruleset.rules)] = .ok ruleset :=
    readFields_single (bind_eq_ok hrules rfl)
  exact bind_eq_ok rfl (bind_eq_ok (readFields_append hname hrule) rfl)

theorem Ruleset.isRegular_encode (ruleset : Ruleset) : ruleset.encode.IsRegular :=
  ((FieldsAmong.single "id" (.string ruleset.name)).append
    (.single "rule" (Value.isRegular_ofList fun rule _ => rule.isRegular_encode))).isRegular
      (by decide)

/-! ### Entries -/

theorem Toml.Value.asList_strings (texts : List String) :
    (ofList Value.string texts).asList asString = .ok texts :=
  asList_ofList fun _ _ => rfl

theorem Toml.Value.isRegular_strings (texts : List String) :
    (ofList Value.string texts).IsRegular :=
  isRegular_ofList fun text _ => .string text

theorem Collection.decode_encode (c : Collection) : decode c.encode = .ok c := by
  have hroot : readFields readField { root := "" } [("from", .string c.root)] =
      .ok { root := c.root } := rfl
  have hincludes : readFields readField { root := c.root }
      [("includes", Value.ofList Value.string c.includes)] =
      .ok { root := c.root, includes := c.includes } :=
    readFields_single (bind_eq_ok (Value.asList_strings c.includes) rfl)
  have hexcludes : readFields readField { root := c.root, includes := c.includes }
      [("excludes", Value.ofList Value.string c.excludes)] =
      .ok { root := c.root, includes := c.includes, excludes := c.excludes } :=
    readFields_single (bind_eq_ok (Value.asList_strings c.excludes) rfl)
  have hswitches : readFields readField
      { root := c.root, includes := c.includes, excludes := c.excludes }
      [("directories", .boolean c.directories), ("symbolic-links", .boolean c.symbolicLinks),
        ("case-sensitive", .boolean c.caseSensitive)] = .ok c := rfl
  exact bind_eq_ok rfl (bind_eq_ok (readFields_append hroot
    (readFields_append hincludes (readFields_append hexcludes hswitches))) rfl)

theorem Collection.isRegular_encode (c : Collection) : c.encode.IsRegular :=
  ((FieldsAmong.single "from" (.string c.root)).append
    ((FieldsAmong.single "includes" (Value.isRegular_strings c.includes)).append
    ((FieldsAmong.single "excludes" (Value.isRegular_strings c.excludes)).append
    ((FieldsAmong.single "directories" (.boolean c.directories)).append
    ((FieldsAmong.single "symbolic-links" (.boolean c.symbolicLinks)).append
    (.single "case-sensitive" (.boolean c.caseSensitive))))))).isRegular (by decide)

namespace Entry

def ownKeys : List String :=
  ["name", "file", "directory", "link-to", "collect", "ghost", "ruleset", "skip"]

/-- The fields of an entry beside those of its attributes. -/
def ownFields (entry : Entry) : List (String × Value) :=
  [("name", .string entry.name)] ++ optionalField "file" Value.string entry.file ++
    optionalField "directory" Value.boolean entry.directory ++
    optionalField "link-to" Value.string entry.linkTo ++
    optionalField "collect" Collection.encode entry.collect ++
    optionalField "ghost" Value.boolean entry.ghost ++
    optionalField "ruleset" Value.string entry.ruleset ++ [("skip", .boolean entry.skip)]

theorem encode_eq (entry : Entry) :
    entry.encode = .table (entry.ownFields ++ entry.explicit.fields) :=
  rfl

theorem fieldsAmong (entry : Entry) : FieldsAmong ownKeys entry.ownFields :=
  ((((((((FieldsAmong.single "name" (.string entry.name)).append
    (.optional "file" fun path _ => .string path)).append
    (.optional "directory" fun b _ => .boolean b)).append
    (.optional "link-to" fun target _ => .string target)).append
    (.optional "collect" fun c _ => c.isRegular_encode)).append
    (.optional "ghost" fun b _ => .boolean b)).append
    (.optional "ruleset" fun name _ => .string name)).append
    (.single "skip" (.boolean entry.skip)))

theorem isRegular_encode (entry : Entry) : entry.encode.IsRegular :=
  (entry.fieldsAmong.append entry.explicit.fieldsAmong).isRegular (by decide)

theorem readField_of_not_mem {key : String} (hkey : key ∉ ownKeys) (entry : Entry) (v : Value) :
    entry.readField key v = .ok entry := by
  unfold readField
  split
  case h_9 => rfl
  all_goals exact absurd (by decide) hkey

/-- What an entry is without its explicit attributes is read from its own fields. -/
theorem readFields_ownFields (entry : Entry) :
    readFields readField { name := "" } entry.ownFields =
      .ok { entry with explicit := .empty } := by
  obtain ⟨name, file, directory, linkTo, collect, ghost, ruleset, skip, explicit⟩ := entry
  have hname : readFields readField { name := "" } [("name", .string name)] =
      .ok ({ name } : Entry) := rfl
  have hfile : readFields readField { name } (optionalField "file" Value.string file) =
      .ok ({ name, file } : Entry) :=
    readFields_optionalField (fun file => ({ name, file } : Entry)) file fun _ => rfl
  have hdirectory : readFields readField { name, file }
      (optionalField "directory" Value.boolean directory) =
      .ok ({ name, file, directory } : Entry) :=
    readFields_optionalField (fun directory => ({ name, file, directory } : Entry)) directory
      fun _ => rfl
  have hlink : readFields readField { name, file, directory }
      (optionalField "link-to" Value.string linkTo) =
      .ok ({ name, file, directory, linkTo } : Entry) :=
    readFields_optionalField (fun linkTo => ({ name, file, directory, linkTo } : Entry)) linkTo
      fun _ => rfl
  have hcollect : readFields readField { name, file, directory, linkTo }
      (optionalField "collect" Collection.encode collect) =
      .ok ({ name, file, directory, linkTo, collect } : Entry) :=
    readFields_optionalField
      (fun collect => ({ name, file, directory, linkTo, collect } : Entry)) collect
      fun c => bind_eq_ok c.decode_encode rfl
  have hghost : readFields readField { name, file, directory, linkTo, collect }
      (optionalField "ghost" Value.boolean ghost) =
      .ok ({ name, file, directory, linkTo, collect, ghost } : Entry) :=
    readFields_optionalField
      (fun ghost => ({ name, file, directory, linkTo, collect, ghost } : Entry)) ghost
      fun _ => rfl
  have hruleset : readFields readField { name, file, directory, linkTo, collect, ghost }
      (optionalField "ruleset" Value.string ruleset) =
      .ok ({ name, file, directory, linkTo, collect, ghost, ruleset } : Entry) :=
    readFields_optionalField
      (fun ruleset => ({ name, file, directory, linkTo, collect, ghost, ruleset } : Entry))
      ruleset fun _ => rfl
  have hskip : readFields readField { name, file, directory, linkTo, collect, ghost, ruleset }
      [("skip", .boolean skip)] =
      .ok ({ name, file, directory, linkTo, collect, ghost, ruleset, skip } : Entry) := rfl
  exact readFields_append (readFields_append (readFields_append (readFields_append
    (readFields_append (readFields_append (readFields_append hname hfile) hdirectory) hlink)
    hcollect) hghost) hruleset) hskip

theorem decode_encode {entry : Entry} (hghost : entry.explicit.flag .ghost = none) :
    decode entry.encode = .ok entry := by
  have hpass : readFields readField { entry with explicit := .empty } entry.explicit.fields =
      .ok { entry with explicit := .empty } := by
    refine readFields_pass fun field hfield => readField_of_not_mem ?_ _ _
    have hnot : ∀ key ∈ Attributes.keys, key ∉ ownKeys := by decide
    exact hnot field.1 (entry.explicit.fieldsAmong.key_mem hfield)
  have hown : ∀ field ∈ entry.ownFields, field.1 ∉ "owner" :: Attributes.keys := by
    intro field hfield
    have hnot : ∀ key ∈ ownKeys, key ∉ "owner" :: Attributes.keys := by decide
    exact hnot field.1 (entry.fieldsAmong.key_mem hfield)
  rw [encode_eq]
  exact bind_eq_ok rfl (bind_eq_ok (readFields_append entry.readFields_ownFields hpass)
    (bind_eq_ok rfl (bind_eq_ok (Attributes.ofFields_append hghost hown) rfl)))

end Entry

/-! ### Manifests -/

namespace Manifest

theorem decode_encode {manifest : Manifest} (hghost : manifest.LeavesGhost) :
    decode manifest.encode = .ok { manifest with baseDir := none } := by
  have hrulesets : (Value.ofList Ruleset.encode manifest.rulesets).asList Ruleset.decode =
      .ok manifest.rulesets :=
    Value.asList_ofList fun ruleset h => Ruleset.decode_encode (hghost.rulesets ruleset h)
  have hentries : (Value.ofList Entry.encode manifest.entries).asList Entry.decode =
      .ok manifest.entries :=
    Value.asList_ofList fun entry h => Entry.decode_encode (hghost.entries entry h)
  obtain ⟨defaultRuleset, intermediate, timestamp, digest, rulesets, entries, baseDir⟩ := manifest
  have hdefault : readFields readField {}
      (optionalField "default-ruleset" Value.string defaultRuleset) =
      .ok ({ defaultRuleset } : Manifest) :=
    readFields_optionalField (fun defaultRuleset => ({ defaultRuleset } : Manifest))
      defaultRuleset fun _ => rfl
  have hintermediate : readFields readField { defaultRuleset }
      [("intermediate-directories", Value.ofList Value.string intermediate)] =
      .ok ({ defaultRuleset, intermediate } : Manifest) :=
    readFields_single (bind_eq_ok (Value.asList_strings intermediate) rfl)
  have htimestamp : readFields readField { defaultRuleset, intermediate }
      (optionalField "output-timestamp" Timestamp.encode timestamp) =
      .ok ({ defaultRuleset, intermediate, timestamp } : Manifest) :=
    readFields_optionalField
      (fun timestamp => ({ defaultRuleset, intermediate, timestamp } : Manifest)) timestamp
      fun time => bind_eq_ok time.decode_encode rfl
  have hdigest : readFields readField { defaultRuleset, intermediate, timestamp }
      [("file-digest", digest.encode)] =
      .ok ({ defaultRuleset, intermediate, timestamp, digest } : Manifest) :=
    readFields_single (bind_eq_ok digest.decode_encode rfl)
  have hruleset : readFields readField { defaultRuleset, intermediate, timestamp, digest }
      [("ruleset", Value.ofList Ruleset.encode rulesets)] =
      .ok ({ defaultRuleset, intermediate, timestamp, digest, rulesets } : Manifest) :=
    readFields_single (bind_eq_ok hrulesets rfl)
  have hentry : readFields readField { defaultRuleset, intermediate, timestamp, digest, rulesets }
      [("entry", Value.ofList Entry.encode entries)] =
      .ok ({ defaultRuleset, intermediate, timestamp, digest, rulesets, entries } : Manifest) :=
    readFields_single (bind_eq_ok hentries rfl)
  exact bind_eq_ok rfl (readFields_append (readFields_append (readFields_append hdefault
    hintermediate) htimestamp) (readFields_append hdigest (readFields_append hruleset hentry)))

theorem isRegular_encode (manifest : Manifest) : manifest.encode.IsRegular :=
  ((((FieldsAmong.optional "default-ruleset" fun name _ => .string name).append
    (.single "intermediate-directories" (Value.isRegular_strings manifest.intermediate))).append
    (.optional "output-timestamp" fun time _ => time.isRegular_encode)).append
    ((FieldsAmong.single "file-digest" (.string manifest.digest.name)).append
    ((FieldsAmong.single "ruleset" (Value.isRegular_ofList fun r _ => r.isRegular_encode)).append
    (.single "entry" (Value.isRegular_ofList fun e _ => e.isRegular_encode))))).isRegular
      (by decide)

theorem decode_baseDir {v : Value} {manifest : Manifest} (h : decode v = .ok manifest) :
    manifest.baseDir = none := by
  obtain ⟨fields, -, h⟩ := exists_of_bind_eq_ok h
  refine readFields_induction (P := fun m => m.baseDir = none) rfl ?_ h
  intro m key v m' hm hread
  unfold readField at hread
  split at hread
  case h_7 => cases hread
  all_goals
    obtain ⟨found, -, hread⟩ := exists_of_bind_eq_ok hread
    cases hread
    exact hm

end Manifest

/-! ### What can be read -/

/-- Something can be read: from a value, or from a document as a whole. -/
inductive IsRead {α : Type} (decode : Value → Except DataFault α) (a : α) : Prop
  | value {v : Value} (h : decode v = .ok a)
  | document {text : String} (h : readDocument decode text = .ok a)

theorem IsRead.exists_value {α : Type} {decode : Value → Except DataFault α} {a : α}
    (h : IsRead decode a) : ∃ v, decode v = .ok a := by
  cases h with
  | value h => exact ⟨_, h⟩
  | @document text h =>
      unfold readDocument at h
      split at h
      · cases h
      · next fields _ =>
          cases hdecode : decode (.table fields) with
          | error fault => rw [hdecode] at h; cases h
          | ok found =>
              rw [hdecode] at h
              cases h
              exact ⟨_, hdecode⟩

/-- The written form is regular and is read as what was written. -/
structure IsFaithful {α : Type} (decode : Value → Except DataFault α) (encode : α → Value)
    (a : α) : Prop where
  decode_encode : decode (encode a) = .ok a
  regular : (encode a).IsRegular

/-- **Reading undoes writing** for all that can be read, whatever base directory a manifest has been
given since. -/
theorem isFaithful_of_isRead :
    (∀ a, IsRead Attributes.decode a → IsFaithful Attributes.decode Attributes.encode a) ∧
    (∀ c, IsRead Condition.decode c → IsFaithful Condition.decode Condition.encode c) ∧
    (∀ r, IsRead Rule.decode r → IsFaithful Rule.decode Rule.encode r) ∧
    (∀ r, IsRead Ruleset.decode r → IsFaithful Ruleset.decode Ruleset.encode r) ∧
    (∀ c, IsRead Collection.decode c → IsFaithful Collection.decode Collection.encode c) ∧
    (∀ e, IsRead Entry.decode e → IsFaithful Entry.decode Entry.encode e) ∧
    ∀ m, IsRead Manifest.decode m → IsFaithful Manifest.decode Manifest.encode m ∧
      ∀ baseDir, Manifest.decode (Manifest.encode { m with baseDir }) = .ok m := by
  refine ⟨fun a h => ?_, fun c h => ⟨c.decode_encode, c.isRegular_encode⟩, fun r h => ?_,
    fun r h => ?_, fun c h => ⟨c.decode_encode, c.isRegular_encode⟩, fun e h => ?_,
    fun m h => ?_⟩
  all_goals obtain ⟨v, hv⟩ := h.exists_value
  · obtain ⟨fields, -, hfields⟩ := exists_of_bind_eq_ok hv
    exact ⟨Attributes.decode_encode (Attributes.ofFields_ghost hfields), a.isRegular_encode⟩
  · exact ⟨Rule.decode_encode (Rule.decode_ghost hv), r.isRegular_encode⟩
  · exact ⟨Ruleset.decode_encode (Ruleset.decode_ghost hv), r.isRegular_encode⟩
  · exact ⟨Entry.decode_encode (Entry.decode_ghost hv), e.isRegular_encode⟩
  · have hbase : { m with baseDir := none } = m := by rw [← Manifest.decode_baseDir hv]
    have hread : ∀ baseDir, Manifest.decode (Manifest.encode { m with baseDir }) = .ok m := by
      intro baseDir
      have hghost : Manifest.LeavesGhost { m with baseDir } :=
        ⟨(Manifest.decode_ghost hv).rulesets, (Manifest.decode_ghost hv).entries⟩
      rw [Manifest.decode_encode hghost]
      exact congrArg _ hbase
    refine ⟨⟨?_, m.isRegular_encode⟩, hread⟩
    rw [Manifest.decode_encode (Manifest.decode_ghost hv), hbase]

/-- A rule in a spelling that is not the written one. -/
def aliasText : String :=
  "when.type='link'\nmode=' 0o755 '\nowner='root'"

/-- What the text is read as. -/
def aliasRule : Rule where
  condition := { kind := some .symlink }
  effects := { mode := some (.defaultFor .directory), owner := some "root" }

/-- A manifest with such a rule, and with an entry that has attributes and a collection. -/
def aliasManifestText : String :=
  "file-digest='sha_512'\n[[ruleset]]\nid='r'\n[[ruleset.rule]]\n" ++ aliasText ++
    "\n[[entry]]\nname='/a'\ncollect.from='d'\nreadme=true\nowner='root'"

def aliasManifest : Manifest where
  digest := .sha512
  rulesets := [{ name := "r", rules := [aliasRule] }]
  entries := [{ name := "/a", collect := some { root := "d" }
                explicit := Attributes.setFlag { owner := some "root" } .readme true }]

/-- A link with an owner, as it is read. -/
def aliasEntry : Entry where
  name := "/l"
  linkTo := some "a"
  explicit := { owner := some "root" }

/-- The spellings are gone in what is written, and nothing else is. -/
theorem isFaithful_of_isRead_aliasText :
    readDocument Rule.decode aliasText = .ok aliasRule ∧
    readDocument Manifest.decode aliasManifestText = .ok aliasManifest ∧
    IsFaithful Attributes.decode Attributes.encode aliasRule.effects ∧
    IsFaithful Condition.decode Condition.encode aliasRule.condition ∧
    IsFaithful Rule.decode Rule.encode aliasRule ∧
    IsFaithful Ruleset.decode Ruleset.encode { name := "r", rules := [aliasRule] } ∧
    IsFaithful Collection.decode Collection.encode { root := "d" } ∧
    IsFaithful Entry.decode Entry.encode aliasEntry ∧
    IsFaithful Manifest.decode Manifest.encode aliasManifest ∧
    Manifest.decode (Manifest.encode { aliasManifest with baseDir := some (.ofString "/b") }) =
      .ok aliasManifest := by
  have hattributes : readDocument Attributes.decode "mode='0755'\nowner='root'" =
      .ok aliasRule.effects := by decide +kernel
  have hcondition : readDocument Condition.decode "type='link'" = .ok aliasRule.condition := by
    decide +kernel
  have hrule : readDocument Rule.decode aliasText = .ok aliasRule := by decide +kernel
  have hruleset : readDocument Ruleset.decode ("id='r'\n[[rule]]\n" ++ aliasText) =
      .ok { name := "r", rules := [aliasRule] } := by decide +kernel
  have hcollection : readDocument Collection.decode "from='d'" = .ok { root := "d" } := by
    decide +kernel
  have hentry : readDocument Entry.decode "name='/l'\nlink-to='a'\nowner='root'" =
      .ok aliasEntry := by decide +kernel
  have hmanifest : readDocument Manifest.decode aliasManifestText = .ok aliasManifest := by
    decide +kernel
  obtain ⟨ofAttributes, ofCondition, ofRule, ofRuleset, ofCollection, ofEntry, ofManifest⟩ :=
    isFaithful_of_isRead
  obtain ⟨hfaithful, hbase⟩ := ofManifest _ (.document hmanifest)
  exact ⟨hrule, hmanifest, ofAttributes _ (.document hattributes),
    ofCondition _ (.document hcondition), ofRule _ (.document hrule),
    ofRuleset _ (.document hruleset), ofCollection _ (.document hcollection),
    ofEntry _ (.document hentry), hfaithful, hbase _⟩

end ArchivePlan
