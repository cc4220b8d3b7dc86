import ArchivePlan.Manifest.Decode

/-! # TOML values of manifests

The written form of each record: keys in a fixed order, options that are not set left out, and every
name in its usual spelling. -/

namespace ArchivePlan

open Toml (Value)

/-- The field of an option, if it is set. -/
def optionalField {α : Type} (key : String) (write : α → Value) (a : Option α) :
    List (String × Value) :=
  (a.map fun a => (key, write a)).toList

/-- The array of the values of a list. -/
def Toml.Value.ofList {α : Type} (write : α → Value) (items : List α) : Value :=
  .array (items.map write)

def Mode.encode (mode : Mode) : Value :=
  .string mode.text

def Algorithm.encode (algorithm : Algorithm) : Value :=
  .string algorithm.name

def Timestamp.encode : Timestamp → Value
  | epoch seconds => .integer seconds
  | written text => .string text

def FileKind.encode (kind : FileKind) : Value :=
  .string kind.name

/-- The field of a flag, if it is set. -/
def Attributes.flagField (a : Attributes) (flag : Flag) : List (String × Value) :=
  match flag.key? with
  | some key => optionalField key Value.boolean (a.flag flag)
  | none => []

/-- The fields of attributes. -/
def Attributes.fields (a : Attributes) : List (String × Value) :=
  optionalField "mode" Mode.encode a.mode ++ optionalField "user" Value.string a.owner ++
    optionalField "group" Value.string a.group ++ Flag.all.flatMap a.flagField

def Attributes.encode (a : Attributes) : Value :=
  .table a.fields

def Condition.encode (c : Condition) : Value :=
  .table (optionalField "type" FileKind.encode c.kind ++
    optionalField "prefix" Value.string c.start ++ optionalField "suffix" Value.string c.ending)

def Rule.encode (rule : Rule) : Value :=
  .table (("when", rule.condition.encode) :: rule.effects.fields)

def Ruleset.encode (ruleset : Ruleset) : Value :=
  .table [("id", .string ruleset.name), ("rule", Value.ofList Rule.encode ruleset.rules)]

def Collection.encode (c : Collection) : Value :=
  .table [("from", .string c.root), ("includes", Value.ofList Value.string c.includes),
    ("excludes", Value.ofList Value.string c.excludes), ("directories", .boolean c.directories),
    ("symbolic-links", .boolean c.symbolicLinks), ("case-sensitive", .boolean c.caseSensitive)]

def Entry.encode (entry : Entry) : Value :=
  .table (("name", .string entry.name) :: optionalField "file" Value.string entry.file ++
    optionalField "directory" Value.boolean entry.directory ++
    optionalField "link-to" Value.string entry.linkTo ++
    optionalField "collect" Collection.encode entry.collect ++
    optionalField "ghost" Value.boolean entry.ghost ++
    optionalField "ruleset" Value.string entry.ruleset ++
    [("skip", .boolean entry.skip)] ++ entry.explicit.fields)

def Manifest.encode (m : Manifest) : Value :=
  .table (optionalField "default-ruleset" Value.string m.defaultRuleset ++
    [("intermediate-directories", Value.ofList Value.string m.intermediate)] ++
    optionalField "output-timestamp" Timestamp.encode m.timestamp ++
    [("file-digest", m.digest.encode), ("ruleset", Value.ofList Ruleset.encode m.rulesets),
      ("entry", Value.ofList Entry.encode m.entries)])

end ArchivePlan
