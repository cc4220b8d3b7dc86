import ArchivePlan.Manifest.Basic
import ArchivePlan.Manifest.Fault

/-! # Manifests from TOML values

A record is read field by field in the order of the document, and the first fault decides.  Keys
that have to be there are looked for behind that.  The attributes of a rule or an entry stand beside
its own keys; they are read last, and what is neither is passed over. -/

namespace ArchivePlan

open Toml (Value)

/-! ### Simple values -/

def Toml.Value.asText (expected : String) : Value → Except DataFault String
  | .string text => .ok text
  | v => .error (.wrongShape v.shape expected)

def Toml.Value.asString : Value → Except DataFault String :=
  Value.asText "a string"

def Toml.Value.asPath : Value → Except DataFault String :=
  Value.asText "path string"

def Toml.Value.asBoolean : Value → Except DataFault Bool
  | .boolean b => .ok b
  | v => .error (.wrongShape v.shape "a boolean")

/-- The items of a value, each read in the same way. -/
def Toml.Value.asList {α : Type} (read : Value → Except DataFault α) (v : Value) :
    Except DataFault (List α) :=
  match v.items? with
  | some items => items.mapM read
  | none => .error (.wrongShape v.shape "a sequence")

def Mode.decode : Value → Except DataFault Mode
  | .string text => (Mode.parse text).mapError .mode
  | v => .error (.wrongShape v.shape "an octal mode string such as \"0755\"")

def Algorithm.decode (v : Value) : Except DataFault Algorithm := do
  let name ← v.asString
  (Algorithm.ofName name).mapError .digest

def Timestamp.decode : Value → Except DataFault Timestamp
  | .integer n => .ok (.epoch n)
  | .string text => .ok (.written text)
  | _ => .error .timestamp

/-- The file kind with a name; a link may also be called `link`. -/
def FileKind.decodeName (name : String) : Except DataFault FileKind :=
  match FileKind.ofName? (if name = "link" then "symlink" else name) with
  | some kind => .ok kind
  | none => .error (.unknownVariant name ["file", "directory", "link", "symlink"])

/-- Refuses what may not stand under the name of a file kind. -/
def FileKind.checkContent : Value → Except DataFault Unit
  | .table [] => .ok ()
  | .array [] => .ok ()
  | .tables [] => .ok ()
  | .table _ => .error (.kind .content)
  | .array _ => .error (.kind .content)
  | .tables _ => .error (.kind .tables)
  | .string _ => .error (.kind (.noTable "string"))
  | .integer _ => .error (.kind (.noTable "integer"))
  | .float _ => .error (.kind (.noTable "float"))
  | .boolean _ => .error (.kind (.noTable "boolean"))
  | .datetime _ => .error (.kind (.noTable "datetime"))

/-- The file kind of a value: its name, or a table with the name as the only key. -/
def FileKind.decode : Value → Except DataFault FileKind
  | .string name => decodeName name
  | .table [(name, content)] => do
    let kind ← decodeName name
    checkContent content
    return kind
  | .table [] => .error (.kind .noName)
  | .table _ => .error (.kind .manyNames)
  | _ => .error (.kind .noTableOrName)

/-! ### Records -/

/-- The key under which the text of a date stands where a table is expected. -/
def Toml.dateKey : String := "$__toml_private_datetime"

/-- The fields of a table with a name for messages. -/
def Toml.Value.asTable (name : String) : Value → Except DataFault (List (String × Value))
  | .table fields => .ok fields
  | .datetime text => .ok [(Toml.dateKey, .string text)]
  | v => .error (.wrongShape v.shape s!"struct {name}")

/-- The fields of a record, which may also be an array of its first fields in order. -/
def Form.fields (form : Form) (v : Value) : Except DataFault (List (String × Value)) :=
  match v.items? with
  | some items => .ok (form.keys.zip items)
  | none => v.asTable form.name

/-- Refuses a table without a key. -/
def requireKey (key : String) (fields : List (String × Value)) : Except DataFault Unit :=
  if fields.any (·.1 == key) then .ok () else .error (.missingField key)

/-- Refuses a record without a key. -/
def Form.require (form : Form) (key : String) (v : Value) : Except DataFault Unit :=
  match v.items? with
  | some items =>
    if items.length ≤ form.keys.idxOf key then .error (.tooShort items.length form) else .ok ()
  | none => do requireKey key (← form.fields v)

/-- Reads fields in order, each of which changes what the ones before it have come to. -/
def readFields {α : Type} (read : α → String → Value → Except DataFault α) (start : α)
    (fields : List (String × Value)) : Except DataFault α :=
  fields.foldlM (fun a (key, v) => read a key v) start

/-! ### Attributes -/

def Flag.key? : Flag → Option String
  | .configuration => some "configuration"
  | .documentation => some "documentation"
  | .readme => some "readme"
  | .verifyOwner => some "verify-owner"
  | .verifyGroup => some "verify-group"
  | .verifyLink => some "verify-linkto"
  | .ghost => none

def Flag.ofKey? (key : String) : Option Flag :=
  Flag.all.find? fun flag => flag.key? == some key

/-- Attributes with one more field. -/
def Attributes.readField (a : Attributes) (key : String) (v : Value) :
    Except DataFault Attributes :=
  if key = "mode" then do return { a with mode := some (← Mode.decode v) }
  else if key = "user" ∨ key = "owner" then
    if a.owner.isSome then .error (.repeatedField "user")
    else do return { a with owner := some (← v.asString) }
  else if key = "group" then do return { a with group := some (← v.asString) }
  else
    match Flag.ofKey? key with
    | some flag => do return a.setFlag flag (← v.asBoolean)
    | none => .ok a

/-- Attributes among the fields of a table. -/
def Attributes.ofFields : List (String × Value) → Except DataFault Attributes :=
  readFields readField .empty

def Attributes.decode (v : Value) : Except DataFault Attributes := do
  ofFields (← v.asTable "MetadataFragment")

/-! ### Rules -/

def Condition.form : Form := ⟨"Condition", ["type", "prefix", "suffix"]⟩

def Condition.readField (c : Condition) (key : String) (v : Value) : Except DataFault Condition :=
  match key with
  | "type" => do return { c with kind := some (← FileKind.decode v) }
  | "prefix" => do return { c with start := some (← v.asString) }
  | "suffix" => do return { c with ending := some (← v.asString) }
  | _ => .error (.unknownField key form.keys)

def Condition.decode (v : Value) : Except DataFault Condition := do
  readFields readField {} (← form.fields v)

def Rule.readField (rule : Rule) (key : String) (v : Value) : Except DataFault Rule :=
  match key with
  | "when" => do return { rule with condition := ← Condition.decode v }
  | _ => .ok rule

def Rule.decode (v : Value) : Except DataFault Rule := do
  let fields ← v.asTable "Rule"
  let rule ← readFields readField {} fields
  return { rule with effects := ← Attributes.ofFields fields }

def Ruleset.form : Form := ⟨"Ruleset", ["id", "rule"]⟩

def Ruleset.readField (ruleset : Ruleset) (key : String) (v : Value) : Except DataFault Ruleset :=
  match key with
  | "id" => do return { ruleset with name := ← v.asString }
  | "rule" => do return { ruleset with rules := ← v.asList Rule.decode }
  | _ => .error (.unknownField key form.keys)

def Ruleset.decode (v : Value) : Except DataFault Ruleset := do
  let ruleset ← readFields readField { name := "" } (← form.fields v)
  form.require "id" v
  return ruleset

/-! ### Entries -/

def Collection.form : Form :=
  ⟨"Collector", ["from", "includes", "excludes", "directories", "symbolic-links", "case-sensitive"]⟩

def Collection.readField (c : Collection) (key : String) (v : Value) :
    Except DataFault Collection :=
  match key with
  | "from" => do return { c with root := ← v.asPath }
  | "includes" => do return { c with includes := ← v.asList Value.asString }
  | "excludes" => do return { c with excludes := ← v.asList Value.asString }
  | "directories" => do return { c with directories := ← v.asBoolean }
  | "symbolic-links" => do return { c with symbolicLinks := ← v.asBoolean }
  | "case-sensitive" => do return { c with caseSensitive := ← v.asBoolean }
  | _ => .error (.unknownField key form.keys)

def Collection.decode (v : Value) : Except DataFault Collection := do
  let collection ← readFields readField { root := "" } (← form.fields v)
  form.require "from" v
  return collection

def Entry.readField (entry : Entry) (key : String) (v : Value) : Except DataFault Entry :=
  match key with
  | "name" => do return { entry with name := ← v.asString }
  | "file" => do return { entry with file := some (← v.asPath) }
  | "directory" => do return { entry with directory := some (← v.asBoolean) }
  | "link-to" => do return { entry with linkTo := some (← v.asString) }
  | "collect" => do return { entry with collect := some (← Collection.decode v) }
  | "ghost" => do return { entry with ghost := some (← v.asBoolean) }
  | "ruleset" => do return { entry with ruleset := some (← v.asString) }
  | "skip" => do return { entry with skip := ← v.asBoolean }
  | _ => .ok entry

def Entry.decode (v : Value) : Except DataFault Entry := do
  let fields ← v.asTable "PackageEntry"
  let entry ← readFields readField { name := "" } fields
  requireKey "name" fields
  return { entry with explicit := ← Attributes.ofFields fields }

/-! ### Manifests -/

def Manifest.form : Form :=
  ⟨"BuildManifest", ["default-ruleset", "intermediate-directories", "output-timestamp",
    "file-digest", "ruleset", "entry"]⟩

def Manifest.readField (m : Manifest) (key : String) (v : Value) : Except DataFault Manifest :=
  match key with
  | "default-ruleset" => do return { m with defaultRuleset := some (← v.asString) }
  | "intermediate-directories" => do return { m with intermediate := ← v.asList Value.asString }
  | "output-timestamp" => do return { m with timestamp := some (← Timestamp.decode v) }
  | "file-digest" => do return { m with digest := ← Algorithm.decode v }
  | "ruleset" => do return { m with rulesets := ← v.asList Ruleset.decode }
  | "entry" => do return { m with entries := ← v.asList Entry.decode }
  | _ => .error (.unknownField key form.keys)

def Manifest.decode (v : Value) : Except DataFault Manifest := do
  readFields readField {} (← form.fields v)

end ArchivePlan
