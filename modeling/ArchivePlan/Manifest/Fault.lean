import ArchivePlan.Binary64
import ArchivePlan.Digest.Algorithm
import ArchivePlan.Mode
import ArchivePlan.Text.Quoted
import ArchivePlan.Toml.Value

/-! # What can be wrong with configured data -/

namespace ArchivePlan

/-- What a value looks like where another one was expected. -/
inductive Toml.Shape where
  | string (text : String)
  | integer (n : Int)
  | float (x : Binary64)
  | boolean (b : Bool)
  | sequence
  /-- A table, or a date, which counts as one. -/
  | map
  deriving DecidableEq, Repr

/-- What a value looks like. -/
def Toml.Value.shape : Toml.Value → Toml.Shape
  | .string text => .string text
  | .integer n => .integer n
  | .float x => .float x
  | .boolean b => .boolean b
  | .datetime _ => .map
  | .array _ => .sequence
  | .table _ => .map
  | .tables _ => .sequence

def Toml.Shape.text : Toml.Shape → String
  | .string text => "string " ++ Text.quoted text
  | .integer n => s!"integer \x60{n}\x60"
  | .float x => s!"floating point \x60{x.text}\x60"
  | .boolean b => s!"boolean \x60{b}\x60"
  | .sequence => "sequence"
  | .map => "map"

/-- The form of a record: its name in messages and its keys in order. -/
structure Form where
  name : String
  keys : List String
  deriving DecidableEq, Repr

/-- Why a value cannot stand for a file kind although it may name one. -/
inductive KindFault where
  | noName
  | manyNames
  /-- The name of a kind stands before a table or array that is not empty. -/
  | content
  /-- The name of a kind stands in the headers of tables. -/
  | tables
  /-- The name of a kind stands before something that is no table. -/
  | noTable (found : String)
  | noTableOrName
  deriving DecidableEq, Repr

def KindFault.message : KindFault → String
  | .noName => "wanted exactly 1 element, found 0 elements"
  | .manyNames => "wanted exactly 1 element, more than 1 element"
  | .content => "expected empty table"
  | .tables => "expected empty array"
  | .noTable found => "expected table, found " ++ found
  | .noTableOrName => "wanted string or table"

/-- Why a value does not have the meaning that its place asks for. -/
inductive DataFault where
  | wrongShape (found : Toml.Shape) (expected : String)
  | missingField (key : String)
  | unknownField (key : String) (known : List String)
  | repeatedField (key : String)
  /-- An array that stands for a record ends before a field that must be there. -/
  | tooShort (length : Nat) (form : Form)
  | unknownVariant (name : String) (known : List String)
  | kind (fault : KindFault)
  | mode (e : InvalidMode)
  | digest (e : UnknownAlgorithm)
  | timestamp
  deriving DecidableEq, Repr

def ticked (name : String) : String :=
  "\x60" ++ name ++ "\x60"

/-- A choice between names, in words. -/
def choice : List String → String
  | [] => "there are no fields"
  | [a] => "expected " ++ ticked a
  | [a, b] => "expected " ++ ticked a ++ " or " ++ ticked b
  | names => "expected one of " ++ String.intercalate ", " (names.map ticked)

def DataFault.message : DataFault → String
  | .wrongShape found expected => s!"invalid type: {found.text}, expected {expected}"
  | .missingField key => "missing field " ++ ticked key
  | .unknownField key known => "unknown field " ++ ticked key ++ ", " ++ choice known
  | .repeatedField key => "duplicate field " ++ ticked key
  | .tooShort length form =>
    s!"invalid length {length}, expected struct {form.name} with {form.keys.length} elements"
  | .unknownVariant name known => "unknown variant " ++ ticked name ++ ", " ++ choice known
  | .kind fault => fault.message
  | .mode e => e.message
  | .digest e => e.message
  | .timestamp => "data did not match any variant of untagged enum OutputTimestamp"

end ArchivePlan
