import ArchivePlan.Binary64

/-! # TOML values -/

namespace ArchivePlan.Toml

/-- A value of a TOML document.  The entries of a table are in the order of the document. -/
inductive Value where
  | string (text : String)
  | integer (n : Int)
  | float (x : Binary64)
  | boolean (b : Bool)
  /-- A date, a time or both, as it is written. -/
  | datetime (text : String)
  | array (items : List Value)
  | table (entries : List (String × Value))
  /-- Tables under one key, each with a header of its own. -/
  | tables (elements : List (List (String × Value)))
  deriving Repr

/-- The items of an array; tables under one key count as one. -/
def Value.items? : Value → Option (List Value)
  | .array items => some items
  | .tables elements => some (elements.map .table)
  | _ => none

end ArchivePlan.Toml
