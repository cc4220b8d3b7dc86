import ArchivePlan.Toml.Value

/-! # Tables under construction

A document defines its tables piece by piece, and the rules about what may still be added depend on
how a table came about.  `define` puts a value under a dotted key, `openTable` and `openElement`
follow the headers, and `finish` forgets how the tables came about.  Each gives nothing where the
document would define something twice. -/

namespace ArchivePlan.Toml

/-- What a key of a table under construction holds. -/
inductive Draft where
  /-- A complete value. -/
  | value (v : Value)
  /-- A table.  It is implicit while it is only known as the parent of others, and dotted if a
  dotted key made it. -/
  | table (implicit dotted : Bool) (entries : List (String × Draft))
  /-- Tables under one key, each with a header of its own. -/
  | tables (elements : List (List (String × Draft)))

/-- The entries of a table under construction. -/
abbrev Entries := List (String × Draft)

namespace Entries

/-- Changes what a key holds; a key that was not there is added at the end. -/
def alter (key : String) (change : Option Draft → Option Draft) : Entries → Option Entries
  | [] => (change none).map fun draft => [(key, draft)]
  | (other, draft) :: rest =>
    if other = key then (change (some draft)).map fun draft => (other, draft) :: rest
    else (alter key change rest).map fun rest => (other, draft) :: rest

/-- Changes the table at the end of a path, given whether that table is dotted.  Tables that are
missing on the way are added; a dotted key does not enter a table that has a header. -/
def descend (dotted : Bool) (change : Bool → Entries → Option Entries) :
    List String → Bool → Entries → Option Entries
  | [], isDotted, entries => change isDotted entries
  | key :: path, _, entries =>
    alter key (fun
      | none => (descend dotted change path dotted []).map (.table true dotted)
      | some (.value _) => none
      | some (.tables elements) =>
        match elements.getLast? with
        | none => none
        | some last =>
          (descend dotted change path false last).map fun last =>
            .tables (elements.dropLast ++ [last])
      | some (.table implicit isDotted inner) =>
        if dotted && !implicit then none
        else (descend dotted change path isDotted inner).map (.table implicit isDotted)) entries

/-- Puts a value under a key below the table that parents lead to.  Parents that are named in the
same dotted key have to be dotted tables. -/
def define (parents : List String) (key : String) (v : Value) (entries : Entries) :
    Option Entries :=
  descend true (fun isDotted entries =>
    if isDotted = parents.isEmpty then none
    else alter key (fun | none => some (.value v) | some _ => none) entries) parents false entries

/-- Opens the table of a header.  A table that was implicit so far moves to the end. -/
def openTable (parents : List String) (key : String) (entries : Entries) : Option Entries :=
  descend false (fun _ entries =>
    match entries.lookup key with
    | none => some (entries ++ [(key, .table false false [])])
    | some (.table true false inner) =>
      some (entries.filter (fun entry => entry.1 != key) ++ [(key, .table false false inner)])
    | some _ => none) parents false entries

/-- Adds a table to those under the key of a header. -/
def openElement (parents : List String) (key : String) (entries : Entries) : Option Entries :=
  descend false (fun _ entries =>
    alter key (fun
      | none => some (.tables [[]])
      | some (.tables elements) => some (.tables (elements ++ [[]]))
      | some _ => none) entries) parents false entries

end Entries

mutual

/-- The value that a draft has come to. -/
def Draft.finish : Draft → Value
  | .value v => v
  | .table _ _ entries => .table (Entries.finish entries)
  | .tables elements => .tables (Entries.finishAll elements)

def Entries.finish : List (String × Draft) → List (String × Value)
  | [] => []
  | (key, draft) :: rest => (key, draft.finish) :: Entries.finish rest

/-- The tables under one key. -/
def Entries.finishAll : List (List (String × Draft)) → List (List (String × Value))
  | [] => []
  | entries :: rest => Entries.finish entries :: Entries.finishAll rest

end

end ArchivePlan.Toml
