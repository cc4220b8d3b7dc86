import ArchivePlan.Toml.Draft
import ArchivePlan.Toml.Scalar

/-! # TOML documents

`parse` reads a whole document: its statements one by one, then the table that they define
together. -/

namespace ArchivePlan.Toml

/-! ### Values -/

/-- A path of keys without the last one, and the last one. -/
def splitLast (path : List String) : Option (List String × String) :=
  path.getLast?.map fun last => (path.dropLast, last)

/-- The table that dotted keys and their values define. -/
def tableOf (fields : List (List String × Value)) : Option Value := do
  let entries ← fields.foldlM (fun (entries : Entries) (path, v) => do
    let (parents, key) ← splitLast path
    entries.define parents key v) []
  some (.table (Entries.finish entries))

mutual

/-- Takes a value in which arrays and tables are nested no deeper than a bound.  The fuel has to be
more than twice the length of the text, here and below. -/
def value : Nat → Nat → Reader Value
  | 0, _, _ => none
  | fuel + 1, depth, text =>
    match text with
    | '[' :: rest =>
      if depth = 0 then none
      else (elements fuel (depth - 1) rest).map fun (vs, rest) => (.array vs, rest)
    | '\x7b' :: rest =>
      if depth = 0 then none
      else
        match skipSpaces rest with
        | '\x7d' :: rest => some (.table [], rest)
        | rest => do
          let (fields, rest) ← fields fuel (depth - 1) rest
          let table ← tableOf fields
          some (table, rest)
    | '"' :: _ => (string text).map fun (s, rest) => (.string s, rest)
    | '\'' :: _ => (string text).map fun (s, rest) => (.string s, rest)
    | _ => scalar text

/-- Takes the elements of an array and the bracket behind them. -/
def elements : Nat → Nat → Reader (List Value)
  | 0, _, _ => none
  | fuel + 1, depth, text => do
    let text ← skipLines fuel text
    match text with
    | ']' :: rest => some ([], rest)
    | _ =>
      let (v, rest) ← value fuel depth text
      let rest ← skipLines fuel rest
      match rest with
      | ',' :: rest => (elements fuel depth rest).map fun (vs, rest) => (v :: vs, rest)
      | ']' :: rest => some ([v], rest)
      | _ => none

/-- Takes the fields of a table in braces and the brace behind them. -/
def fields : Nat → Nat → Reader (List (List String × Value))
  | 0, _, _ => none
  | fuel + 1, depth, text => do
    let (path, rest) ← key text
    let rest ← expect '=' rest
    let (v, rest) ← value fuel depth (skipSpaces rest)
    match skipSpaces rest with
    | ',' :: rest => (fields fuel depth rest).map fun (more, rest) => ((path, v) :: more, rest)
    | '\x7d' :: rest => some ([(path, v)], rest)
    | _ => none

end

/-! ### Statements -/

/-- A line of a document that defines something. -/
inductive Statement where
  /-- The header of a table. -/
  | table (path : List String)
  /-- The header of one more table under a key. -/
  | element (path : List String)
  /-- A key and its value. -/
  | field (path : List String) (v : Value)

/-- Takes a statement, but not the end of its line. -/
def statement (fuel : Nat) : Reader Statement
  | '[' :: '[' :: rest => do
    let (path, rest) ← key rest
    let rest ← (expect ']' rest).bind (expect ']')
    some (.element path, rest)
  | '[' :: rest => do
    let (path, rest) ← key rest
    let rest ← expect ']' rest
    some (.table path, rest)
  | text => do
    let (path, rest) ← key text
    let rest ← expect '=' rest
    let (v, rest) ← value fuel maxDepth (skipSpaces rest)
    some (.field path v, rest)

/-- The statements of a text that is shorter than the fuel. -/
def statements : Nat → List Char → Option (List Statement)
  | 0, _ => none
  | fuel + 1, text =>
    match skipSpaces text with
    | [] => some []
    | c :: rest =>
      if c = '#' ∨ c = '\n' ∨ c = '\r' then (trailing (c :: rest)).bind (statements fuel)
      else do
        let (first, rest) ← statement (2 * fuel) (c :: rest)
        let more ← (trailing rest).bind (statements fuel)
        some (first :: more)

/-! ### Documents -/

/-- A document under construction: its root table and the path of the table that is open. -/
structure Assembly where
  root : Entries := []
  opened : List String := []

/-- Carries out one statement. -/
def Assembly.step (assembly : Assembly) : Statement → Option Assembly
  | .table path => do
    let (parents, key) ← splitLast path
    let root ← assembly.root.openTable parents key
    some { root, opened := path }
  | .element path => do
    let (parents, key) ← splitLast path
    let root ← assembly.root.openElement parents key
    some { root, opened := path }
  | .field path v => do
    let (parents, key) ← splitLast path
    let root ← Entries.descend false (fun _ entries => entries.define parents key v)
      assembly.opened false assembly.root
    some { assembly with root }

/-- The table that statements define, from the first to the last. -/
def assemble (statements : List Statement) : Option (List (String × Value)) :=
  (statements.foldlM Assembly.step {}).map fun assembly => Entries.finish assembly.root

/-- A text without the byte order mark in front, if there is one. -/
def skipMark : List Char → List Char
  | '\uFEFF' :: rest => rest
  | text => text

/-- The table that a document defines, if it is well formed. -/
def parse (text : String) : Option (List (String × Value)) :=
  (statements text.toList.length.succ (skipMark text.toList)).bind assemble

end ArchivePlan.Toml
