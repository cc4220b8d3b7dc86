/-! # Lexical elements of TOML

Blanks, comments, line ends, strings and keys.  A reader takes an element off the front of a text
and gives it with the rest of the text, or nothing if the text has no such element in front. -/

namespace ArchivePlan.Toml

/-- Takes something off the front of a text. -/
abbrev Reader (α : Type) := List Char → Option (α × List Char)

/-! ### Blanks and line ends -/

/-- A space or a tab. -/
def isSpace (c : Char) : Bool :=
  c == ' ' || c == '\t'

/-- A text without the spaces in front. -/
def skipSpaces (text : List Char) : List Char :=
  text.dropWhile isSpace

/-- A character that a comment or a literal string may hold. -/
def isPlain (c : Char) : Bool :=
  c == '\t' || (0x20 ≤ c.toNat && c.toNat ≤ 0x7E) || 0x80 ≤ c.toNat

/-- Takes a line end: a line feed, with or without a carriage return before it. -/
def newline : Reader Unit
  | '\n' :: rest => some ((), rest)
  | '\r' :: '\n' :: rest => some ((), rest)
  | _ => none

/-- Takes a line end, which at the end of the text need not be there. -/
def lineEnd : Reader Unit
  | [] => some ((), [])
  | text => newline text

/-- A text without the comment in front, if there is one. -/
def skipComment : List Char → List Char
  | '#' :: rest => rest.dropWhile isPlain
  | text => text

/-- Takes spaces, an optional comment and the end of the line. -/
def trailing (text : List Char) : Option (List Char) :=
  (lineEnd (skipComment (skipSpaces text))).map (·.2)

/-- A text without the spaces, comments and line ends in front, as between the items of an array;
nothing if a comment does not end with its line. -/
def skipLines : Nat → List Char → Option (List Char)
  | 0, _ => none
  | fuel + 1, text =>
    match skipSpaces text with
    | '#' :: rest => (newline (rest.dropWhile isPlain)).bind fun (_, rest) => skipLines fuel rest
    | '\n' :: rest => skipLines fuel rest
    | '\r' :: rest => (newline ('\r' :: rest)).bind fun (_, rest) => skipLines fuel rest
    | rest => some rest

/-! ### Strings -/

def hexDigit? (c : Char) : Option Nat :=
  if '0' ≤ c ∧ c ≤ '9' then some (c.toNat - 48)
  else if 'a' ≤ c ∧ c ≤ 'f' then some (c.toNat - 87)
  else if 'A' ≤ c ∧ c ≤ 'F' then some (c.toNat - 55)
  else none

/-- The character whose code point the digits give. -/
def scalar? (digits : List Char) : Option Char := do
  let values ← digits.mapM hexDigit?
  let n := values.foldl (fun n d => n * 16 + d) 0
  if n < 0xD800 ∨ (0xDFFF < n ∧ n < 0x110000) then some (Char.ofNat n) else none

/-- The character that a letter behind a backslash stands for. -/
def escape? : Char → Option Char
  | 'b' => some '\x08'
  | 't' => some '\t'
  | 'n' => some '\n'
  | 'f' => some '\x0c'
  | 'r' => some '\r'
  | '"' => some '"'
  | '\\' => some '\\'
  | _ => none

/-- A character that stands for itself between double quotes. -/
def isBasic (c : Char) : Bool :=
  isPlain c && c != '"' && c != '\\'

/-- Puts a character in front of what is read next. -/
def consed (c : Char) (next : Option (List Char × List Char)) : Option (List Char × List Char) :=
  next.map fun (text, rest) => (c :: text, rest)

/-- Takes the rest of a string up to the double quote that ends it. -/
def basicRest : Reader (List Char)
  | '"' :: rest => some ([], rest)
  | '\\' :: 'u' :: a :: b :: c :: d :: rest =>
    (scalar? [a, b, c, d]).bind fun x => consed x (basicRest rest)
  | '\\' :: 'U' :: a :: b :: c :: d :: e :: f :: g :: h :: rest =>
    (scalar? [a, b, c, d, e, f, g, h]).bind fun x => consed x (basicRest rest)
  | '\\' :: c :: rest => (escape? c).bind fun x => consed x (basicRest rest)
  | c :: rest => if isBasic c then consed c (basicRest rest) else none
  | [] => none

/-- Takes the rest of a literal string up to the quote that ends it. -/
def literalRest : Reader (List Char)
  | '\'' :: rest => some ([], rest)
  | c :: rest => if isPlain c then consed c (literalRest rest) else none
  | [] => none

/-- Where a string of several lines stands with respect to line ends that a backslash takes out. -/
inductive Fold where
  /-- Every character counts. -/
  | off
  /-- Behind a backslash, before the line end that has to follow. -/
  | wanted
  /-- Behind such a line end, in the blanks that are left out. -/
  | skipping
  deriving DecidableEq, Repr

/-- Takes the rest of a string of several lines up to the three double quotes that end it; one or
two more before them belong to the string.  Line ends count as line feeds. -/
def multiBasicRest : Fold → Reader (List Char)
  | .wanted, '\n' :: rest => multiBasicRest .skipping rest
  | .wanted, '\r' :: '\n' :: rest => multiBasicRest .skipping rest
  | .wanted, c :: rest => if isSpace c then multiBasicRest .wanted rest else none
  | _, '"' :: '"' :: '"' :: '"' :: '"' :: rest => some (['"', '"'], rest)
  | _, '"' :: '"' :: '"' :: '"' :: rest => some (['"'], rest)
  | _, '"' :: '"' :: '"' :: rest => some ([], rest)
  | _, '"' :: rest => consed '"' (multiBasicRest .off rest)
  | .skipping, '\n' :: rest => multiBasicRest .skipping rest
  | .skipping, '\r' :: '\n' :: rest => multiBasicRest .skipping rest
  | _, '\n' :: rest => consed '\n' (multiBasicRest .off rest)
  | _, '\r' :: '\n' :: rest => consed '\n' (multiBasicRest .off rest)
  | _, '\\' :: '\n' :: rest => multiBasicRest .skipping rest
  | _, '\\' :: '\r' :: '\n' :: rest => multiBasicRest .skipping rest
  | _, '\\' :: ' ' :: rest => multiBasicRest .wanted rest
  | _, '\\' :: '\t' :: rest => multiBasicRest .wanted rest
  | _, '\\' :: 'u' :: a :: b :: c :: d :: rest =>
    (scalar? [a, b, c, d]).bind fun x => consed x (multiBasicRest .off rest)
  | _, '\\' :: 'U' :: a :: b :: c :: d :: e :: f :: g :: h :: rest =>
    (scalar? [a, b, c, d, e, f, g, h]).bind fun x => consed x (multiBasicRest .off rest)
  | _, '\\' :: c :: rest => (escape? c).bind fun x => consed x (multiBasicRest .off rest)
  | fold, c :: rest =>
    if fold = .skipping ∧ isSpace c then multiBasicRest .skipping rest
    else if isBasic c then consed c (multiBasicRest .off rest)
    else none
  | _, [] => none

/-- Takes the rest of a literal string of several lines up to the three quotes that end it; one or
two more before them belong to the string.  Line ends count as line feeds. -/
def multiLiteralRest : Reader (List Char)
  | '\'' :: '\'' :: '\'' :: '\'' :: '\'' :: rest => some (['\'', '\''], rest)
  | '\'' :: '\'' :: '\'' :: '\'' :: rest => some (['\''], rest)
  | '\'' :: '\'' :: '\'' :: rest => some ([], rest)
  | '\n' :: rest => consed '\n' (multiLiteralRest rest)
  | '\r' :: '\n' :: rest => consed '\n' (multiLiteralRest rest)
  | c :: rest => if isPlain c then consed c (multiLiteralRest rest) else none
  | [] => none

/-- A text without the line end in front, if there is one. -/
def skipNewline (text : List Char) : List Char :=
  match newline text with
  | some (_, rest) => rest
  | none => text

/-- Takes a string of any of the four forms. -/
def string : Reader String := fun text =>
  let found :=
    match text with
    | '"' :: '"' :: '"' :: rest => multiBasicRest .off (skipNewline rest)
    | '"' :: rest => basicRest rest
    | '\'' :: '\'' :: '\'' :: rest => multiLiteralRest (skipNewline rest)
    | '\'' :: rest => literalRest rest
    | _ => none
  found.map fun (text, rest) => (String.ofList text, rest)

/-! ### Keys -/

/-- A character of a bare key. -/
def isBare (c : Char) : Bool :=
  ('a' ≤ c && c ≤ 'z') || ('A' ≤ c && c ≤ 'Z') || ('0' ≤ c && c ≤ '9') || c == '-' || c == '_'

/-- Takes a key without dots. -/
def simpleKey : Reader String
  | '"' :: rest => (basicRest rest).map fun (key, rest) => (String.ofList key, rest)
  | '\'' :: rest => (literalRest rest).map fun (key, rest) => (String.ofList key, rest)
  | text =>
    match text.takeWhile isBare with
    | [] => none
    | key => some (String.ofList key, text.dropWhile isBare)

/-- Takes at most the given number of keys between dots, with spaces around each. -/
def dottedKey : Nat → Reader (List String)
  | 0, _ => none
  | more + 1, text =>
    match simpleKey (skipSpaces text) with
    | none => none
    | some (key, rest) =>
      match skipSpaces rest with
      | '.' :: rest => (dottedKey more rest).map fun (keys, rest) => (key :: keys, rest)
      | rest => some ([key], rest)

/-- How many keys there can be between dots, and how many arrays and tables one inside the other. -/
def maxDepth : Nat := 79

/-- Takes a key. -/
def key : Reader (List String) :=
  dottedKey maxDepth

end ArchivePlan.Toml
