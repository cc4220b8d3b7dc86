import ArchivePlan.Numeral
import ArchivePlan.Toml.Lexical
import ArchivePlan.Toml.Value

/-! # Numbers, dates and booleans of TOML -/

namespace ArchivePlan.Toml

/-! ### Dates and times -/

def digit? (c : Char) : Option Nat :=
  if '0' ≤ c ∧ c ≤ '9' then some (c.toNat - 48) else none

/-- Takes a number of two digits within bounds. -/
def twoDigits (low high : Nat) : Reader Nat
  | a :: b :: rest => do
    let n := (← digit? a) * 10 + (← digit? b)
    if low ≤ n ∧ n ≤ high then some (n, rest) else none
  | _ => none

def expect (c : Char) : List Char → Option (List Char)
  | d :: rest => if c = d then some rest else none
  | [] => none

def monthLength (year month : Nat) : Nat :=
  match month with
  | 2 => if year % 4 = 0 ∧ (year % 100 ≠ 0 ∨ year % 400 = 0) then 29 else 28
  | 4 | 6 | 9 | 11 => 30
  | _ => 31

def date (text : List Char) : Option (List Char) := do
  let (century, text) ← twoDigits 0 99 text
  let (years, text) ← twoDigits 0 99 text
  let text ← expect '-' text
  let (month, text) ← twoDigits 1 12 text
  let text ← expect '-' text
  let (day, text) ← twoDigits 1 31 text
  if day ≤ monthLength (century * 100 + years) month then some text else none

def time (text : List Char) : Option (List Char) := do
  let (_, text) ← twoDigits 0 23 text
  let text ← expect ':' text
  let (_, text) ← twoDigits 0 59 text
  let text ← expect ':' text
  let (_, text) ← twoDigits 0 60 text
  match text with
  | '.' :: rest =>
    let behind := rest.dropWhile fun c => (digit? c).isSome
    if behind.length < rest.length then some behind else none
  | _ => some text

def offset (text : List Char) : Option (List Char) :=
  match text with
  | 'Z' :: rest => some rest
  | 'z' :: rest => some rest
  | c :: rest =>
    if c = '+' ∨ c = '-' then do
      let (_, rest) ← twoDigits 0 23 rest
      let rest ← expect ':' rest
      let (_, rest) ← twoDigits 0 59 rest
      some rest
    else some text
  | [] => some []

/-- Whether a text starts with the year of a date. -/
def startsDate : List Char → Bool
  | a :: b :: c :: d :: '-' :: _ => [a, b, c, d].all fun x => (digit? x).isSome
  | _ => false

/-- Whether a text starts with the hour of a time. -/
def startsTime : List Char → Bool
  | a :: b :: ':' :: _ => [a, b].all fun x => (digit? x).isSome
  | _ => false

/-- Takes a date with an optional time behind it. -/
def dateTime (text : List Char) : Option (List Char) := do
  let rest ← date text
  match rest with
  | c :: more =>
    if (c = 'T' ∨ c = 't' ∨ c = ' ') ∧ startsTime more then (time more).bind offset
    else some rest
  | [] => some []

/-- What was taken off a text that leaves a rest. -/
def taken (text rest : List Char) : String :=
  String.ofList (text.take (text.length - rest.length))

/-! ### Numbers -/

/-- Takes the digits behind a first one, each of which may have an underscore before it; gives the
digits alone. -/
def moreDigits (base : Nat) : Reader (List Char)
  | '_' :: c :: rest =>
    if (Numeral.digit? base c).isSome then consed c (moreDigits base rest) else none
  | ['_'] => none
  | c :: rest =>
    if (Numeral.digit? base c).isSome then consed c (moreDigits base rest) else some ([], c :: rest)
  | [] => some ([], [])

/-- Takes digits of a base with single underscores between them; gives the digits alone. -/
def digitRun (base : Nat) : Reader (List Char)
  | c :: rest =>
    if (Numeral.digit? base c).isSome then consed c (moreDigits base rest) else none
  | [] => none

/-- Takes the digits of a decimal integer: a single zero, or digits that start with another. -/
def decimalDigits : Reader (List Char)
  | '0' :: rest => some (['0'], rest)
  | text => digitRun 10 text

/-- Takes an optional sign; gives whether it is a minus. -/
def sign : List Char → Bool × List Char
  | '-' :: rest => (true, rest)
  | '+' :: rest => (false, rest)
  | text => (false, text)

def exponent (text : List Char) : Option (Int × List Char) := do
  let (negative, text) := sign text
  let (digits, rest) ← digitRun 10 text
  let n ← Numeral.read? 10 digits
  some (if negative then -n else n, rest)

/-- Takes an optional exponent behind a fraction. -/
def optionalExponent : Reader Int
  | 'e' :: rest => exponent rest
  | 'E' :: rest => exponent rest
  | text => some (0, text)

/-- The float with the given parts; a positive one that is too large is refused. -/
def floatOf? (negative : Bool) (whole fraction : List Char) (exponent : Int) : Option Value := do
  let digits ← Numeral.read? 10 (whole ++ fraction)
  let x := Binary64.ofDecimal negative digits (exponent - fraction.length)
  if x = .infinite false then none else some (.float x)

/-- The integer with the given parts, if it fits in 64 bits. -/
def integerOf? (negative : Bool) (base : Nat) (digits : List Char) : Option Value := do
  let n ← Numeral.read? base digits
  let n : Int := if negative then -n else n
  if -0x8000000000000000 ≤ n ∧ n < 0x8000000000000000 then some (.integer n) else none

/-- Takes a number that is written in decimal behind its sign. -/
def decimalNumber (negative : Bool) : Reader Value := fun text => do
  let (whole, rest) ← decimalDigits text
  match rest with
  | '.' :: rest =>
    let (fraction, rest) ← digitRun 10 rest
    let (exponent, rest) ← optionalExponent rest
    let value ← floatOf? negative whole fraction exponent
    some (value, rest)
  | c :: more =>
    if c = 'e' ∨ c = 'E' then
      let (exponent, rest) ← exponent more
      let value ← floatOf? negative whole [] exponent
      some (value, rest)
    else do
      let value ← integerOf? negative 10 whole
      some (value, rest)
  | [] =>
    let value ← integerOf? negative 10 whole
    some (value, rest)

/-- Takes an integer of another base behind its mark. -/
def markedNumber (base : Nat) : Reader Value := fun text => do
  let (digits, rest) ← digitRun base text
  let value ← integerOf? false base digits
  some (value, rest)

def number : Reader Value
  | '0' :: 'x' :: rest => markedNumber 16 rest
  | '0' :: 'o' :: rest => markedNumber 8 rest
  | '0' :: 'b' :: rest => markedNumber 2 rest
  | text =>
    match sign text with
    | (negative, 'i' :: 'n' :: 'f' :: rest) => some (.float (.infinite negative), rest)
    | (_, 'n' :: 'a' :: 'n' :: rest) => some (.float .nan, rest)
    | (negative, rest) => decimalNumber negative rest

/-- Takes a boolean, a number, a date or a time. -/
def scalar : Reader Value
  | 't' :: 'r' :: 'u' :: 'e' :: rest => some (.boolean true, rest)
  | 'f' :: 'a' :: 'l' :: 's' :: 'e' :: rest => some (.boolean false, rest)
  | text =>
    if startsDate text then
      (dateTime text).map fun rest => (.datetime (taken text rest), rest)
    else if startsTime text then
      (time text).map fun rest => (.datetime (taken text rest), rest)
    else number text

end ArchivePlan.Toml
