import ArchivePlan.Calendar.Date
import ArchivePlan.Calendar.Instant

/-! # RFC 3339 timestamps

A date, a time of day with an optional fraction, and an offset from UTC.  Reading goes from left to
right; the date is judged as soon as it is read, the time of day behind its fraction and the offset
at the very end.  A leap second is the second before it with further nanoseconds. -/

namespace ArchivePlan.Calendar.Rfc3339

/-- Why a text is not a timestamp. -/
inductive Fault where
  | tooShort
  | invalid
  | outOfRange
  | tooLong
  deriving DecidableEq, Repr

def Fault.message : Fault → String
  | .tooShort => "premature end of input"
  | .invalid => "input contains invalid characters"
  | .outOfRange => "input is out of range"
  | .tooLong => "trailing input"

/-- Reads something at the front of a text. -/
abbrev Reader (α : Type) := List Char → Except Fault (α × List Char)

def digit? (c : Char) : Option Nat :=
  if '0' ≤ c ∧ c ≤ '9' then some (c.toNat - 48) else none

def digit : Reader Nat
  | [] => .error .tooShort
  | c :: rest =>
    match digit? c with
    | some d => .ok (d, rest)
    | none => .error .invalid

/-- Reads a number of a fixed count of digits behind the value of those read so far. -/
def digits (value : Nat) : Nat → Reader Nat
  | 0, text => .ok (value, text)
  | count + 1, text => do
    let (d, text) ← digit text
    digits (value * 10 + d) count text

/-- Reads one of the given characters. -/
def mark (allowed : List Char) : Reader Unit
  | [] => .error .tooShort
  | c :: rest => if c ∈ allowed then .ok ((), rest) else .error .invalid

/-- A time of day, in seconds since midnight and nanoseconds after them. -/
structure TimeOfDay where
  seconds : Nat
  nanos : Nat
  deriving DecidableEq, Repr

/-- Reads a date and judges it. -/
def date : Reader Date := fun text => do
  let (year, text) ← digits 0 4 text
  let (_, text) ← mark ['-'] text
  let (month, text) ← digits 0 2 text
  let (_, text) ← mark ['-'] text
  let (day, text) ← digits 0 2 text
  let date : Date := ⟨year, month, day⟩
  if date.isValid then .ok (date, text) else .error .outOfRange

/-- The digits at the front of a text. -/
def leadingDigits (text : List Char) : List Nat :=
  (text.takeWhile fun c => (digit? c).isSome).filterMap digit?

/-- The nanoseconds that the first nine digits of a fraction give. -/
def fractionNanos (digits : List Nat) : Nat :=
  let kept := digits.take 9
  kept.foldl (fun value d => value * 10 + d) 0 * Nat.pow 10 (9 - kept.length)

/-- Reads an optional fraction of a second, in nanoseconds. -/
def fraction : Reader Nat
  | '.' :: text =>
    if text = [] then .error .tooShort
    else
      match leadingDigits text with
      | [] => .error .invalid
      | found => .ok (fractionNanos found, text.drop found.length)
  | text => .ok (0, text)

/-- The time of day with the given parts, if a clock shows it. -/
def timeOfDay? (hour minute second nanos : Nat) : Option TimeOfDay :=
  let leap := second = 60
  let second := if leap then 59 else second
  if hour < 24 ∧ minute < 60 ∧ second < 60 then
    some ⟨hour * 3600 + minute * 60 + second, if leap then nanos + 1000000000 else nanos⟩
  else none

/-- Reads a time of day and judges it. -/
def time : Reader TimeOfDay := fun text => do
  let (hour, text) ← digits 0 2 text
  let (_, text) ← mark [':'] text
  let (minute, text) ← digits 0 2 text
  let (_, text) ← mark [':'] text
  let (second, text) ← digits 0 2 text
  let (nanos, text) ← fraction text
  match timeOfDay? hour minute second nanos with
  | some time => .ok (time, text)
  | none => .error .outOfRange

/-- Reads a number of two digits; a text of a single byte is too short for one. -/
def pair : Reader (Nat × Nat)
  | a :: b :: rest =>
    match digit? a, digit? b with
    | some x, some y => .ok ((x, y), rest)
    | _, _ => .error .invalid
  | [a] => if a.toNat < 0x80 then .error .tooShort else .error .invalid
  | [] => .error .tooShort

/-- Reads the hours and minutes of an offset, in seconds. -/
def offsetSize : Reader Int := fun text => do
  let ((h1, h2), text) ← pair text
  let (_, text) ← mark [':'] text
  let ((m1, m2), text) ← pair text
  if m1 < 6 then .ok (((h1 * 10 + h2) * 3600 + (m1 * 10 + m2) * 60 : Nat), text)
  else .error .outOfRange

/-- Reads an offset from UTC, in seconds.  A minus may be written as U+2212. -/
def offset : Reader Int
  | [] => .error .tooShort
  | c :: text =>
    if c = 'Z' ∨ c = 'z' then .ok (0, text)
    else if c = '+' then offsetSize text
    else if c = '-' ∨ c = '\u2212' then (offsetSize text).map fun (size, rest) => (-size, rest)
    else .error .invalid

/-- The bytes that a text takes in UTF-8. -/
def byteLength (text : List Char) : Nat :=
  (text.map Char.utf8Size).foldl Nat.add 0

/-- The point in time that a timestamp stands for. -/
def read (text : List Char) : Except Fault Instant := do
  if byteLength text < 19 then .error .tooShort
  let (date, text) ← date text
  let (_, text) ← mark ['T', 't', ' '] text
  let (time, text) ← time text
  let (offset, text) ← offset text
  if text ≠ [] then .error .tooLong
  if offset ≤ -daySeconds ∨ daySeconds ≤ offset then .error .outOfRange
  return ⟨date.toDays * daySeconds + time.seconds - offset, time.nanos⟩

end ArchivePlan.Calendar.Rfc3339
