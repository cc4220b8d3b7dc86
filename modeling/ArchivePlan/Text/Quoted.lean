import ArchivePlan.Text.Hidden

/-! # Quoted text

The form in which a text appears inside a message: between double quotes, with a backslash before
quotes and backslashes, short escapes for the usual control characters, and the code point in braces
for every other character without a glyph. -/

namespace ArchivePlan.Text

def hexDigits (n : Nat) : List Char :=
  Nat.toDigits 16 n

/-- A character that is shown by its code point in braces. -/
def escapeNumbered (c : Char) : List Char :=
  '\\' :: 'u' :: '\x7b' :: hexDigits c.toNat ++ ['\x7d']

/-- One character as it stands between double quotes. -/
def escapeChar (c : Char) : List Char :=
  if c = '\x00' then ['\\', '0']
  else if c = '\t' then ['\\', 't']
  else if c = '\n' then ['\\', 'n']
  else if c = '\r' then ['\\', 'r']
  else if c = '"' ∨ c = '\\' then ['\\', c]
  else if c.toNat < 0x20 ∨ c.toNat = 0x7F then escapeNumbered c
  else if c.toNat < 0x7F then [c]
  else if isHidden c then escapeNumbered c
  else [c]

/-- A text between double quotes. -/
def quoted (text : String) : String :=
  String.ofList ('"' :: text.toList.flatMap escapeChar ++ ['"'])

end ArchivePlan.Text
