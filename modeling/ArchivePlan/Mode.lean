import ArchivePlan.Kind
import ArchivePlan.Numeral
import ArchivePlan.Text.Blank

/-! # Permission modes

Twelve permission bits, written in octal.  `Mode.parse` reads an octal numeral of at most five
characters with an optional `0o` in front and blanks around it; `Mode.text` writes at least four
digits. -/

namespace ArchivePlan

/-- Permission bits of an entry. -/
structure Mode where
  /-- The bits as a number. -/
  bits : Nat
  bits_le : bits ≤ 0o7777 := by decide
  deriving DecidableEq, Repr

/-- A text or number that is not a mode, as it was given. -/
structure InvalidMode where
  /-- The text, or the octal digits of the number. -/
  given : String
  deriving DecidableEq, Repr

def InvalidMode.message (e : InvalidMode) : String :=
  s!"invalid file mode '{e.given}': expected octal permission bits such as 0644"

namespace Mode

/-- The mode with the given bits, if there are no others than permission bits. -/
def ofBits? (bits : Nat) : Option Mode :=
  if h : bits ≤ 0o7777 then some ⟨bits, h⟩ else none

def ofBits (bits : Nat) : Except InvalidMode Mode :=
  match ofBits? bits with
  | some mode => .ok mode
  | none => .error ⟨String.ofList (Nat.toDigits 8 bits)⟩

/-- A text without the mark of an octal numeral. -/
def withoutMark : List Char → List Char
  | '0' :: 'o' :: rest => rest
  | text => text

/-- The value of octal digits, which may have a plus in front. -/
def octal? : List Char → Option Nat
  | '+' :: digits => Numeral.read? 8 digits
  | digits => Numeral.read? 8 digits

/-- The mode that a text writes. -/
def parse? (text : String) : Option Mode :=
  let digits := withoutMark (Text.trim text.toList)
  if digits.length > 5 then none else (octal? digits).bind ofBits?

/-- The mode that a text writes; a text that writes none is quoted unchanged. -/
def parse (text : String) : Except InvalidMode Mode :=
  match parse? text with
  | some mode => .ok mode
  | none => .error ⟨text⟩

/-- Four octal digits. -/
def text (mode : Mode) : String :=
  String.ofList (Numeral.padded 8 4 mode.bits)

/-- The mode of an object of a kind when nothing sets it. -/
def defaultFor : FileKind → Mode
  | .file => ⟨0o644, by decide⟩
  | .directory => ⟨0o755, by decide⟩
  | .symlink => ⟨0o777, by decide⟩

end Mode

end ArchivePlan
