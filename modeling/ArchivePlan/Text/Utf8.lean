/-! # UTF-8

File names are bytes and need not be text.  `decode?` reads bytes as text and refuses anything that
is not UTF-8; `decodeLossy` shows each ill-formed stretch as U+FFFD, which is how such names appear
in messages.  Both read one character at a time with `next`. -/

namespace ArchivePlan

/-- A sequence of bytes: the content of a file, or a name in a directory. -/
abbrev Bytes := List UInt8

namespace Utf8

def encode (text : List Char) : Bytes :=
  text.flatMap String.utf8EncodeChar

/-- What stands at the front of a byte sequence, with the number of further bytes it takes. -/
inductive Front where
  /-- A whole character. -/
  | char (c : Char) (more : Nat)
  /-- A stretch that no character can start with: the longest part that still looked like one. -/
  | broken (more : Nat)
  deriving DecidableEq, Repr

/-- The payload of a continuation byte within `[low, high]`. -/
def tail? (low high : Nat) : Option UInt8 → Option Nat
  | some b => if low ≤ b.toNat ∧ b.toNat ≤ high then some (b.toNat % 64) else none
  | none => none

/-- A two-byte character led by `lead`. -/
def twoBytes (lead : Nat) (rest : Bytes) : Front :=
  match tail? 0x80 0xBF rest[0]? with
  | some x => .char (Char.ofNat (lead % 32 * 64 + x)) 1
  | none => .broken 0

/-- A three-byte character led by `lead`, its second byte within `[low, high]`. -/
def threeBytes (lead low high : Nat) (rest : Bytes) : Front :=
  match tail? low high rest[0]? with
  | none => .broken 0
  | some x =>
    match tail? 0x80 0xBF rest[1]? with
    | none => .broken 1
    | some y => .char (Char.ofNat (lead % 16 * 4096 + x * 64 + y)) 2

/-- A four-byte character led by `lead`, its second byte within `[low, high]`. -/
def fourBytes (lead low high : Nat) (rest : Bytes) : Front :=
  match tail? low high rest[0]? with
  | none => .broken 0
  | some x =>
    match tail? 0x80 0xBF rest[1]? with
    | none => .broken 1
    | some y =>
      match tail? 0x80 0xBF rest[2]? with
      | none => .broken 2
      | some z => .char (Char.ofNat (lead % 8 * 262144 + x * 4096 + y * 64 + z)) 3

/-- What a sequence with the first byte `lead` and the bytes `rest` behind it starts with. -/
def front (lead : UInt8) (rest : Bytes) : Front :=
  let n := lead.toNat
  if n < 0x80 then .char (Char.ofNat n) 0
  else if n < 0xC2 then .broken 0
  else if n < 0xE0 then twoBytes n rest
  else if n = 0xE0 then threeBytes n 0xA0 0xBF rest
  else if n = 0xED then threeBytes n 0x80 0x9F rest
  else if n < 0xF0 then threeBytes n 0x80 0xBF rest
  else if n = 0xF0 then fourBytes n 0x90 0xBF rest
  else if n < 0xF4 then fourBytes n 0x80 0xBF rest
  else if n = 0xF4 then fourBytes n 0x80 0x8F rest
  else .broken 0

/-- Reads characters, passing over the `skip` bytes that belong to the character read last;
`none` at the first ill-formed stretch. -/
def read? (skip : Nat) : Bytes → Option (List Char)
  | [] => some []
  | b :: rest =>
    match skip with
    | n + 1 => read? n rest
    | 0 =>
      match front b rest with
      | .char c more => (read? more rest).map (c :: ·)
      | .broken _ => none

/-- Reads characters as `read?` does, with U+FFFD for each ill-formed stretch. -/
def readLossy (skip : Nat) : Bytes → List Char
  | [] => []
  | b :: rest =>
    match skip with
    | n + 1 => readLossy n rest
    | 0 =>
      match front b rest with
      | .char c more => c :: readLossy more rest
      | .broken more => '\uFFFD' :: readLossy more rest

/-- The text that the bytes encode, if they are UTF-8. -/
def decode? (bytes : Bytes) : Option String :=
  (read? 0 bytes).map String.ofList

/-- The bytes as text, with U+FFFD for each ill-formed stretch. -/
def decodeLossy (bytes : Bytes) : String :=
  String.ofList (readLossy 0 bytes)

/-- The UTF-8 bytes of a string. -/
def ofString (text : String) : Bytes :=
  encode text.toList

end Utf8

end ArchivePlan
