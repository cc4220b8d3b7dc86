import ArchivePlan.Digest.Md5
import ArchivePlan.Digest.Sha2

/-! # Digest algorithms

The algorithms that file digests can use, their names and their hexadecimal digests.  A name may be
written in any case, with hyphens and underscores anywhere. -/

namespace ArchivePlan

/-- A digest algorithm. -/
inductive Algorithm where
  | md5
  | sha224
  | sha256
  | sha384
  | sha512
  deriving DecidableEq, Repr

/-- A name that no algorithm has. -/
structure UnknownAlgorithm where
  given : String
  deriving DecidableEq, Repr

def UnknownAlgorithm.message (e : UnknownAlgorithm) : String :=
  s!"unknown digest algorithm '{e.given}', expected one of: MD5, SHA-224, SHA-256, SHA-384, SHA-512"

namespace Algorithm

/-- The algorithm that is used where none is chosen. -/
def default : Algorithm := .sha256

def name : Algorithm → String
  | .md5 => "MD5"
  | .sha224 => "SHA-224"
  | .sha256 => "SHA-256"
  | .sha384 => "SHA-384"
  | .sha512 => "SHA-512"

/-- A name without hyphens and underscores, in lower case. -/
def plainName (name : String) : String :=
  String.ofList ((name.toList.filter fun c => c ≠ '-' ∧ c ≠ '_').map Char.toLower)

/-- The algorithm that a name stands for. -/
def ofName? (name : String) : Option Algorithm :=
  match plainName name with
  | "md5" => some .md5
  | "sha224" => some .sha224
  | "sha256" => some .sha256
  | "sha384" => some .sha384
  | "sha512" => some .sha512
  | _ => none

/-- The algorithm that a name stands for; a name that stands for none is quoted unchanged. -/
def ofName (name : String) : Except UnknownAlgorithm Algorithm :=
  match ofName? name with
  | some algorithm => .ok algorithm
  | none => .error ⟨name⟩

def hex (bytes : Bytes) : String :=
  String.ofList
    (bytes.flatMap fun b => [Nat.digitChar (b.toNat / 16), Nat.digitChar (b.toNat % 16)])

/-- The digest of a message that is there as a whole. -/
def digest : Algorithm → Bytes → Bytes
  | .md5 => Md5.hash.digest
  | .sha224 => Sha2.sha224.digest
  | .sha256 => Sha2.sha256.digest
  | .sha384 => Sha2.sha384.digest
  | .sha512 => Sha2.sha512.digest

/-- The digest of a message that comes in pieces. -/
def digestPieces : Algorithm → List Bytes → Bytes
  | .md5 => Md5.hash.digestPieces
  | .sha224 => Sha2.sha224.digestPieces
  | .sha256 => Sha2.sha256.digestPieces
  | .sha384 => Sha2.sha384.digestPieces
  | .sha512 => Sha2.sha512.digestPieces

/-- The digest of bytes, as hexadecimal digits. -/
def hexDigest (algorithm : Algorithm) (message : Bytes) : String :=
  hex (algorithm.digest message)

/-- The digest of what a reader yields piece by piece, as hexadecimal digits. -/
def hexDigestPieces (algorithm : Algorithm) (pieces : List Bytes) : String :=
  hex (algorithm.digestPieces pieces)

end Algorithm

end ArchivePlan
