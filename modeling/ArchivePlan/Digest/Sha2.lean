import ArchivePlan.Digest.BlockHash

/-! # The SHA-2 family

The 32-bit and the 64-bit hashes differ in their words, rotations and number of rounds, which a
`Family` records; the compression function is written once for both.  The constants of the 32-bit
hashes are halves of those of the 64-bit ones. -/

namespace ArchivePlan.Sha2

/-- Eight words: the chaining value and the working variables. -/
structure State (α : Type) where
  a : α
  b : α
  c : α
  d : α
  e : α
  f : α
  g : α
  h : α
  deriving DecidableEq, Repr

def State.toList {α : Type} (s : State α) : List α :=
  [s.a, s.b, s.c, s.d, s.e, s.f, s.g, s.h]

def State.zipWith {α : Type} (op : α → α → α) (s t : State α) : State α :=
  ⟨op s.a t.a, op s.b t.b, op s.c t.c, op s.d t.d, op s.e t.e, op s.f t.f, op s.g t.g, op s.h t.h⟩

/-- What the 32-bit and the 64-bit hashes do not share. -/
structure Family (α : Type) where
  /-- The number of bytes in a word. -/
  wordSize : Nat
  /-- One constant for each round. -/
  constants : List α
  ofNat : Nat → α
  toNat : α → Nat
  upperSigma0 : α → α
  upperSigma1 : α → α
  lowerSigma0 : α → α
  lowerSigma1 : α → α

section compression
variable {α : Type} [Add α] [AndOp α] [XorOp α] [Complement α] (family : Family α)

/-- Takes each bit from `y` or `z` as `x` says. -/
def choose (x y z : α) : α :=
  (x &&& y) ^^^ (~~~x &&& z)

/-- Takes each bit as most of the three have it. -/
def majority (x y z : α) : α :=
  (x &&& y) ^^^ (x &&& z) ^^^ (y &&& z)

/-- The sixteen words from which the schedule continues, moved on by one. -/
def nextWords (words : List α) : List α :=
  match words with
  | [] => []
  | w :: rest =>
    let next := family.lowerSigma1 (rest.getD 13 w) + rest.getD 8 w
      + family.lowerSigma0 (rest.getD 0 w) + w
    rest ++ [next]

/-- One round with the first of the scheduled words. -/
def round (s : State α) (constant word : α) : State α :=
  let t1 := s.h + family.upperSigma1 s.e + choose s.e s.f s.g + constant + word
  let t2 := family.upperSigma0 s.a + majority s.a s.b s.c
  ⟨t1 + t2, s.a, s.b, s.c, s.d + t1, s.e, s.f, s.g⟩

def rounds : List α → List α → State α → State α
  | constant :: constants, word :: words, s =>
    rounds constants (nextWords family (word :: words)) (round family s constant word)
  | _, _, s => s

/-- Mixes a block into the chaining value. -/
def compress (s : State α) (block : Bytes) : State α :=
  let words := (BlockHash.wordsOf family.wordSize 16 block).map fun w =>
    family.ofNat (BlockHash.ofBigEndian w)
  s.zipWith (· + ·) (rounds family family.constants words s)

end compression

/-- The first sixty-four bits of the fractional parts of the cube roots of the first eighty
primes. -/
def cubeRoots : List UInt64 := [
  0x428a2f98d728ae22, 0x7137449123ef65cd, 0xb5c0fbcfec4d3b2f, 0xe9b5dba58189dbbc,
  0x3956c25bf348b538, 0x59f111f1b605d019, 0x923f82a4af194f9b, 0xab1c5ed5da6d8118,
  0xd807aa98a3030242, 0x12835b0145706fbe, 0x243185be4ee4b28c, 0x550c7dc3d5ffb4e2,
  0x72be5d74f27b896f, 0x80deb1fe3b1696b1, 0x9bdc06a725c71235, 0xc19bf174cf692694,
  0xe49b69c19ef14ad2, 0xefbe4786384f25e3, 0x0fc19dc68b8cd5b5, 0x240ca1cc77ac9c65,
  0x2de92c6f592b0275, 0x4a7484aa6ea6e483, 0x5cb0a9dcbd41fbd4, 0x76f988da831153b5,
  0x983e5152ee66dfab, 0xa831c66d2db43210, 0xb00327c898fb213f, 0xbf597fc7beef0ee4,
  0xc6e00bf33da88fc2, 0xd5a79147930aa725, 0x06ca6351e003826f, 0x142929670a0e6e70,
  0x27b70a8546d22ffc, 0x2e1b21385c26c926, 0x4d2c6dfc5ac42aed, 0x53380d139d95b3df,
  0x650a73548baf63de, 0x766a0abb3c77b2a8, 0x81c2c92e47edaee6, 0x92722c851482353b,
  0xa2bfe8a14cf10364, 0xa81a664bbc423001, 0xc24b8b70d0f89791, 0xc76c51a30654be30,
  0xd192e819d6ef5218, 0xd69906245565a910, 0xf40e35855771202a, 0x106aa07032bbd1b8,
  0x19a4c116b8d2d0c8, 0x1e376c085141ab53, 0x2748774cdf8eeb99, 0x34b0bcb5e19b48a8,
  0x391c0cb3c5c95a63, 0x4ed8aa4ae3418acb, 0x5b9cca4f7763e373, 0x682e6ff3d6b2b8a3,
  0x748f82ee5defb2fc, 0x78a5636f43172f60, 0x84c87814a1f0ab72, 0x8cc702081a6439ec,
  0x90befffa23631e28, 0xa4506cebde82bde9, 0xbef9a3f7b2c67915, 0xc67178f2e372532b,
  0xca273eceea26619c, 0xd186b8c721c0c207, 0xeada7dd6cde0eb1e, 0xf57d4f7fee6ed178,
  0x06f067aa72176fba, 0x0a637dc5a2c898a6, 0x113f9804bef90dae, 0x1b710b35131c471b,
  0x28db77f523047d84, 0x32caab7b40c72493, 0x3c9ebe0a15c9bebc, 0x431d67c49c100d4c,
  0x4cc5d4becb3e42b6, 0x597f299cfc657e2a, 0x5fcb6fab3ad6faec, 0x6c44198c4a475817]

/-- The first sixty-four bits of the fractional parts of the square roots of the first eight
primes. -/
def firstSquareRoots : List UInt64 := [
  0x6a09e667f3bcc908, 0xbb67ae8584caa73b, 0x3c6ef372fe94f82b, 0xa54ff53a5f1d36f1,
  0x510e527fade682d1, 0x9b05688c2b3e6c1f, 0x1f83d9abfb41bd6b, 0x5be0cd19137e2179]

/-- The first sixty-four bits of the fractional parts of the square roots of the ninth to the
sixteenth prime. -/
def nextSquareRoots : List UInt64 := [
  0xcbbb9d5dc1059ed8, 0x629a292a367cd507, 0x9159015a3070dd17, 0x152fecd8f70e5939,
  0x67332667ffc00b31, 0x8eb44a8768581511, 0xdb0c2e0d64f98fa7, 0x47b5481dbefa4fa4]

def rotate32 (x amount : UInt32) : UInt32 :=
  (x >>> amount) ||| (x <<< (32 - amount))

def rotate64 (x amount : UInt64) : UInt64 :=
  (x >>> amount) ||| (x <<< (64 - amount))

def narrow : Family UInt32 where
  wordSize := 4
  constants := (cubeRoots.take 64).map fun k : UInt64 => (k >>> 32).toUInt32
  ofNat := UInt32.ofNat
  toNat := UInt32.toNat
  upperSigma0 x := rotate32 x 2 ^^^ rotate32 x 13 ^^^ rotate32 x 22
  upperSigma1 x := rotate32 x 6 ^^^ rotate32 x 11 ^^^ rotate32 x 25
  lowerSigma0 x := rotate32 x 7 ^^^ rotate32 x 18 ^^^ (x >>> 3)
  lowerSigma1 x := rotate32 x 17 ^^^ rotate32 x 19 ^^^ (x >>> 10)

def wide : Family UInt64 where
  wordSize := 8
  constants := cubeRoots
  ofNat := UInt64.ofNat
  toNat := UInt64.toNat
  upperSigma0 x := rotate64 x 28 ^^^ rotate64 x 34 ^^^ rotate64 x 39
  upperSigma1 x := rotate64 x 14 ^^^ rotate64 x 18 ^^^ rotate64 x 41
  lowerSigma0 x := rotate64 x 1 ^^^ rotate64 x 8 ^^^ (x >>> 7)
  lowerSigma1 x := rotate64 x 19 ^^^ rotate64 x 61 ^^^ (x >>> 6)

/-- The chaining value with the given words. -/
def stateOf {α : Type} (zero : α) (words : List α) : State α :=
  let word i := words.getD i zero
  ⟨word 0, word 1, word 2, word 3, word 4, word 5, word 6, word 7⟩

theorem narrowBlock_pos : 0 < 64 := by decide

/-- The 32-bit hash that starts from the given words and gives `size` bytes. -/
def narrowHash (initial : List UInt32) (size : Nat) : BlockHash (State UInt32) where
  blockSize := 64
  blockSize_pos := narrowBlock_pos
  initial := stateOf 0 initial
  compress := compress narrow
  padding length := BlockHash.zeroPadding 64 8 length ++ BlockHash.bigEndian 8 (8 * length)
  output s := (s.toList.flatMap fun w => BlockHash.bigEndian 4 w.toNat).take size

/-- The 64-bit hash that starts from the given words and gives `size` bytes. -/
def wideHash (initial : List UInt64) (size : Nat) : BlockHash (State UInt64) where
  blockSize := 128
  initial := stateOf 0 initial
  compress := compress wide
  padding length := BlockHash.zeroPadding 128 16 length ++ BlockHash.bigEndian 16 (8 * length)
  output s := (s.toList.flatMap fun w => BlockHash.bigEndian 8 w.toNat).take size

def sha224 : BlockHash (State UInt32) :=
  narrowHash (nextSquareRoots.map UInt64.toUInt32) 28

def sha256 : BlockHash (State UInt32) :=
  narrowHash (firstSquareRoots.map fun k : UInt64 => (k >>> 32).toUInt32) 32

def sha384 : BlockHash (State UInt64) :=
  wideHash nextSquareRoots 48

def sha512 : BlockHash (State UInt64) :=
  wideHash firstSquareRoots 64

end ArchivePlan.Sha2
