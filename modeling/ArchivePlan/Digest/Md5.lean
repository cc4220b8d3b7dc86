import ArchivePlan.Digest.BlockHash

/-! # MD5

Sixty-four steps over four 32-bit words for each block of sixty-four bytes, with words and length in
little-endian order. -/

namespace ArchivePlan.Md5

/-- The chaining value. -/
structure State where
  a : UInt32
  b : UInt32
  c : UInt32
  d : UInt32
  deriving DecidableEq, Repr

/-- The integer parts of 2³² times the absolute sines of 1 to 64. -/
def sines : List UInt32 := [
  0xd76aa478, 0xe8c7b756, 0x242070db, 0xc1bdceee, 0xf57c0faf, 0x4787c62a, 0xa8304613, 0xfd469501,
  0x698098d8, 0x8b44f7af, 0xffff5bb1, 0x895cd7be, 0x6b901122, 0xfd987193, 0xa679438e, 0x49b40821,
  0xf61e2562, 0xc040b340, 0x265e5a51, 0xe9b6c7aa, 0xd62f105d, 0x02441453, 0xd8a1e681, 0xe7d3fbc8,
  0x21e1cde6, 0xc33707d6, 0xf4d50d87, 0x455a14ed, 0xa9e3e905, 0xfcefa3f8, 0x676f02d9, 0x8d2a4c8a,
  0xfffa3942, 0x8771f681, 0x6d9d6122, 0xfde5380c, 0xa4beea44, 0x4bdecfa9, 0xf6bb4b60, 0xbebfbc70,
  0x289b7ec6, 0xeaa127fa, 0xd4ef3085, 0x04881d05, 0xd9d4d039, 0xe6db99e5, 0x1fa27cf8, 0xc4ac5665,
  0xf4292244, 0x432aff97, 0xab9423a7, 0xfc93a039, 0x655b59c3, 0x8f0ccc92, 0xffeff47d, 0x85845dd1,
  0x6fa87e4f, 0xfe2ce6e0, 0xa3014314, 0x4e0811a1, 0xf7537e82, 0xbd3af235, 0x2ad7d2bb, 0xeb86d391]

/-- The rotations of the four steps that each round repeats. -/
def rotations : List (List UInt32) :=
  [[7, 12, 17, 22], [5, 9, 14, 20], [4, 11, 16, 23], [6, 10, 15, 21]]

def rotation (step : Nat) : UInt32 :=
  (rotations.getD (step / 16) []).getD (step % 4) 0

def rotateLeft (x amount : UInt32) : UInt32 :=
  (x <<< amount) ||| (x >>> (32 - amount))

/-- The mixing function of a step. -/
def mix (step : Nat) (b c d : UInt32) : UInt32 :=
  match step / 16 with
  | 0 => (b &&& c) ||| (~~~b &&& d)
  | 1 => (d &&& b) ||| (~~~d &&& c)
  | 2 => b ^^^ c ^^^ d
  | _ => c ^^^ (b ||| ~~~d)

/-- The word of the block that a step uses. -/
def wordIndex (step : Nat) : Nat :=
  match step / 16 with
  | 0 => step
  | 1 => (5 * step + 1) % 16
  | 2 => (3 * step + 5) % 16
  | _ => 7 * step % 16

def step (words : Array UInt32) (s : State) : UInt32 × Nat → State
  | (sine, i) =>
    let sum := s.a + mix i s.b s.c s.d + sine + words.getD (wordIndex i) 0
    ⟨s.d, s.b + rotateLeft sum (rotation i), s.b, s.c⟩

/-- Mixes a block into the chaining value. -/
def compress (s : State) (block : Bytes) : State :=
  let words := (BlockHash.wordsOf 4 16 block).map fun w =>
    UInt32.ofNat (BlockHash.ofLittleEndian w)
  let t := sines.zipIdx.foldl (step words.toArray) s
  ⟨s.a + t.a, s.b + t.b, s.c + t.c, s.d + t.d⟩

def hash : BlockHash State where
  blockSize := 64
  initial := ⟨0x67452301, 0xefcdab89, 0x98badcfe, 0x10325476⟩
  compress := compress
  padding length :=
    BlockHash.zeroPadding 64 8 length ++ BlockHash.littleEndian 8 (8 * length)
  output s := [s.a, s.b, s.c, s.d].flatMap fun w => BlockHash.littleEndian 4 w.toNat

end ArchivePlan.Md5
