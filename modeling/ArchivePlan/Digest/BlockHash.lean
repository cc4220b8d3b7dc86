import ArchivePlan.Text.Utf8

/-! # Hashing block by block

A block hash pads a message to whole blocks and compresses them one after the other into a state.
`digest` does so for a message that is there as a whole; a `Stream` takes the message in pieces and
keeps back what does not fill a block.  Both give the same digest. -/

namespace ArchivePlan

/-- A hash that compresses blocks of a fixed size into a state. -/
structure BlockHash (σ : Type) where
  blockSize : Nat
  blockSize_pos : 0 < blockSize := by decide
  initial : σ
  compress : σ → Bytes → σ
  /-- What follows a message of a given length. -/
  padding : Nat → Bytes
  output : σ → Bytes

namespace BlockHash

variable {σ : Type} (hash : BlockHash σ)

/-- Compresses the whole blocks at the front of some bytes; gives the state and the bytes left. -/
def foldBlocks (state : σ) (bytes : Bytes) : σ × Bytes :=
  if (bytes.take hash.blockSize).length < hash.blockSize then (state, bytes)
  else foldBlocks (hash.compress state (bytes.take hash.blockSize)) (bytes.drop hash.blockSize)
termination_by bytes.length
decreasing_by
  have := hash.blockSize_pos
  simp_all only [List.length_take, List.length_drop]
  omega

def digest (message : Bytes) : Bytes :=
  hash.output (hash.foldBlocks hash.initial (message ++ hash.padding message.length)).1

/-- A message that is being read. -/
structure Stream (σ : Type) where
  state : σ
  /-- Bytes that do not fill a block. -/
  pending : Bytes := []
  /-- The number of bytes read. -/
  length : Nat := 0

def absorb (stream : Stream σ) (piece : Bytes) : Stream σ :=
  let (state, pending) := hash.foldBlocks stream.state (stream.pending ++ piece)
  ⟨state, pending, stream.length + piece.length⟩

/-- The digest of the message read. -/
def finish (stream : Stream σ) : Bytes :=
  let bytes := stream.pending ++ hash.padding stream.length
  hash.output (hash.foldBlocks stream.state bytes).1

/-- The digest of a message that comes in pieces. -/
def digestPieces (pieces : List Bytes) : Bytes :=
  hash.finish (pieces.foldl hash.absorb ⟨hash.initial, [], 0⟩)

end BlockHash

namespace BlockHash

/-- A number as bytes, the most significant one first. -/
def bigEndian (width n : Nat) : Bytes :=
  (List.range width).reverse.map fun i => UInt8.ofNat (n >>> (8 * i))

/-- A number as bytes, the least significant one first. -/
def littleEndian (width n : Nat) : Bytes :=
  (List.range width).map fun i => UInt8.ofNat (n >>> (8 * i))

/-- The number that bytes give, the most significant one first. -/
def ofBigEndian (bytes : Bytes) : Nat :=
  bytes.foldl (fun n b => n * 256 + b.toNat) 0

/-- The number that bytes give, the least significant one first. -/
def ofLittleEndian (bytes : Bytes) : Nat :=
  ofBigEndian bytes.reverse

/-- The words of `width` bytes at the front of some bytes. -/
def wordsOf (width : Nat) : Nat → Bytes → List Bytes
  | 0, _ => []
  | count + 1, bytes => bytes.take width :: wordsOf width count (bytes.drop width)

/-- The byte 0x80 and as many zeros as make a message of the given length, with `trailer` more
bytes, a whole number of blocks. -/
def zeroPadding (blockSize trailer length : Nat) : Bytes :=
  let filled := (length + 1 + trailer) % blockSize
  0x80 :: List.replicate ((blockSize - filled) % blockSize) 0

end BlockHash

end ArchivePlan
