import ArchivePlan.Digest.Algorithm
import ArchivePlan.Files.System

/-! # Digests of what is read in pieces

A block hash that reads a message piece by piece keeps back what does not fill a block.  Compressing
the blocks of some bytes and going on with what is left, in front of more, is the same as
compressing the blocks of all of them (`BlockHash.foldBlocks_append`).  So however a message is cut,
its digest is that of the whole (`BlockHash.digestPieces_eq_digest`), and the digest of a file,
which is read in pieces, is that of its content (`FileSystem.digest_eq_map_read`). -/

namespace ArchivePlan

namespace BlockHash

variable {σ : Type} (hash : BlockHash σ)

theorem foldBlocks_of_block {state : σ} {bytes : Bytes}
    (h : ¬(bytes.take hash.blockSize).length < hash.blockSize) :
    hash.foldBlocks state bytes =
      hash.foldBlocks (hash.compress state (bytes.take hash.blockSize))
        (bytes.drop hash.blockSize) := by
  rw [foldBlocks, if_neg h]

/-- What is left of some bytes is compressed with those that follow. -/
theorem foldBlocks_append (state : σ) (bytes more : Bytes) :
    hash.foldBlocks state (bytes ++ more) =
      hash.foldBlocks (hash.foldBlocks state bytes).1 ((hash.foldBlocks state bytes).2 ++ more) := by
  fun_induction foldBlocks hash state bytes with
  | case1 state bytes hshort => rfl
  | case2 state bytes hblock ih =>
      -- the first block lies within `bytes`
      have hlength : hash.blockSize ≤ bytes.length := by
        rw [List.length_take] at hblock
        omega
      have htake : (bytes ++ more).take hash.blockSize = bytes.take hash.blockSize :=
        List.take_append_of_le_length hlength
      have hdrop : (bytes ++ more).drop hash.blockSize = bytes.drop hash.blockSize ++ more :=
        List.drop_append_of_le_length hlength
      rw [hash.foldBlocks_of_block (by rwa [htake]), htake, hdrop, ih]

/-- A stream that has read some pieces goes on as it would have done with all of them at once. -/
theorem foldBlocks_foldl_absorb (stream : Stream σ) (pieces : List Bytes) (rest : Bytes) :
    hash.foldBlocks (pieces.foldl hash.absorb stream).state
        ((pieces.foldl hash.absorb stream).pending ++ rest) =
      hash.foldBlocks stream.state (stream.pending ++ pieces.flatten ++ rest) := by
  induction pieces generalizing stream with
  | nil => rw [List.foldl_nil, List.flatten_nil, List.append_nil]
  | cons piece pieces ih =>
      have habsorb := hash.foldBlocks_append stream.state (stream.pending ++ piece)
        (pieces.flatten ++ rest)
      rw [List.foldl_cons, ih, List.flatten_cons]
      simp only [absorb, List.append_assoc] at habsorb ⊢
      exact habsorb.symm

theorem length_foldl_absorb (stream : Stream σ) (pieces : List Bytes) :
    (pieces.foldl hash.absorb stream).length = stream.length + pieces.flatten.length := by
  induction pieces generalizing stream with
  | nil => rfl
  | cons piece pieces ih =>
      rw [List.foldl_cons, ih, List.flatten_cons, List.length_append, ← Nat.add_assoc]
      rfl

/-- **How a message is cut does not show in its digest.** -/
theorem digestPieces_eq_digest (pieces : List Bytes) :
    hash.digestPieces pieces = hash.digest pieces.flatten := by
  have hlength := hash.length_foldl_absorb ⟨hash.initial, [], 0⟩ pieces
  rw [Nat.zero_add] at hlength
  unfold digestPieces finish digest
  dsimp only
  rw [hash.foldBlocks_foldl_absorb, hlength, List.nil_append]

end BlockHash

namespace Algorithm

theorem hexDigestPieces_eq (algorithm : Algorithm) (pieces : List Bytes) :
    algorithm.hexDigestPieces pieces = algorithm.hexDigest pieces.flatten := by
  unfold hexDigestPieces hexDigest
  cases algorithm <;> exact congrArg hex (BlockHash.digestPieces_eq_digest _ _)

end Algorithm

namespace FileSystem

theorem flatten_pieces (bytes : Bytes) : (pieces bytes).flatten = bytes := by
  fun_induction pieces bytes with
  | case1 => rfl
  | case2 b rest ih =>
      have htake : (b :: rest).take pieceSize = b :: rest.take (pieceSize - 1) := rfl
      rw [List.flatten_cons, ih, htake, List.cons_append, List.take_append_drop]

variable (fs : FileSystem)

/-- The digest of the file that a location leads to, read there and then. -/
def digest (l : Location) (algorithm : Algorithm) : Except IoError String :=
  (fs.readPieces l).map algorithm.hexDigestPieces

theorem digest_eq_map_read (l : Location) (algorithm : Algorithm) :
    fs.digest l algorithm = (fs.read l).map algorithm.hexDigest := by
  unfold digest readPieces
  cases fs.read l with
  | error e => rfl
  | ok content =>
      show Except.ok (algorithm.hexDigestPieces (pieces content)) = .ok (algorithm.hexDigest content)
      rw [algorithm.hexDigestPieces_eq, flatten_pieces]

end FileSystem

end ArchivePlan
