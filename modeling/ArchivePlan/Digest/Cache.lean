import ArchivePlan.Digest.Algorithm
import ArchivePlan.Files.System

/-! # Remembered digests

A cache keeps the digests of the files it has read, by the components of their locations and by
algorithm, and counts the lookups that it answered without reading.  A lookup that fails leaves it
unchanged. -/

namespace ArchivePlan

/-- Digests of files that were read. -/
structure Cache where
  /-- The digest for each key and algorithm. -/
  digests : List (((Bool × List Bytes) × Algorithm) × String) := []
  /-- The number of lookups answered without reading. -/
  hits : Nat := 0
  deriving DecidableEq, Repr

namespace Cache

def size (cache : Cache) : Nat :=
  cache.digests.length

/-- The digest of the file at a location, read if it is not kept yet. -/
def fileDigest (cache : Cache) (fs : FileSystem) (l : Location) (algorithm : Algorithm) :
    Cache × Except IoError String :=
  match cache.digests.lookup (l.key, algorithm) with
  | some digest => ({ cache with hits := cache.hits + 1 }, .ok digest)
  | none =>
    match fs.readPieces l with
    | .error e => (cache, .error e)
    | .ok pieces =>
      let digest := algorithm.hexDigestPieces pieces
      ({ cache with digests := ((l.key, algorithm), digest) :: cache.digests }, .ok digest)

end Cache

end ArchivePlan
