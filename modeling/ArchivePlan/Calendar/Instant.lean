/-! # Points in time -/

namespace ArchivePlan

/-- A point in time: whole seconds since the start of 1970 in UTC, and nanoseconds after them.  The
second before a leap second has up to two thousand million of them. -/
structure Instant where
  seconds : Int
  nanos : Nat := 0
  deriving DecidableEq, Repr

end ArchivePlan
