import ArchivePlan.Calendar.Rfc3339
import ArchivePlan.Numeral
import ArchivePlan.Text.Blank

/-! # Configured modification times

A modification time is given as seconds since the start of 1970, as a decimal text of such, or as an
RFC 3339 timestamp.  Seconds are limited to the years from -262143 to 262142. -/

namespace ArchivePlan

/-- A modification time as it is configured. -/
inductive Timestamp where
  /-- Seconds since the start of 1970. -/
  | epoch (seconds : Int)
  /-- A text of either notation. -/
  | written (text : String)
  deriving DecidableEq, Repr

namespace Timestamp

/-- Why a configured time stands for no point in time. -/
inductive Fault where
  | outOfRange
  | malformed (fault : Calendar.Rfc3339.Fault)
  deriving DecidableEq, Repr

def Fault.message : Fault → String
  | .outOfRange => "out of range"
  | .malformed fault => fault.message

/-- The first second of the years that can be given in seconds. -/
def minSeconds : Int :=
  Calendar.Date.toDays ⟨-262143, 1, 1⟩ * Calendar.daySeconds

/-- The last second of the years that can be given in seconds. -/
def maxSeconds : Int :=
  (Calendar.Date.toDays ⟨262142, 12, 31⟩ + 1) * Calendar.daySeconds - 1

/-- The point in time a number of seconds after the start of 1970. -/
def ofSeconds (seconds : Int) : Except Fault Instant :=
  if minSeconds ≤ seconds ∧ seconds ≤ maxSeconds then .ok ⟨seconds, 0⟩ else .error .outOfRange

/-- The point in time that a text without blanks around it stands for. -/
def ofText (text : List Char) : Except Fault Instant :=
  match Numeral.int64? text with
  | some seconds => ofSeconds seconds
  | none => (Calendar.Rfc3339.read text).mapError .malformed

/-- The notation of a configured time that messages quote. -/
def quotation : Timestamp → String
  | epoch seconds => toString seconds
  | written text => Text.trimmed text

/-- The point in time that a configured time stands for. -/
def instant : Timestamp → Except Fault Instant
  | epoch seconds => ofSeconds seconds
  | written text => ofText (Text.trim text.toList)

end Timestamp

/-- A configured time that stands for no point in time. -/
structure InvalidTimestamp where
  /-- The time as messages quote it. -/
  given : String
  fault : Timestamp.Fault
  deriving DecidableEq, Repr

def InvalidTimestamp.message (e : InvalidTimestamp) : String :=
  s!"invalid output timestamp '{e.given}': {e.fault.message}"

/-- The point in time that a configured time stands for. -/
def Timestamp.toInstant (time : Timestamp) : Except InvalidTimestamp Instant :=
  time.instant.mapError fun fault => ⟨time.quotation, fault⟩

end ArchivePlan
