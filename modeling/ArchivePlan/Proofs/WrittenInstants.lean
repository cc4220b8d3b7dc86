import ArchivePlan.Timestamp
import ArchivePlan.Proofs.CivilDates
import ArchivePlan.Proofs.Numerals
import Mathlib.Algebra.Group.Nat.Defs

/-! # Written points in time

A point in time can be given as seconds, as the decimal of these seconds, or as an RFC 3339
timestamp with any offset and fraction.  All of them stand for the same time
(`Timestamp.notations_agree`).

What a timestamp shows is said without the reader: its date is found by walking the calendar from
1970 (`Calendar.Date.ofDays`), its clock time is what is left of the day, and its fraction and its
zone are relations between a text and a number (`Calendar.Rfc3339.Fraction`,
`Calendar.Rfc3339.Zone`).  For each part there is a lemma that the reader takes just this part off
the front of a text, and `Calendar.Rfc3339.read_timestamp` puts them together. -/

namespace ArchivePlan

namespace Calendar.Rfc3339

open Numeral (padded)

/-! ### The text of a timestamp -/

/-- The text of a date with a year of four digits. -/
def dateText (date : Date) : List Char :=
  padded 10 4 date.year.toNat ++ '-' :: (padded 10 2 date.month ++ '-' :: padded 10 2 date.day)

def minutesText (minutes : Nat) : List Char :=
  padded 10 2 (minutes / 60) ++ ':' :: padded 10 2 (minutes % 60)

def clockText (seconds : Nat) : List Char :=
  minutesText (seconds / 60) ++ ':' :: padded 10 2 (seconds % 60)

/-- A text writes a fraction of a second, in nanoseconds, with one to nine digits or none. -/
inductive Fraction : List Char → Nat → Prop
  | missing : Fraction [] 0
  | digits {digits : List Char} {value : Nat} (short : digits.length ≤ 9)
      (writes : Numeral.Writes 10 digits value) :
      Fraction ('.' :: digits) (value * 10 ^ (9 - digits.length))

/-- A text writes an offset from UTC, in minutes.  No offset is a letter as well as a number, and a
minus is written in two ways. -/
inductive Zone : List Char → Int → Prop
  | utc : Zone ['Z'] 0
  | utcSmall : Zone ['z'] 0
  | ahead (minutes : Nat) : Zone ('+' :: minutesText minutes) minutes
  | behind (minutes : Nat) : Zone ('-' :: minutesText minutes) (-minutes)
  | behindMinus (minutes : Nat) : Zone ('\u2212' :: minutesText minutes) (-minutes)

/-- The date some seconds after the start of 1970, where clocks are ahead of UTC by an offset in
minutes. -/
def localDate (seconds offset : Int) : Date :=
  Date.ofDays ((seconds + 60 * offset) / 86400)

/-- The seconds that have passed there since midnight. -/
def localClock (seconds offset : Int) : Nat :=
  ((seconds + 60 * offset) % 86400).toNat

/-- The timestamp there, with a given separator, fraction and zone. -/
def timestamp (seconds offset : Int) (separator : Char) (fraction zone : List Char) : List Char :=
  dateText (localDate seconds offset) ++
    separator :: (clockText (localClock seconds offset) ++ (fraction ++ zone))

/-! ### Reading digits -/

theorem digit?_eq (c : Char) : digit? c = Numeral.digit? 10 c := by
  by_cases hrange : '0' ≤ c ∧ c ≤ '9'
  · have hnine : c.toNat ≤ 57 := hrange.2
    have hlt : c.toNat - 48 < 10 := by omega
    rw [digit?, Numeral.digit?, if_pos hrange, if_pos hrange]
    exact (if_pos (decide_eq_true hlt)).symm
  · have hnone : Numeral.digit? 10 c = none := by
      rw [Option.eq_none_iff_forall_ne_some]
      intro d hd
      obtain ⟨hlt, rfl⟩ := (Numeral.digit?_eq_some_iff (by decide)).mp hd
      have hten : ∀ d : Fin 10, '0' ≤ d.val.digitChar ∧ d.val.digitChar ≤ '9' := by decide
      exact hrange (hten ⟨d, hlt⟩)
    rw [digit?, if_neg hrange, hnone]

theorem digits_append {value n : Nat} {front : List Char}
    (h : Numeral.readFrom 10 value front = some n) (rest : List Char) :
    digits value front.length (front ++ rest) = .ok (n, rest) := by
  induction front generalizing value with
  | nil =>
      obtain rfl := Option.some.inj h
      rfl
  | cons c front ih =>
      rw [Numeral.readFrom] at h
      split at h
      · next d hd =>
          have hdigit : digit (c :: (front ++ rest)) = .ok (d, front ++ rest) := by
            rw [digit, digit?_eq, hd]
          rw [List.length_cons, List.cons_append, digits, hdigit]
          exact ih h
      · cases h

theorem digits_padded {width n : Nat} (hwidth : 0 < width) (hlt : n < 10 ^ width)
    (rest : List Char) : digits 0 width (padded 10 width n ++ rest) = .ok (n, rest) := by
  have hlength : (padded 10 width n).length = width :=
    Numeral.length_padded ((Nat.length_toDigits_le_iff (by decide) hwidth).mpr hlt)
  have happend := digits_append (Numeral.readFrom_padded (by decide) (by decide) width n) rest
  rwa [hlength] at happend

theorem isDigit_of_mem_padded {width n : Nat} {c : Char} (h : c ∈ padded 10 width n) :
    c.isDigit = true :=
  Numeral.isDigit_of_mem_padded (by decide) (by decide) h

/-! ### Reading the parts -/

theorem mark_cons {allowed : List Char} {c : Char} (h : c ∈ allowed) (rest : List Char) :
    mark allowed (c :: rest) = .ok ((), rest) :=
  if_pos h

theorem date_dateText {d : Date} (hvalid : d.isValid = true) (hlow : 0 ≤ d.year)
    (hhigh : d.year ≤ 9999) (rest : List Char) : date (dateText d ++ rest) = .ok (d, rest) := by
  obtain ⟨⟨-, hmonth⟩, -, hlength⟩ := Date.isValid_iff.mp hvalid
  have hday := Nat.le_trans hlength (monthLength_le d.year d.month)
  have hyear : ((d.year.toNat : Nat) : Int) = d.year := Int.toNat_of_nonneg hlow
  have hfour := @digits_padded 4 d.year.toNat (by decide) (by omega)
  have hmonthTwo := @digits_padded 2 d.month (by decide) (by omega)
  have hdayTwo := @digits_padded 2 d.day (by decide) (by omega)
  simp only [date, dateText, List.append_assoc, List.cons_append, hfour, hmonthTwo, hdayTwo,
    mark_cons List.mem_cons_self, bind, Except.bind, hyear, hvalid, if_true]

/-- What follows a fraction neither goes on with it nor begins one. -/
def Stops (rest : List Char) : Prop :=
  ∀ c, rest.head? = some c → c ≠ '.' ∧ c.isDigit = false

theorem digit?_isSome (c : Char) : (digit? c).isSome = c.isDigit := by
  have hrange : c.isDigit = true ↔ '0' ≤ c ∧ c ≤ '9' := by
    rw [Char.isDigit, Bool.and_eq_true, decide_eq_true_iff, decide_eq_true_iff]
    rfl
  rw [Bool.eq_iff_iff, hrange, digit?]
  split <;> simp [*]

theorem leadingDigits_append {digits rest : List Char} (hdigits : ∀ c ∈ digits, c.isDigit = true)
    (hrest : Stops rest) : leadingDigits (digits ++ rest) = digits.filterMap digit? := by
  have hstop : rest.takeWhile (fun c => (digit? c).isSome) = [] := by
    cases rest with
    | nil => rfl
    | cons c rest =>
        rw [List.takeWhile_cons, digit?_isSome, (hrest c rfl).2]
        rfl
  rw [leadingDigits, List.takeWhile_append_of_pos fun c hc => by rw [digit?_isSome, hdigits c hc],
    hstop, List.append_nil]

theorem foldl_digitValues {value n : Nat} {digits : List Char}
    (h : Numeral.readFrom 10 value digits = some n) :
    (digits.filterMap digit?).length = digits.length ∧
      (digits.filterMap digit?).foldl (fun value d => value * 10 + d) value = n := by
  induction digits generalizing value with
  | nil => exact ⟨rfl, Option.some.inj h⟩
  | cons c digits ih =>
      rw [Numeral.readFrom] at h
      split at h
      · next d hd =>
          obtain ⟨hlength, hvalue⟩ := ih h
          rw [List.filterMap_cons_some ((digit?_eq c).trans hd)]
          exact ⟨congrArg (· + 1) hlength, hvalue⟩
      · cases h

theorem fraction_append {text rest : List Char} {nanos : Nat} (h : Fraction text nanos)
    (hrest : Stops rest) : fraction (text ++ rest) = .ok (nanos, rest) := by
  cases h with
  | missing =>
      rw [List.nil_append]
      unfold fraction
      split
      · exact absurd rfl (hrest '.' rfl).1
      · rfl
  | @digits digits value short writes =>
      obtain ⟨hlength, hvalue⟩ := foldl_digitValues (writes.readFrom (by decide))
      have hleading : leadingDigits (digits ++ rest) = digits.filterMap digit? :=
        leadingDigits_append (fun c hc => writes.isDigit (by decide) hc) hrest
      have hnanos : fractionNanos (digits.filterMap digit?) = value * 10 ^ (9 - digits.length) := by
        rw [fractionNanos, List.take_of_length_le (hlength.trans_le short), hvalue, hlength]
        rfl
      have hsome : digits.filterMap digit? ≠ [] := by
        rw [← List.length_pos_iff, hlength]
        exact List.length_pos_iff.mpr writes.ne_nil
      rw [List.cons_append, fraction, if_neg (by simp [writes.ne_nil]), hleading]
      split
      · contradiction
      · rw [hnanos, hlength, List.drop_left]

theorem time_clockText {seconds nanos : Nat} (hlt : seconds < 86400) {text rest : List Char}
    (hfraction : Fraction text nanos) (hrest : Stops rest) :
    time (clockText seconds ++ (text ++ rest)) = .ok (⟨seconds, nanos⟩, rest) := by
  have hhour := @digits_padded 2 (seconds / 60 / 60) (by decide) (by omega)
  have hminute := @digits_padded 2 (seconds / 60 % 60) (by decide) (by omega)
  have hsecond := @digits_padded 2 (seconds % 60) (by decide) (by omega)
  have hclock : timeOfDay? (seconds / 60 / 60) (seconds / 60 % 60) (seconds % 60) nanos =
      some ⟨seconds, nanos⟩ := by
    have hleap : ¬seconds % 60 = 60 := by omega
    rw [timeOfDay?, if_neg hleap, if_pos (by omega), if_neg hleap]
    congr 2
    omega
  simp only [time, clockText, minutesText, List.append_assoc, List.cons_append, hhour, hminute,
    hsecond, mark_cons List.mem_cons_self, fraction_append hfraction hrest, bind, Except.bind,
    hclock]

theorem padded_two {n : Nat} (hlt : n < 100) :
    padded 10 2 n = [(n / 10).digitChar, (n % 10).digitChar] := by
  have hall : ∀ n : Fin 100, padded 10 2 n = [(n.val / 10).digitChar, (n.val % 10).digitChar] := by
    decide
  exact hall ⟨n, hlt⟩

theorem pair_padded {n : Nat} (hlt : n < 100) (rest : List Char) :
    pair (padded 10 2 n ++ rest) = .ok ((n / 10, n % 10), rest) := by
  have htens : digit? (n / 10).digitChar = some (n / 10) :=
    (digit?_eq _).trans (Numeral.digit?_digitChar (by omega) (by decide))
  have hunits : digit? (n % 10).digitChar = some (n % 10) :=
    (digit?_eq _).trans (Numeral.digit?_digitChar (by omega) (by decide))
  rw [padded_two hlt, List.cons_append, List.cons_append, List.nil_append, pair, htens, hunits]

theorem offsetSize_minutesText {minutes : Nat} (hlt : minutes < 1440) :
    offsetSize (minutesText minutes) = .ok (60 * (minutes : Int), []) := by
  have hhours := @pair_padded (minutes / 60) (by omega)
  have hrest := pair_padded (show minutes % 60 < 100 by omega) []
  have hsmall : minutes % 60 / 10 < 6 := by omega
  rw [List.append_nil] at hrest
  simp only [offsetSize, minutesText, hhours, hrest, mark_cons List.mem_cons_self, bind,
    Except.bind, if_pos hsmall]
  congr 2
  omega

theorem offset_behind {minus : Char} (hminus : minus = '-' ∨ minus = '\u2212') {minutes : Nat}
    (hlt : minutes < 1440) :
    offset (minus :: minutesText minutes) = .ok (60 * -(minutes : Int), []) := by
  have hother : ¬(minus = 'Z' ∨ minus = 'z') ∧ ¬minus = '+' := by
    rcases hminus with rfl | rfl <;> decide
  rw [offset, if_neg hother.1, if_neg hother.2, if_pos hminus, offsetSize_minutesText hlt,
    Int.mul_neg]
  rfl

theorem offset_zone {zone : List Char} {minutes : Int} (h : Zone zone minutes)
    (hlt : minutes.natAbs < 1440) : offset zone = .ok (60 * minutes, []) := by
  cases h with
  | utc => rfl
  | utcSmall => rfl
  | ahead minutes => exact offsetSize_minutesText hlt
  | behind minutes => exact offset_behind (Or.inl rfl) (by omega)
  | behindMinus minutes => exact offset_behind (Or.inr rfl) (by omega)

theorem Zone.stops {zone : List Char} {minutes : Int} (h : Zone zone minutes) : Stops zone := by
  cases h <;> exact fun c hc => by cases hc; decide

theorem length_le_byteLength (text : List Char) : text.length ≤ byteLength text := by
  have hfold : ∀ bytes, bytes + text.length ≤ (text.map Char.utf8Size).foldl Nat.add bytes := by
    induction text with
    | nil => exact Nat.le_refl
    | cons c text ih =>
        intro bytes
        have hpos := c.utf8Size_pos
        have hrest := ih (bytes + c.utf8Size)
        simp only [List.map_cons, List.foldl_cons, List.length_cons, Nat.add_eq] at hrest ⊢
        omega
  exact (Nat.zero_add _).symm.trans_le (hfold 0)

/-- A timestamp is never taken for one that is cut off. -/
theorem length_timestamp_le (seconds offset : Int) (separator : Char) (fraction zone : List Char) :
    19 ≤ byteLength (timestamp seconds offset separator fraction zone) := by
  refine Nat.le_trans ?_ (length_le_byteLength _)
  have hwidth := Numeral.le_length_padded 10
  simp only [timestamp, dateText, clockText, minutesText, List.length_append, List.length_cons]
  grind

/-- A timestamp is read as the point in time that it shows. -/
theorem read_timestamp {seconds offset : Int} (hoffset : offset.natAbs < 1440)
    (hlow : 0 ≤ (localDate seconds offset).year) (hhigh : (localDate seconds offset).year ≤ 9999)
    {separator : Char} (hseparator : separator ∈ ['T', 't', ' ']) {fraction zone : List Char}
    {nanos : Nat} (hfraction : Fraction fraction nanos) (hzone : Zone zone offset) :
    read (timestamp seconds offset separator fraction zone) = .ok ⟨seconds, nanos⟩ := by
  have hlong := length_timestamp_le seconds offset separator fraction zone
  have hdate : ∀ rest, date (dateText (localDate seconds offset) ++ rest) =
      .ok (localDate seconds offset, rest) := date_dateText (Date.isValid_ofDays _) hlow hhigh
  have hclock : localClock seconds offset < 86400 := by
    rw [localClock]
    omega
  have hrange : ¬(60 * offset ≤ -daySeconds ∨ daySeconds ≤ 60 * offset) := by
    rw [daySeconds]
    omega
  have hseconds : (localDate seconds offset).toDays * daySeconds + localClock seconds offset -
      60 * offset = seconds := by
    rw [localDate, Date.toDays_ofDays, daySeconds, localClock]
    omega
  rw [read, if_neg (Nat.not_lt.mpr hlong), timestamp]
  simp only [hdate, mark_cons hseparator, time_clockText hclock hfraction hzone.stops,
    offset_zone hzone hoffset, bind, Except.bind, pure, Except.pure, ne_eq, not_true_eq_false,
    if_false, if_neg hrange, hseconds]

/-! ### Timestamps among other texts -/

theorem isDigit_head_timestamp {seconds offset : Int} {separator : Char} {fraction zone : List Char}
    {c : Char} (h : (timestamp seconds offset separator fraction zone).head? = some c) :
    c.isDigit = true := by
  have hyear := Numeral.padded_ne_nil 10 4 (localDate seconds offset).year.toNat
  rw [timestamp, dateText, List.append_assoc, List.head?_append_of_ne_nil _ hyear] at h
  exact isDigit_of_mem_padded (List.mem_of_head? h)

theorem isBlank_of_mem_minutesText {minutes : Nat} {c : Char} (h : c ∈ minutesText minutes) :
    Text.isBlank c = false := by
  have hdigit : ∀ {n : Nat}, c ∈ padded 10 2 n → Text.isBlank c = false :=
    fun hc => Text.isBlank_of_isDigit (isDigit_of_mem_padded hc)
  rcases List.mem_append.mp h with hc | hc
  · exact hdigit hc
  · rcases List.mem_cons.mp hc with rfl | hc
    · rfl
    · exact hdigit hc

theorem Zone.isBlank_eq_false {zone : List Char} {minutes : Int} (h : Zone zone minutes) {c : Char}
    (hc : c ∈ zone) : Text.isBlank c = false := by
  cases h
  case utc | utcSmall =>
    rw [List.mem_singleton.mp hc]
    rfl
  all_goals
    rcases List.mem_cons.mp hc with rfl | hc
    · rfl
    · exact isBlank_of_mem_minutesText hc

theorem Zone.ne_nil {zone : List Char} {minutes : Int} (h : Zone zone minutes) : zone ≠ [] := by
  cases h <;> exact List.cons_ne_nil _ _

/-- A separator may be blank, but both ends of a timestamp are not. -/
theorem trim_of_surrounded_timestamp {seconds offset : Int} {separator : Char}
    {fraction zone : List Char} (hzone : Zone zone offset) {text : List Char}
    (h : Text.Surrounded text (timestamp seconds offset separator fraction zone)) :
    Text.trim text = timestamp seconds offset separator fraction zone := by
  refine Text.trim_of_surrounded h
    (fun c hc => Text.isBlank_of_isDigit (isDigit_head_timestamp hc)) fun c hc => ?_
  have hend : timestamp seconds offset separator fraction zone =
      (dateText (localDate seconds offset) ++
        separator :: (clockText (localClock seconds offset) ++ fraction)) ++ zone := by
    simp [timestamp]
  rw [hend, List.getLast?_append_of_ne_nil _ hzone.ne_nil] at hc
  exact hzone.isBlank_eq_false (List.mem_of_getLast? hc)

end Calendar.Rfc3339

namespace Timestamp

open Calendar.Rfc3339 (Fraction Zone localDate localClock timestamp)

/-! ### Times near enough to be given in seconds -/

theorem toDays_range {date : Calendar.Date} (hvalid : date.isValid = true) (hlow : 0 ≤ date.year)
    (hhigh : date.year ≤ 9999) : -719528 ≤ date.toDays ∧ date.toDays ≤ 2932896 := by
  obtain ⟨hfirst, hlast⟩ := Calendar.Date.toDays_bounds hvalid
  rw [Calendar.daysBeforeYear, Calendar.epochOffset] at hfirst hlast
  omega

theorem ofSeconds_eq_ok {seconds offset : Int} (hoffset : offset.natAbs < 1440)
    (hlow : 0 ≤ (localDate seconds offset).year) (hhigh : (localDate seconds offset).year ≤ 9999) :
    ofSeconds seconds = .ok ⟨seconds, 0⟩ := by
  have hrange := toDays_range (Calendar.Date.isValid_ofDays _) hlow hhigh
  rw [Calendar.Date.toDays_ofDays] at hrange
  have hmin : minSeconds = -8334601228800 := by decide
  have hmax : maxSeconds = 8210266876799 := by decide
  exact if_pos (by omega)

theorem toInstant_written {text : String} {core : List Char}
    (h : Text.trim text.toList = core) :
    (written text).toInstant = (ofText core).mapError fun fault => ⟨String.ofList core, fault⟩ := by
  rw [← h]
  rfl

/-- **All notations of a time agree.**  A number of 64 bits and its decimal between blanks give the
same time, or both are out of range.  A timestamp that shows a number of seconds at an offset of
less than a day, in a year from 0 to 9999, gives these seconds and the nanoseconds of its fraction,
which is the time that the seconds alone give if there are no nanoseconds. -/
theorem notations_agree (n : Int) :
    (-0x8000000000000000 ≤ n → n < 0x8000000000000000 →
      ((epoch n).toInstant = .ok ⟨n, 0⟩ ∨ (epoch n).toInstant = .error ⟨toString n, .outOfRange⟩) ∧
      ∀ text : String, Text.Surrounded text.toList (toString n).toList →
        (written text).toInstant = (epoch n).toInstant) ∧
    ∀ (offset : Int) (separator : Char) (fraction zone : List Char) (nanos : Nat) (text : String),
      offset.natAbs < 1440 → 0 ≤ (localDate n offset).year → (localDate n offset).year ≤ 9999 →
      separator ∈ ['T', 't', ' '] → Fraction fraction nanos → Zone zone offset →
      Text.Surrounded text.toList (timestamp n offset separator fraction zone) →
        (written text).toInstant = .ok ⟨n, nanos⟩ ∧
          (nanos = 0 → (written text).toInstant = (epoch n).toInstant) := by
  constructor
  · intro hlow hhigh
    have hepoch : (epoch n).toInstant = .ok ⟨n, 0⟩ ∨
        (epoch n).toInstant = .error ⟨toString n, .outOfRange⟩ := by
      rw [toInstant, instant, ofSeconds]
      split
      · exact Or.inl rfl
      · exact Or.inr rfl
    refine ⟨hepoch, fun text htext => ?_⟩
    have hread := Numeral.int64?_toString hlow hhigh
    have htrim : Text.trim text.toList = (toString n).toList :=
      Text.trim_of_surrounded_plain htext fun c hc => Numeral.isBlank_of_mem_toString hc
    rw [toInstant_written htrim, ofText, hread, String.ofList_toList]
    rfl
  · intro offset separator fraction zone nanos text hoffset hlow hhigh hseparator hfraction hzone
      htext
    have hnone : Numeral.int64? (timestamp n offset separator fraction zone) = none := by
      have hdash : '-' ∈ timestamp n offset separator fraction zone := by
        simp [timestamp, Calendar.Rfc3339.dateText]
      exact Numeral.int64?_eq_none
        (fun c hc => Calendar.Rfc3339.isDigit_head_timestamp hc) hdash rfl
    have hwritten : (written text).toInstant = .ok ⟨n, nanos⟩ := by
      rw [toInstant_written (Calendar.Rfc3339.trim_of_surrounded_timestamp hzone htext), ofText,
        hnone, Calendar.Rfc3339.read_timestamp hoffset hlow hhigh hseparator hfraction hzone]
      rfl
    refine ⟨hwritten, ?_⟩
    rintro rfl
    rw [hwritten, toInstant, instant, ofSeconds_eq_ok hoffset hlow hhigh]
    rfl

/-- The last second before 1970, as seen in the old year and in the new one. -/
theorem notations_agree_newYear :
    (written " -1\n").toInstant = (epoch (-1)).toInstant ∧
      (written "1969-12-31 18:29:59.25-05:30").toInstant = .ok ⟨-1, 250000000⟩ ∧
      (written "\t1970-01-01T05:29:59+05:30").toInstant = (epoch (-1)).toInstant := by
  obtain ⟨hdecimal, hshown⟩ := notations_agree (-1)
  have hquarter : Fraction ['.', '2', '5'] 250000000 :=
    .digits (by decide) (.concat (.digit (show 2 < 10 by decide)) (show 5 < 10 by decide))
  refine ⟨?_, ?_, ?_⟩
  · exact (hdecimal (by decide) (by decide)).2 _
      ⟨[' '], ['\n'], rfl, by simp [Text.isBlank], by simp [Text.isBlank]⟩
  · exact (hshown (-330) ' ' ['.', '2', '5'] _ 250000000 _ (by decide) (by decide) (by decide)
      (by decide) hquarter (.behind 330) ⟨[], [], rfl, by simp, by simp⟩).1
  · exact (hshown 330 'T' [] _ 0 _ (by decide) (by decide) (by decide) (by decide) .missing
      (.ahead 330) ⟨['\t'], [], rfl, by simp [Text.isBlank], by simp⟩).2 rfl

end Timestamp

end ArchivePlan
