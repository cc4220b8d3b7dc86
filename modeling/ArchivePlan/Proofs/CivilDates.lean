import ArchivePlan.Calendar.Date
import Mathlib.Data.Int.Init
import Mathlib.Logic.Function.Iterate

/-! # Counting days

The calendar as a walk: each date is followed by the next day of its month, by the first of the next
month or by the next New Year's Day, and preceded likewise.  `Date.ofDays` walks from the first day
of 1970 in either direction, a step for each day, and uses neither the closed formula by which years
are counted nor the table of the months.  Both agree: every date on the walk is one the calendar has
(`Date.isValid_ofDays`), and its distance from the start is the number of steps
(`Date.toDays_ofDays`).  A step changes the count by one (`Date.toDays_next`) in each of its three
cases. -/

namespace ArchivePlan.Calendar

/-! ### Years and months -/

/-- The days of a month: thirty for April, June, September and November, and 31 for the others but
February. -/
def monthLength (year : Int) (month : Nat) : Nat :=
  if month = 2 then if isLeap year then 29 else 28
  else if month ∈ [4, 6, 9, 11] then 30
  else 31

/-- The days of a year before a month. -/
def daysBeforeMonth (year : Int) (month : Nat) : Nat :=
  ((monthLengths (isLeap year)).take (month - 1)).foldl Nat.add 0

theorem monthLength_pos (year : Int) (month : Nat) : 1 ≤ monthLength year month := by
  grind [monthLength]

theorem monthLength_le (year : Int) (month : Nat) : monthLength year month ≤ 31 := by
  grind [monthLength]

theorem getElem?_monthLengths (year : Int) {month : Nat} (hone : 1 ≤ month) (hle : month ≤ 12) :
    (monthLengths (isLeap year))[month - 1]? = some (monthLength year month) := by
  have hmonths : ∀ leap : Bool, ∀ month : Fin 13, 1 ≤ month.val →
      (monthLengths leap)[month.val - 1]? = some (if month.val = 2 then if leap then 29 else 28
        else if month.val ∈ [4, 6, 9, 11] then 30 else 31) := by decide
  exact hmonths (isLeap year) ⟨month, Nat.lt_succ_of_le hle⟩ hone

theorem daysBeforeMonth_add_one (year : Int) {month : Nat} (hone : 1 ≤ month) (hle : month ≤ 12) :
    daysBeforeMonth year (month + 1) = daysBeforeMonth year month + monthLength year month := by
  have hlength := getElem?_monthLengths year hone hle
  obtain ⟨before, rfl⟩ := Nat.exists_eq_add_of_le' hone
  rw [Nat.add_sub_cancel] at hlength
  rw [daysBeforeMonth, daysBeforeMonth, Nat.add_sub_cancel, Nat.add_sub_cancel, List.take_add_one,
    hlength, List.foldl_append]
  rfl

theorem daysBeforeMonth_le (year : Int) {month : Nat} (hle : month ≤ 13) :
    daysBeforeMonth year month ≤ daysBeforeMonth year 13 := by
  have hmonths : ∀ leap : Bool, ∀ month : Fin 14,
      ((monthLengths leap).take (month.val - 1)).foldl Nat.add 0 ≤
        ((monthLengths leap).take 12).foldl Nat.add 0 := by decide
  exact hmonths (isLeap year) ⟨month, Nat.lt_succ_of_le hle⟩

theorem daysBeforeMonth_thirteen (year : Int) :
    daysBeforeMonth year 13 = 365 + (isLeap year).toNat := by
  rw [daysBeforeMonth]
  cases isLeap year <;> rfl

theorem isLeap_iff (year : Int) :
    isLeap year = true ↔ year % 4 = 0 ∧ (year % 100 ≠ 0 ∨ year % 400 = 0) := by
  simp [isLeap]

/-- The closed formula counts the days of every year. -/
theorem daysBeforeYear_add_one (year : Int) :
    daysBeforeYear (year + 1) = daysBeforeYear year + daysBeforeMonth year 13 := by
  have hleap := isLeap_iff year
  rw [daysBeforeMonth_thirteen, daysBeforeYear, daysBeforeYear]
  cases hyear : isLeap year with
  | true =>
      rw [hyear, eq_self, true_iff] at hleap
      rw [Bool.toNat_true]
      omega
  | false =>
      rw [hyear, Bool.false_eq_true, false_iff] at hleap
      rw [Bool.toNat_false]
      omega

namespace Date

variable {date : Date} {year : Int} {month day : Nat}

theorem isValid_iff : isValid ⟨year, month, day⟩ = true ↔
    (1 ≤ month ∧ month ≤ 12) ∧ 1 ≤ day ∧ day ≤ monthLength year month := by
  rw [isValid]
  dsimp only
  by_cases hmonth : 1 ≤ month ∧ month ≤ 12
  · rw [getElem?_monthLengths year hmonth.1 hmonth.2]
    simp [hmonth]
  · have hnone : month = 0 ∨ (monthLengths (isLeap year))[month - 1]? = none := by
      rcases Nat.eq_zero_or_pos month with hzero | hpos
      · exact Or.inl hzero
      · refine Or.inr (List.getElem?_eq_none ?_)
        rw [monthLengths]
        exact Nat.le_sub_one_of_lt (Nat.lt_of_not_le fun hle => hmonth ⟨hpos, hle⟩)
    rcases hnone with rfl | hnone
    · simp
    · simp [hmonth, hnone]

theorem isValid_first (hone : 1 ≤ month) (hle : month ≤ 12) : isValid ⟨year, month, 1⟩ = true :=
  isValid_iff.mpr ⟨⟨hone, hle⟩, Nat.le_refl 1, monthLength_pos year month⟩

theorem isValid_last (hone : 1 ≤ month) (hle : month ≤ 12) :
    isValid ⟨year, month, monthLength year month⟩ = true :=
  isValid_iff.mpr ⟨⟨hone, hle⟩, monthLength_pos year month, Nat.le_refl _⟩

theorem toDays_mk : toDays ⟨year, month, day⟩ =
    daysBeforeYear year + daysBeforeMonth year month + (day - 1) - epochOffset :=
  rfl

theorem toDays_day_add_one : toDays ⟨year, month, day + 1⟩ = toDays ⟨year, month, day⟩ + 1 := by
  rw [toDays_mk, toDays_mk]
  omega

theorem toDays_month_add_one (hone : 1 ≤ month) (hle : month ≤ 12) :
    toDays ⟨year, month + 1, 1⟩ = toDays ⟨year, month, monthLength year month⟩ + 1 := by
  rw [toDays_mk, toDays_mk, daysBeforeMonth_add_one year hone hle]
  omega

theorem toDays_year_add_one : toDays ⟨year + 1, 1, 1⟩ = toDays ⟨year, 13, 1⟩ := by
  have hjanuary : daysBeforeMonth (year + 1) 1 = 0 := rfl
  rw [toDays_mk, toDays_mk, daysBeforeYear_add_one, hjanuary]
  omega

theorem toDays_bounds (h : date.isValid = true) :
    daysBeforeYear date.year - epochOffset ≤ date.toDays ∧
      date.toDays < daysBeforeYear (date.year + 1) - epochOffset := by
  obtain ⟨⟨hone, hle⟩, hday, hlength⟩ := isValid_iff.mp h
  have hdays : date.toDays = daysBeforeYear date.year + daysBeforeMonth date.year date.month +
      (date.day - 1) - epochOffset := toDays_mk
  have hwhole : daysBeforeMonth date.year date.month + monthLength date.year date.month ≤
      daysBeforeMonth date.year 13 := by
    rw [← daysBeforeMonth_add_one date.year hone hle]
    exact daysBeforeMonth_le date.year (Nat.succ_le_succ hle)
  rw [daysBeforeYear_add_one, hdays]
  omega

/-! ### From one date to the next -/

/-- The date after another one. -/
def next (date : Date) : Date :=
  if date.day < monthLength date.year date.month then ⟨date.year, date.month, date.day + 1⟩
  else if date.month < 12 then ⟨date.year, date.month + 1, 1⟩
  else ⟨date.year + 1, 1, 1⟩

def previous (date : Date) : Date :=
  if 1 < date.day then ⟨date.year, date.month, date.day - 1⟩
  else if 1 < date.month then
    ⟨date.year, date.month - 1, monthLength date.year (date.month - 1)⟩
  else ⟨date.year - 1, 12, 31⟩

theorem isValid_next (h : date.isValid = true) : date.next.isValid = true := by
  obtain ⟨hmonth, hday, hlength⟩ := isValid_iff.mp h
  unfold next
  split
  · next hlt => exact isValid_iff.mpr ⟨hmonth, Nat.le_add_left 1 _, hlt⟩
  · split
    · next hlt => exact isValid_first (Nat.le_add_left 1 _) hlt
    · exact isValid_first (Nat.le_refl 1) (by decide)

/-- A step on the calendar is a day. -/
theorem toDays_next (h : date.isValid = true) : date.next.toDays = date.toDays + 1 := by
  obtain ⟨year, month, day⟩ := date
  obtain ⟨⟨hone, hle⟩, hday, hlength⟩ := isValid_iff.mp h
  unfold next
  dsimp only
  split
  · exact toDays_day_add_one
  · next hlast =>
      obtain rfl : day = monthLength year month := Nat.le_antisymm hlength (Nat.le_of_not_lt hlast)
      rw [← toDays_month_add_one hone hle]
      split
      · rfl
      · next hdecember =>
          obtain rfl : month = 12 := Nat.le_antisymm hle (Nat.le_of_not_lt hdecember)
          exact toDays_year_add_one

theorem isValid_previous (h : date.isValid = true) : date.previous.isValid = true := by
  obtain ⟨⟨hone, hle⟩, hday, hlength⟩ := isValid_iff.mp h
  unfold previous
  split
  · next hlater =>
      have hbefore : date.day - 1 ≤ monthLength date.year date.month :=
        Nat.le_trans (Nat.sub_le _ 1) hlength
      exact isValid_iff.mpr ⟨⟨hone, hle⟩, Nat.le_sub_one_of_lt hlater, hbefore⟩
  · split
    · next hlater =>
        exact isValid_last (Nat.le_sub_one_of_lt hlater) (Nat.le_trans (Nat.sub_le _ 1) hle)
    · exact isValid_last (by decide) (by decide)

theorem next_previous (h : date.isValid = true) : date.previous.next = date := by
  obtain ⟨year, month, day⟩ := date
  obtain ⟨⟨hone, hle⟩, hday, hlength⟩ := isValid_iff.mp h
  unfold previous
  dsimp only
  split
  · obtain ⟨before, rfl⟩ := Nat.exists_eq_add_of_le' hday
    exact if_pos hlength
  · next hfirst =>
      obtain rfl : day = 1 := Nat.le_antisymm (Nat.le_of_not_lt hfirst) hday
      split
      · obtain ⟨before, rfl⟩ := Nat.exists_eq_add_of_le' hone
        exact (if_neg (Nat.lt_irrefl _)).trans (if_pos hle)
      · next hjanuary =>
          obtain rfl : month = 1 := Nat.le_antisymm (Nat.le_of_not_lt hjanuary) hone
          simp [next, monthLength]

/-! ### The walk -/

def epoch : Date := ⟨1970, 1, 1⟩

/-- The date a number of days after the first day of 1970, or before it. -/
def ofDays : Int → Date
  | .ofNat days => next^[days] epoch
  | .negSucc days => previous^[days + 1] epoch

theorem isValid_ofDays (days : Int) : (ofDays days).isValid = true := by
  cases days with
  | ofNat days =>
      exact Function.Iterate.rec (fun date : Date => date.isValid = true) rfl
        (fun _ => isValid_next) days
  | negSucc days =>
      exact Function.Iterate.rec (fun date : Date => date.isValid = true) rfl
        (fun _ => isValid_previous) (days + 1)

/-- On both sides of the start the walk goes through the calendar in order. -/
theorem ofDays_add_one (days : Int) : ofDays (days + 1) = (ofDays days).next := by
  cases days with
  | ofNat days => exact Function.iterate_succ_apply' next days epoch
  | negSucc days =>
      have hprevious : ofDays (.negSucc days) = (ofDays (.negSucc days + 1)).previous := by
        cases days with
        | zero => rfl
        | succ days => exact Function.iterate_succ_apply' previous (days + 1) epoch
      rw [hprevious, next_previous (isValid_ofDays _)]

/-- The days up to a date on the walk are the steps to it. -/
theorem toDays_ofDays (days : Int) : (ofDays days).toDays = days := by
  have hstep : ∀ days, (ofDays (days + 1)).toDays = (ofDays days).toDays + 1 := fun days => by
    rw [ofDays_add_one, toDays_next (isValid_ofDays days)]
  induction days using Int.induction_on with
  | zero => rfl
  | succ days ih => rw [hstep, ih]
  | pred days ih =>
      have hback := hstep (-days - 1)
      rw [Int.sub_add_cancel, ih] at hback
      omega

example : ofDays (-1) = ⟨1969, 12, 31⟩ := rfl

end Date

end ArchivePlan.Calendar
