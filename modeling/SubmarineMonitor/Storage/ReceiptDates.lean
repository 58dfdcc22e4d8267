import SubmarineMonitor.Reasoning.Blocks
import SubmarineMonitor.Storage.StoreQuery

/-!
# ReceiptDates — the dates under which `data_collection.cpp` files a record

`TodayDateString` is `gmtime_r` of the clock, so a clock that does not go back gives dates that do not,
and two records lie in one file exactly when they were received on the same UTC day.
-/

open Reasoning

namespace SubmarineMonitor

/-! ## 1. The calendar of `gmtime_r` -/

def IsLeapYear (year : Nat) : Prop := year % 4 = 0 ∧ (year % 100 ≠ 0 ∨ year % 400 = 0)

instance (year : Nat) : Decidable (IsLeapYear year) :=
  inferInstanceAs (Decidable (year % 4 = 0 ∧ (year % 100 ≠ 0 ∨ year % 400 = 0)))

def yearLength (year : Nat) : Nat := if IsLeapYear year then 366 else 365

/-- The months count from 0; there is none behind the eleventh. -/
def monthLength (year : Nat) : Nat → Nat
  | 1 => if IsLeapYear year then 29 else 28
  | 3 | 5 | 8 | 10 => 30
  | _ => 31

def epochYear (i : Nat) : Nat := yearLength (1970 + i)

/-- The first second of the year 10000, which `"%04d"` would write with five digits. -/
def endOfDates : Nat := 253402300800

theorem blockStart_epochYear : blockStart epochYear 8030 * 86400 = endOfDates := by decide +kernel

theorem epochYear_pos (i : Nat) : 0 < epochYear i := by
  rw [epochYear, yearLength]
  split <;> decide

theorem monthLength_pos (year i : Nat) : 0 < monthLength year i := by
  rw [monthLength.eq_def]
  split
  · split <;> decide
  all_goals decide

theorem monthLength_le (year i : Nat) : monthLength year i ≤ 31 := by
  rw [monthLength.eq_def]
  split
  · split <;> decide
  all_goals decide

/-- Twelve months are a year. -/
theorem blockStart_monthLength (year : Nat) :
    blockStart (monthLength year) 12 = yearLength year := by
  simp only [blockStart, monthLength, yearLength]
  split <;> rfl

def gmtimeYear (t : Fin endOfDates) : Nat × Nat := locate epochYear (t.val / 86400)

def gmtimeMonth (t : Fin endOfDates) : Nat × Nat :=
  locate (monthLength (1970 + (gmtimeYear t).1)) (gmtimeYear t).2

theorem gmtimeYear_lt (t : Fin endOfDates) : (gmtimeYear t).1 < 8030 := by
  apply locate_lt_of_lt epochYear_pos
  have ht := t.isLt
  have hend := blockStart_epochYear
  omega

theorem gmtimeMonth_lt (t : Fin endOfDates) : (gmtimeMonth t).1 < 12 := by
  apply locate_lt_of_lt (monthLength_pos _)
  rw [blockStart_monthLength]
  exact (locate_spec epochYear_pos _).2

theorem gmtimeMonth_day_lt (t : Fin endOfDates) : (gmtimeMonth t).2 < 31 :=
  Nat.lt_of_lt_of_le (locate_spec (monthLength_pos _) _).2 (monthLength_le _ _)

def gmtime (t : Fin endOfDates) : Date where
  year := 1970 + (gmtimeYear t).1
  month := (gmtimeMonth t).1 + 1
  day := (gmtimeMonth t).2 + 1
  year_lt := by
    have hyear := gmtimeYear_lt t
    omega
  month_le := gmtimeMonth_lt t
  day_le := gmtimeMonth_day_lt t

example : todayDateString (gmtime ⟨1709164800, by decide⟩) =
    ['2', '0', '2', '4', '-', '0', '2', '-', '2', '9'] := by decide +kernel

/-! ## 2. Dates and days -/

def receiptDay (t : Fin endOfDates) : Nat := t.val / 86400

theorem gmtime_of_day {s t : Fin endOfDates} (h : receiptDay s = receiptDay t) :
    gmtime s = gmtime t := by
  have hyear : gmtimeYear s = gmtimeYear t := congrArg (locate epochYear) h
  have hmonth : gmtimeMonth s = gmtimeMonth t := by rw [gmtimeMonth, gmtimeMonth, hyear]
  simp only [gmtime, hyear, hmonth]

/-- A later day has a later date: a later year, or a later month of it, or a later day of that. -/
theorem gmtime_lt {s t : Fin endOfDates} (h : receiptDay s < receiptDay t) : gmtime s < gmtime t := by
  have hs := gmtimeMonth_lt s
  have hday := gmtimeMonth_day_lt s
  rw [date_lt_iff, Date.number, Date.number]
  dsimp only [gmtime]
  rcases locate_lt epochYear_pos h with hyear | ⟨hyear, hless⟩
  · have hyear' : (gmtimeYear s).1 < (gmtimeYear t).1 := hyear
    omega
  · have hyear' : (gmtimeYear s).1 = (gmtimeYear t).1 := hyear
    have hmonths := locate_lt (monthLength_pos (1970 + (gmtimeYear t).1)) hless
    rw [← hyear'] at hmonths ⊢
    have hin : gmtimeMonth t = locate (monthLength (1970 + (gmtimeYear s).1)) (gmtimeYear t).2 := by
      rw [hyear', gmtimeMonth]
    rw [hin]
    rcases hmonths with hmonth | ⟨hmonth, hdays⟩
    · have hmonth' : (gmtimeMonth s).1 <
          (locate (monthLength (1970 + (gmtimeYear s).1)) (gmtimeYear t).2).1 := hmonth
      omega
    · have hmonth' : (gmtimeMonth s).1 =
          (locate (monthLength (1970 + (gmtimeYear s).1)) (gmtimeYear t).2).1 := hmonth
      have hdays' : (gmtimeMonth s).2 <
          (locate (monthLength (1970 + (gmtimeYear s).1)) (gmtimeYear t).2).2 := hdays
      omega

theorem gmtime_lt_iff {s t : Fin endOfDates} : gmtime s < gmtime t ↔ receiptDay s < receiptDay t := by
  refine ⟨fun h ↦ ?_, gmtime_lt⟩
  rcases Nat.lt_trichotomy (receiptDay s) (receiptDay t) with hless | heq | hmore
  · exact hless
  · exact absurd (gmtime_of_day heq) (ne_of_lt h)
  · exact absurd (gmtime_lt hmore) (lt_asymm h)

/-- A clock that does not go back gives dates that do not. -/
theorem gmtime_mono : Monotone gmtime := by
  intro s t h
  have hday : receiptDay s ≤ receiptDay t := Nat.div_le_div_right h
  rcases Nat.lt_or_eq_of_le hday with hless | heq
  · exact le_of_lt (gmtime_lt hless)
  · exact le_of_eq (gmtime_of_day heq)

end SubmarineMonitor
