import Mathlib.Data.Int.ConditionallyCompleteOrder
import Mathlib.Order.SuccPred.IntervalSucc
import Mathlib.Tactic.IntervalCases
import Mathlib.Tactic.SplitIfs

/-! Dates of the calendar that is Julian up to 4 October 1582 and Gregorian from the day after, the
15th, on; the days are counted from 1 January 1 of the Gregorian calendar. -/
namespace InsightsAssist.Calendars

def daysBefore (leap : Bool) (month : Int) : Int :=
  (367 * month - 362) / 12 - if month ≤ 2 then 0 else if leap then 1 else 2

def daysIn (leap : Bool) (month : Int) : Int :=
  if month = 2 then if leap then 29 else 28
  else if month = 4 ∨ month = 6 ∨ month = 9 ∨ month = 11 then 30
  else 31

/-- `start` counts the days before a year. -/
structure Reckoning where
  start : Int → Int
  leap : Int → Bool
  start_succ : ∀ year, start (year + 1) = start year + if leap year then 366 else 365

/-- The count of the day. The month is one of the year, the day any number. -/
def Reckoning.count (r : Reckoning) (year month day : Int) : Int :=
  r.start year + daysBefore (r.leap year) month + day

def gregorian : Reckoning where
  start year := 365 * (year - 1) + (year - 1) / 4 - (year - 1) / 100 + (year - 1) / 400
  leap year := year % 4 = 0 ∧ (year % 100 ≠ 0 ∨ year % 400 = 0)
  start_succ year := by
    split_ifs with h <;> simp only [decide_eq_true_eq] at h <;> omega

def julian : Reckoning where
  start year := 365 * (year - 1) + (year - 1) / 4 - 2
  leap year := year % 4 = 0
  start_succ year := by
    split_ifs with h <;> simp only [decide_eq_true_eq] at h <;> omega

/-- The first day of the Gregorian calendar. -/
def cutover : Int := 577736

/-- The day of a date whose month and day need not be ones of the year and the month. -/
def fixedDate (year month day : Int) : Int :=
  let inYear := year + (month - 1) / 12
  let inMonth := (month - 1) % 12 + 1
  if year < 1582 then julian.count inYear inMonth day
  else if cutover ≤ gregorian.count inYear inMonth day then gregorian.count inYear inMonth day
  else julian.count inYear inMonth day

/-- Up to the last year that a time of 64 bits in milliseconds reaches the end of. -/
structure Date where
  year : Int
  month : Int
  day : Int
  year_pos : 1 ≤ year
  year_le : year ≤ 292278993
  month_pos : 1 ≤ month
  month_le : month ≤ 12
  day_pos : 1 ≤ day
  day_le : day ≤ daysIn (if year ≤ 1582 then julian.leap year else gregorian.leap year) month
  /-- The ten days that were left out. -/
  kept : ¬(year = 1582 ∧ month = 10 ∧ 5 ≤ day ∧ day ≤ 14)
  deriving DecidableEq

def Date.fixedDate (d : Date) : Int := Calendars.fixedDate d.year d.month d.day

def Before (year month day year' month' day' : Int) : Prop :=
  year < year' ∨ (year = year' ∧ (month < month' ∨ (month = month' ∧ day < day')))

def Date.Before (a b : Date) : Prop := Calendars.Before a.year a.month a.day b.year b.month b.day

variable {year month day year' month' day' : Int}

theorem daysBefore_add_le (leap : Bool) (hmonth : 1 ≤ month) (hlt : month < month')
    (hmonth' : month' ≤ 12) :
    daysBefore leap month + daysIn leap month ≤ daysBefore leap month' := by
  have hle : month ≤ 11 := by omega
  cases leap <;> interval_cases month <;> interval_cases month' <;> decide

theorem daysBefore_add_pos (leap : Bool) (hmonth : 1 ≤ month) (hle : month ≤ 12) :
    0 ≤ daysBefore leap month ∧
      daysBefore leap month + daysIn leap month ≤ if leap then 366 else 365 := by
  cases leap <;> interval_cases month <;> decide

namespace Reckoning
variable (r : Reckoning)

theorem start_mono : Monotone r.start := by
  refine monotone_int_of_le_succ fun year => ?_
  rw [r.start_succ]
  split <;> omega

theorem count_lt (hmonth : 1 ≤ month) (hle : month ≤ 12) (hday : day ≤ daysIn (r.leap year) month)
    (hmonth' : 1 ≤ month') (hle' : month' ≤ 12) (hday' : 1 ≤ day')
    (h : Before year month day year' month' day') :
    r.count year month day < r.count year' month' day' := by
  rw [count, count]
  obtain hyear | ⟨rfl, hmonths | ⟨rfl, hdays⟩⟩ := h
  · have hend := daysBefore_add_pos (r.leap year) hmonth hle
    have hbegin := daysBefore_add_pos (r.leap year') hmonth' hle'
    have hstart : r.start (year + 1) ≤ r.start year' := r.start_mono (by omega)
    rw [r.start_succ] at hstart
    omega
  · have hbefore := daysBefore_add_le (r.leap year) hmonth hmonths hle'
    omega
  · omega

end Reckoning
namespace Date
variable {a b d : Date}

theorem fixedDate_eq (d : Date) : d.fixedDate =
    if d.year < 1582 then julian.count d.year d.month d.day
    else if cutover ≤ gregorian.count d.year d.month d.day then
      gregorian.count d.year d.month d.day
    else julian.count d.year d.month d.day := by
  have hpos := d.month_pos
  have hle := d.month_le
  have hyear : d.year + (d.month - 1) / 12 = d.year := by omega
  have hmonth : (d.month - 1) % 12 + 1 = d.month := by omega
  rw [Date.fixedDate, Calendars.fixedDate, hyear, hmonth]

theorem day_le_julian (h : d.year ≤ 1582) : d.day ≤ daysIn (julian.leap d.year) d.month := by
  have hle := d.day_le
  rwa [if_pos h] at hle

theorem day_le_gregorian (h : 1582 ≤ d.year) :
    d.day ≤ daysIn (gregorian.leap d.year) d.month := by
  have hle := d.day_le
  by_cases hyear : d.year ≤ 1582
  · have heq : d.year = 1582 := by omega
    rw [if_pos hyear, heq] at hle
    rw [heq]
    exact hle
  · rwa [if_neg hyear] at hle

theorem fixedDate_old (h : Calendars.Before d.year d.month d.day 1582 10 15) :
    d.fixedDate = julian.count d.year d.month d.day ∧ d.fixedDate < cutover := by
  have hlast : Calendars.Before d.year d.month d.day 1582 10 5 := by
    have hkept := d.kept
    unfold Calendars.Before at h ⊢
    omega
  have hyear : d.year ≤ 1582 := by
    unfold Calendars.Before at h
    omega
  have hjulian : julian.count d.year d.month d.day < cutover :=
    julian.count_lt d.month_pos d.month_le (day_le_julian hyear) (by decide) (by decide) (by decide)
      hlast
  have heq : d.fixedDate = julian.count d.year d.month d.day := by
    rw [fixedDate_eq]
    split
    · rfl
    · rename_i hnew
      rw [if_neg]
      have hgregorian : gregorian.count d.year d.month d.day < cutover :=
        gregorian.count_lt d.month_pos d.month_le (day_le_gregorian (by omega)) (by decide)
          (by decide) (by decide) h
      omega
  exact ⟨heq, heq ▸ hjulian⟩

theorem fixedDate_new (h : ¬Calendars.Before d.year d.month d.day 1582 10 15) :
    d.fixedDate = gregorian.count d.year d.month d.day ∧ cutover ≤ d.fixedDate := by
  have hyear : 1582 ≤ d.year := by
    unfold Calendars.Before at h
    omega
  have hgregorian : cutover ≤ gregorian.count d.year d.month d.day := by
    by_cases hfirst : d.year = 1582 ∧ d.month = 10 ∧ d.day = 15
    · rw [hfirst.1, hfirst.2.1, hfirst.2.2]
      decide
    · have hlater : Calendars.Before 1582 10 15 d.year d.month d.day := by
        unfold Calendars.Before at h ⊢
        omega
      exact Int.le_of_lt (gregorian.count_lt (by decide) (by decide) (by decide) d.month_pos
        d.month_le d.day_pos hlater)
  have heq : d.fixedDate = gregorian.count d.year d.month d.day := by
    rw [fixedDate_eq, if_neg (by omega), if_pos hgregorian]
  exact ⟨heq, heq ▸ hgregorian⟩

theorem fixedDate_lt (h : a.Before b) : a.fixedDate < b.fixedDate := by
  by_cases hb : Calendars.Before b.year b.month b.day 1582 10 15
  · have ha : Calendars.Before a.year a.month a.day 1582 10 15 := by
      unfold Date.Before Calendars.Before at h
      unfold Calendars.Before at hb ⊢
      omega
    have hyear : a.year ≤ 1582 := by
      unfold Calendars.Before at ha
      omega
    rw [(fixedDate_old ha).1, (fixedDate_old hb).1]
    exact julian.count_lt a.month_pos a.month_le (day_le_julian hyear) b.month_pos b.month_le
      b.day_pos h
  · obtain ⟨hcount, hle⟩ := fixedDate_new hb
    by_cases ha : Calendars.Before a.year a.month a.day 1582 10 15
    · exact Int.lt_of_lt_of_le (fixedDate_old ha).2 hle
    · have hyear : 1582 ≤ a.year := by
        unfold Calendars.Before at ha
        omega
      rw [(fixedDate_new ha).1, hcount]
      exact gregorian.count_lt a.month_pos a.month_le (day_le_gregorian hyear) b.month_pos
        b.month_le b.day_pos h

theorem before_trichotomous (a b : Date) : a.Before b ∨ a = b ∨ b.Before a := by
  obtain ⟨year, month, day, _⟩ := a
  obtain ⟨year', month', day', _⟩ := b
  simp only [Date.Before, Calendars.Before, Date.mk.injEq]
  omega

theorem fixedDate_injective (h : a.fixedDate = b.fixedDate) : a = b := by
  obtain hlt | rfl | hgt := before_trichotomous a b
  · exact absurd h (Int.ne_of_lt (fixedDate_lt hlt))
  · rfl
  · exact absurd h (Int.ne_of_gt (fixedDate_lt hgt))

end Date
end InsightsAssist.Calendars
