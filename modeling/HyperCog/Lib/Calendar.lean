import Mathlib.Data.Nat.Init
import Mathlib.Logic.Function.Iterate
import Mathlib.Tactic.SplitIfs

/-! The Gregorian calendar: dates and times of day, the second after one, and their number of seconds from year 0 on. -/
namespace Calendar

def leap (year : ℕ) : Bool := year % 4 = 0 ∧ (year % 100 ≠ 0 ∨ year % 400 = 0)

def yearDays (year : ℕ) : ℕ := if leap year then 366 else 365

def monthDays (year : ℕ) : ℕ → ℕ
  | 2 => if leap year then 29 else 28
  | 4 | 6 | 9 | 11 => 30
  | _ => 31

/-- The days of the years before this one. -/
def daysBeforeYear : ℕ → ℕ
  | 0 => 0
  | year + 1 => daysBeforeYear year + yearDays year

/-- The days of the months before this one, the first month being 1. -/
def daysBeforeMonth (year : ℕ) : ℕ → ℕ
  | 0 => 0
  | 1 => 0
  | month + 2 => daysBeforeMonth year (month + 1) + monthDays year (month + 1)

@[ext]
structure Civil where
  year : ℕ
  month : ℕ
  day : ℕ
  hour : ℕ
  minute : ℕ
  second : ℕ
  deriving DecidableEq, Repr

namespace Civil

structure Valid (c : Civil) : Prop where
  one_le_month : 1 ≤ c.month
  month_le : c.month ≤ 12
  one_le_day : 1 ≤ c.day
  day_le : c.day ≤ monthDays c.year c.month
  hour_lt : c.hour < 24
  minute_lt : c.minute < 60
  second_lt : c.second < 60

def dayNumber (c : Civil) : ℕ := daysBeforeYear c.year + daysBeforeMonth c.year c.month + (c.day - 1)

def seconds (c : Civil) : ℕ := ((c.dayNumber * 24 + c.hour) * 60 + c.minute) * 60 + c.second

/-- The day of the week, from 0 for a Sunday on: year 0 begins with a Saturday. -/
def weekday (c : Civil) : ℕ := (c.dayNumber + 6) % 7

/-- One second later. -/
def tick (c : Civil) : Civil :=
  if c.second < 59 then { c with second := c.second + 1 }
  else if c.minute < 59 then { c with minute := c.minute + 1, second := 0 }
  else if c.hour < 23 then { c with hour := c.hour + 1, minute := 0, second := 0 }
  else if c.day < monthDays c.year c.month then { c with day := c.day + 1, hour := 0, minute := 0, second := 0 }
  else if c.month < 12 then ⟨c.year, c.month + 1, 1, 0, 0, 0⟩
  else ⟨c.year + 1, 1, 1, 0, 0, 0⟩

end Civil

variable {year year' month month' : ℕ}

theorem monthDays_pos (year month : ℕ) : 0 < monthDays year month := by
  unfold monthDays
  split
  · split <;> decide
  all_goals decide

theorem monthDays_le (year month : ℕ) : monthDays year month ≤ 31 := by
  unfold monthDays
  split
  · split <;> decide
  all_goals decide

theorem yearDays_ge (year : ℕ) : 365 ≤ yearDays year := by
  unfold yearDays
  split <;> decide

/-- The twelve months make up the year. -/
theorem daysBeforeMonth_thirteen (year : ℕ) : daysBeforeMonth year 13 = yearDays year := by
  simp only [daysBeforeMonth, monthDays, yearDays]
  split <;> rfl

theorem daysBeforeMonth_succ (h : 1 ≤ month) :
    daysBeforeMonth year (month + 1) = daysBeforeMonth year month + monthDays year month := by
  obtain ⟨month, rfl⟩ := Nat.exists_eq_add_of_le' h
  rfl

theorem daysBeforeMonth_mono (hpos : 1 ≤ month) (h : month ≤ month') :
    daysBeforeMonth year month ≤ daysBeforeMonth year month' := by
  induction month', h using Nat.le_induction with
  | base => exact Nat.le_refl _
  | succ month' hle ih =>
    rw [daysBeforeMonth_succ (Nat.le_trans hpos hle)]
    exact Nat.le_trans ih (Nat.le_add_right _ _)

theorem daysBeforeYear_mono (h : year ≤ year') : daysBeforeYear year ≤ daysBeforeYear year' := by
  induction year', h using Nat.le_induction with
  | base => exact Nat.le_refl _
  | succ year' hle ih => exact Nat.le_trans ih (Nat.le_add_right _ _)

theorem le_daysBeforeYear (year : ℕ) : 365 * year ≤ daysBeforeYear year := by
  induction year with
  | zero => exact Nat.le_refl _
  | succ year ih =>
    have hdays := yearDays_ge year
    rw [daysBeforeYear]
    omega

namespace Civil

variable {c c' : Civil}

/-- The days of a month end before those of a later one begin. -/
theorem Valid.month_lt (h : c.Valid) (hlt : c.month < month) :
    daysBeforeMonth c.year c.month + (c.day - 1) < daysBeforeMonth c.year month := by
  have hmono : daysBeforeMonth c.year (c.month + 1) ≤ daysBeforeMonth c.year month :=
    daysBeforeMonth_mono (Nat.le_add_left 1 c.month) hlt
  rw [daysBeforeMonth_succ h.one_le_month] at hmono
  have hday := h.day_le
  have hone := h.one_le_day
  omega

theorem Valid.year_lt (h : c.Valid) (hlt : c.year < year) : c.dayNumber < daysBeforeYear year := by
  have hmonth := h.month_lt (Nat.lt_succ_of_le h.month_le)
  have hmono := daysBeforeYear_mono hlt
  rw [daysBeforeMonth_thirteen] at hmonth
  rw [daysBeforeYear] at hmono
  rw [dayNumber]
  omega

theorem dayNumber_ge (c : Civil) : daysBeforeYear c.year ≤ c.dayNumber := by
  rw [dayNumber]
  omega

/-- The number of a day tells the year, the month and the day. -/
theorem Valid.eq_of_dayNumber (h : c.Valid) (h' : c'.Valid) (heq : c.dayNumber = c'.dayNumber) :
    c.year = c'.year ∧ c.month = c'.month ∧ c.day = c'.day := by
  have hyear : c.year = c'.year := by
    rcases Nat.lt_trichotomy c.year c'.year with hlt | heq | hlt
    · have := h.year_lt hlt
      have := c'.dayNumber_ge
      omega
    · exact heq
    · have := h'.year_lt hlt
      have := c.dayNumber_ge
      omega
  rw [dayNumber, dayNumber, ← hyear] at heq
  have hmonth : c.month = c'.month := by
    rcases Nat.lt_trichotomy c.month c'.month with hlt | heq | hlt
    · have := h.month_lt hlt
      omega
    · exact heq
    · have := h'.month_lt hlt
      rw [← hyear] at this
      omega
  rw [← hmonth] at heq
  have := h.one_le_day
  have := h'.one_le_day
  exact ⟨hyear, hmonth, by omega⟩

theorem Valid.seconds_inj (h : c.Valid) (h' : c'.Valid) (heq : c.seconds = c'.seconds) : c = c' := by
  obtain ⟨-, -, -, -, hhour, hminute, hsecond⟩ := id h
  obtain ⟨-, -, -, -, hhour', hminute', hsecond'⟩ := id h'
  rw [seconds, seconds] at heq
  obtain ⟨hyear, hmonth, hday⟩ := h.eq_of_dayNumber h' (by omega)
  apply Civil.ext hyear hmonth hday <;> omega

theorem Valid.tick (h : c.Valid) : c.tick.Valid := by
  obtain ⟨hm, hm', hd, hd', hh, hmin, hsec⟩ := h
  have hmonth := monthDays_pos c.year (c.month + 1)
  have hyear := monthDays_pos (c.year + 1) 1
  rw [Civil.tick]
  split_ifs <;> constructor <;> dsimp only <;> omega

theorem Valid.seconds_tick (h : c.Valid) : c.tick.seconds = c.seconds + 1 := by
  obtain ⟨hm, hm', hd, hd', hh, hmin, hsec⟩ := h
  rw [Civil.tick]
  split_ifs with h₁ h₂ h₃ h₄
  · rfl
  any_goals
    simp only [seconds, dayNumber]
    omega
  simp only [seconds, dayNumber, daysBeforeMonth_succ hm]
  omega
  · have hlast : c.month = 12 := by omega
    have hyear := daysBeforeMonth_thirteen c.year
    rw [daysBeforeMonth_succ (by decide)] at hyear
    rw [hlast] at h₄
    simp only [seconds, dayNumber, daysBeforeYear, daysBeforeMonth, hlast]
    simp only [hlast] at hd'
    simp only [daysBeforeMonth] at hyear
    omega

theorem Valid.after (h : c.Valid) (n : ℕ) : (Civil.tick^[n] c).Valid ∧
    (Civil.tick^[n] c).seconds = c.seconds + n := by
  induction n with
  | zero => exact ⟨h, rfl⟩
  | succ n ih =>
    rw [Function.iterate_succ_apply']
    exact ⟨ih.1.tick, by rw [ih.1.seconds_tick, ih.2, Nat.add_assoc]⟩

end Civil

end Calendar
