import ADEiger.Rfc3339
import Mathlib.Algebra.Order.Ring.Int
import Mathlib.Order.Monotone.Basic
import Mathlib.Order.SuccPred.IntervalSucc
import Mathlib.Tactic.IntervalCases

/-! The calendar behind `timegm` and `gmtime`.
The count of days goes from month to month by their lengths; with that a broken-down time whose
fields are in range is the only one for its second. -/
namespace Rfc3339

section Months

def Leap (year : ℤ) : Prop := year % 4 = 0 ∧ (year % 100 ≠ 0 ∨ year % 400 = 0)

instance (year : ℤ) : Decidable (Leap year) := inferInstanceAs (Decidable (_ ∧ (_ ∨ _)))

def monthDays (year month : ℤ) : ℤ :=
  if month = 2 then (if Leap year then 29 else 28)
  else if month = 4 ∨ month = 6 ∨ month = 9 ∨ month = 11 then 30 else 31

/-- The days before the first of March of a year, from that of the year 0 on. -/
def marchDays (year : ℤ) : ℤ :=
  year / 400 * 146097 + (year % 400 * 365 + year % 400 / 4 - year % 400 / 100)

theorem daysFromCivil_eq (year month day : ℤ) : daysFromCivil year month day =
    marchDays (if month ≤ 2 then year - 1 else year) + (153 * ((month + 9) % 12) + 2) / 5 + day -
      719469 := by
  simp only [daysFromCivil, marchDays]
  omega

/-- A leap day ends the year that begins in March. -/
theorem marchDays_step (year : ℤ) :
    marchDays year = marchDays (year - 1) + if Leap year then 366 else 365 := by
  by_cases hzero : year % 400 = 0
  · have hleap : Leap year := by
      rw [Leap]
      omega
    have hlast : (year - 1) / 400 = year / 400 - 1 ∧ (year - 1) % 400 = 399 := by omega
    rw [if_pos hleap, marchDays, marchDays, hlast.1, hlast.2, hzero]
    omega
  · have hlast : (year - 1) / 400 = year / 400 ∧ (year - 1) % 400 = year % 400 - 1 := by omega
    rw [marchDays, marchDays, hlast.1, hlast.2]
    by_cases hleap : Leap year
    · rw [if_pos hleap]
      rw [Leap] at hleap
      omega
    · rw [if_neg hleap]
      rw [Leap] at hleap
      omega

theorem epoch : daysFromCivil 1970 1 1 = 0 := by decide

theorem month_step {year month : ℤ} (h : 1 ≤ month ∧ month < 12) :
    daysFromCivil year (month + 1) 1 = daysFromCivil year month 1 + monthDays year month := by
  have hmarch := marchDays_step year
  obtain ⟨hlow, hhigh⟩ := h
  rw [daysFromCivil_eq, daysFromCivil_eq, monthDays]
  by_cases hleap : Leap year
  · rw [if_pos hleap] at hmarch ⊢
    interval_cases month <;> simp at hmarch ⊢ <;> omega
  · rw [if_neg hleap] at hmarch ⊢
    interval_cases month <;> simp at hmarch ⊢ <;> omega

theorem year_step (year : ℤ) :
    daysFromCivil (year + 1) 1 1 = daysFromCivil year 12 1 + monthDays year 12 := by
  rw [daysFromCivil_eq, daysFromCivil_eq, monthDays, if_pos (by decide), if_neg (by decide),
    if_neg (by decide), if_neg (by decide), Int.add_sub_cancel]
  omega

theorem monthDays_pos (year month : ℤ) : 0 < monthDays year month := by
  rw [monthDays]
  split_ifs <;> decide

/-- The first of a month, by the number of months from the year 0 on. -/
def monthStart (i : ℤ) : ℤ := daysFromCivil (i / 12) (i % 12 + 1) 1

theorem monthStart_eq {year month : ℤ} (h : 1 ≤ month ∧ month ≤ 12) :
    monthStart (12 * year + (month - 1)) = daysFromCivil year month 1 := by
  have hyear : (12 * year + (month - 1)) / 12 = year := by omega
  have hmonth : (12 * year + (month - 1)) % 12 + 1 = month := by omega
  rw [monthStart, hyear, hmonth]

theorem monthStart_succ (i : ℤ) :
    monthStart (i + 1) = monthStart i + monthDays (i / 12) (i % 12 + 1) := by
  by_cases hlast : i % 12 = 11
  · have hnext : (i + 1) / 12 = i / 12 + 1 ∧ (i + 1) % 12 + 1 = 1 := by omega
    rw [monthStart, monthStart, hnext.1, hnext.2, hlast]
    exact year_step _
  · have hnext : (i + 1) / 12 = i / 12 ∧ (i + 1) % 12 = i % 12 + 1 := by omega
    rw [monthStart, monthStart, hnext.1, hnext.2]
    exact month_step (by omega)

theorem monthStart_le {i j : ℤ} (h : i ≤ j) : monthStart i ≤ monthStart j := by
  refine monotone_int_of_le_succ (fun i => ?_) h
  rw [monthStart_succ]
  have hpos := monthDays_pos (i / 12) (i % 12 + 1)
  omega

/-- The date is one of the calendar. -/
structure Civil.InRange (date : Civil) : Prop where
  month : 1 ≤ date.month ∧ date.month ≤ 12
  day : 1 ≤ date.day ∧ date.day ≤ monthDays date.year date.month

theorem date_unique {date date' : Civil} (h : date.InRange) (h' : date'.InRange)
    (hdays : daysFromCivil date.year date.month date.day =
      daysFromCivil date'.year date'.month date'.day) : date = date' := by
  obtain ⟨year, month, day⟩ := date
  obtain ⟨year', month', day'⟩ := date'
  obtain ⟨hm, hd⟩ := h
  obtain ⟨hm', hd'⟩ := h'
  dsimp only at *
  rw [daysFromCivil_day, daysFromCivil_day year', ← monthStart_eq hm, ← monthStart_eq hm'] at hdays
  generalize hi : 12 * year + (month - 1) = i at hdays
  generalize hj : 12 * year' + (month' - 1) = j at hdays
  have hiy : i / 12 = year ∧ i % 12 + 1 = month := by omega
  have hjy : j / 12 = year' ∧ j % 12 + 1 = month' := by omega
  have hnext := monthStart_succ i
  have hnext' := monthStart_succ j
  rw [hiy.1, hiy.2] at hnext
  rw [hjy.1, hjy.2] at hnext'
  rcases Int.lt_trichotomy i j with hlt | heq | hgt
  · have hle := monthStart_le (show i + 1 ≤ j by omega)
    omega
  · have hyear : year = year' := by omega
    have hmonth : month = month' := by omega
    have hday : day = day' := by
      rw [heq] at hdays
      omega
    rw [hyear, hmonth, hday]
  · have hle := monthStart_le (show j + 1 ≤ i by omega)
    omega

theorem march_day {n m : ℤ} (hm : m = (5 * n + 2) / 153) :
    0 ≤ n - (153 * m + 2) / 5 ∧ n - (153 * m + 2) / 5 ≤ 30 ∧
      (m = 1 ∨ m = 3 ∨ m = 6 ∨ m = 8 → n - (153 * m + 2) / 5 ≤ 29) ∧
        (m = 11 → n - (153 * m + 2) / 5 = n - 337) := by
  omega

theorem civil_inRange (days : ℤ) : (civilFromDays days).InRange := by
  refine ⟨(civil_days days).2, ?_⟩
  simp only [civilFromDays]
  generalize hd : (days + 719468) % 146097 = d
  generalize hc : min 3 (d / 36524) = c
  generalize hr : d - c * 36524 = r
  generalize hy : min 3 (r % 1461 / 365) = y
  generalize hn : r % 1461 - y * 365 = n
  generalize hm : (5 * n + 2) / 153 = m
  have hd' : 0 ≤ d ∧ d < 146097 := by omega
  obtain ⟨hcentury, hfour, hyear, hday, hsum⟩ := cycles hd' hc.symm hr.symm hy.symm hn.symm
  obtain ⟨hlow, hhigh, hthirty, hfeb⟩ := march_day hm.symm
  generalize hera : (days + 719468) / 146097 = era
  -- the leap day is the last of its year
  have hleap : n = 365 → Leap (era * 400 + c * 100 + r / 1461 * 4 + y + 1) := by
    intro hlast
    have hy3 : y = 3 := by omega
    have hcentury : r / 1461 = 24 → c = 3 := by omega
    rw [Leap]
    omega
  have hm11 : 0 ≤ m ∧ m ≤ 11 := by omega
  refine ⟨by omega, ?_⟩
  generalize era * 400 + c * 100 + r / 1461 * 4 + y = year at hleap ⊢
  generalize hmonth : (if m < 10 then m + 3 else m - 9) = month
  by_cases hlast : m = 11
  · have hmonth2 : month = 2 := by omega
    have hnext : (if month ≤ 2 then year + 1 else year) = year + 1 := if_pos (by omega)
    rw [hnext, monthDays, if_pos hmonth2, hfeb hlast]
    by_cases hl : Leap (year + 1)
    · rw [if_pos hl]
      omega
    · rw [if_neg hl]
      have hn365 : n ≠ 365 := mt hleap hl
      omega
  · have hmonth2 : month ≠ 2 := by omega
    rw [monthDays, if_neg hmonth2]
    by_cases hshort : month = 4 ∨ month = 6 ∨ month = 9 ∨ month = 11
    · rw [if_pos hshort]
      have hday := hthirty (by omega)
      omega
    · rw [if_neg hshort]
      omega

end Months

section BrokenDown

/-- A broken-down time of UTC. -/
structure Tm.InRange (tm : Tm) : Prop where
  sec : 0 ≤ tm.sec ∧ tm.sec < 60
  min : 0 ≤ tm.min ∧ tm.min < 60
  hour : 0 ≤ tm.hour ∧ tm.hour < 24
  date : Civil.InRange ⟨tm.year + 1900, tm.mon + 1, tm.mday⟩
  gmtoff : tm.gmtoff = 0

theorem gmtime_inRange (time : ℤ) : (gmtime time).InRange := by
  have hdate := civil_inRange (time / 86400)
  obtain ⟨hmonth, hday⟩ := hdate
  refine ⟨?_, ?_, ?_, ⟨?_, ?_⟩, rfl⟩
  · simp only [gmtime]
    omega
  · simp only [gmtime]
    omega
  · simp only [gmtime]
    omega
  · simp only [gmtime, Int.sub_add_cancel]
    exact hmonth
  · simp only [gmtime, Int.sub_add_cancel]
    exact hday

theorem timegm_inRange {tm : Tm} (h : tm.InRange) : timegm tm =
    86400 * daysFromCivil (tm.year + 1900) (tm.mon + 1) tm.mday +
      (3600 * tm.hour + 60 * tm.min + tm.sec) := by
  obtain ⟨hmonth, -⟩ := h.date
  dsimp only at hmonth
  have hyear : tm.year + 1900 + tm.mon / 12 = tm.year + 1900 := by omega
  have hmon : tm.mon % 12 + 1 = tm.mon + 1 := by omega
  rw [timegm, hyear, hmon, daysFromCivil_day (tm.year + 1900) (tm.mon + 1) tm.mday]
  omega

theorem timegm_unique {tm tm' : Tm} (h : tm.InRange) (h' : tm'.InRange)
    (htime : timegm tm = timegm tm') : tm = tm' := by
  rw [timegm_inRange h, timegm_inRange h'] at htime
  obtain ⟨hsec, hmin, hhour, hdate, hoff⟩ := h
  obtain ⟨hsec', hmin', hhour', hdate', hoff'⟩ := h'
  have hdays : daysFromCivil (tm.year + 1900) (tm.mon + 1) tm.mday =
      daysFromCivil (tm'.year + 1900) (tm'.mon + 1) tm'.mday := by omega
  have hsame := Civil.mk.inj (date_unique hdate hdate' hdays)
  obtain ⟨sec, min, hour, mday, mon, year, gmtoff⟩ := tm
  obtain ⟨sec', min', hour', mday', mon', year', gmtoff'⟩ := tm'
  simp only [Tm.mk.injEq] at *
  omega

theorem gmtime_injective {time time' : ℤ} (h : gmtime time = gmtime time') : time = time' := by
  rw [← timegm_gmtime time, h, timegm_gmtime]

end BrokenDown

end Rfc3339
