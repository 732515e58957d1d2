import ADEiger.CString
import Mathlib.Data.List.Basic
import Mathlib.Data.Nat.Notation
import Mathlib.Data.Int.Basic
import Mathlib.Algebra.Group.Nat.Defs
import Mathlib.Tactic.SplitIfs

/-! The time stamps of `rfc3339.h`: the two patterns, the calendar and the conversion. -/
namespace Rfc3339

open CString (Text digitsValue)

section Calendar

/-- Days from the first of January 1970, in the proleptic Gregorian calendar. -/
def daysFromCivil (year month day : ℤ) : ℤ :=
  let y := if month ≤ 2 then year - 1 else year
  let yearOfEra := y % 400
  let dayOfYear := (153 * ((month + 9) % 12) + 2) / 5 + day - 1
  y / 400 * 146097 + (yearOfEra * 365 + yearOfEra / 4 - yearOfEra / 100 + dayOfYear) - 719468

structure Civil where
  year : ℤ
  month : ℤ
  day : ℤ
  deriving DecidableEq, Repr

/-- The year begins in March, so that its leap day is the last. -/
def civilFromDays (days : ℤ) : Civil :=
  let dayOfEra := (days + 719468) % 146097
  let century := min 3 (dayOfEra / 36524)
  let dayOfCentury := dayOfEra - century * 36524
  let yearOfFour := min 3 (dayOfCentury % 1461 / 365)
  let dayOfYear := dayOfCentury % 1461 - yearOfFour * 365
  let march := (5 * dayOfYear + 2) / 153
  let month := if march < 10 then march + 3 else march - 9
  let year := (days + 719468) / 146097 * 400 + century * 100 + dayOfCentury / 1461 * 4 + yearOfFour
  ⟨if month ≤ 2 then year + 1 else year, month, dayOfYear - (153 * march + 2) / 5 + 1⟩

/-- `struct tm`: `mon` counts from January, `year` from 1900. -/
structure Tm where
  sec : ℤ
  min : ℤ
  hour : ℤ
  mday : ℤ
  mon : ℤ
  year : ℤ
  gmtoff : ℤ
  deriving DecidableEq, Repr

/-- Fields outside their ranges are carried over. -/
def timegm (tm : Tm) : ℤ :=
  86400 * (daysFromCivil (tm.year + 1900 + tm.mon / 12) (tm.mon % 12 + 1) 1 + tm.mday - 1) +
    3600 * tm.hour + 60 * tm.min + tm.sec

def gmtime (time : ℤ) : Tm :=
  let date := civilFromDays (time / 86400)
  let secs := time % 86400
  ⟨secs % 60, secs / 60 % 60, secs / 3600, date.day, date.month - 1, date.year - 1900, 0⟩

theorem cycles {d c r y n : ℤ} (hd : 0 ≤ d ∧ d < 146097) (hc : c = min 3 (d / 36524))
    (hr : r = d - c * 36524) (hy : y = min 3 (r % 1461 / 365)) (hn : n = r % 1461 - y * 365) :
    (0 ≤ c ∧ c ≤ 3) ∧ (0 ≤ r / 1461 ∧ r / 1461 ≤ 24) ∧ (0 ≤ y ∧ y ≤ 3) ∧ (0 ≤ n ∧ n ≤ 365) ∧
      d = 36524 * c + 1461 * (r / 1461) + 365 * y + n := by
  have hcentury : 0 ≤ c ∧ c ≤ 3 ∧ 0 ≤ r ∧ r ≤ 36524 := by omega
  have hfour : 0 ≤ r / 1461 ∧ r / 1461 ≤ 24 ∧ r = 1461 * (r / 1461) + r % 1461 := by omega
  have hyear : 0 ≤ y ∧ y ≤ 3 ∧ 0 ≤ n ∧ n ≤ 365 := by omega
  omega

theorem month_day {n m : ℤ} (hn : 0 ≤ n ∧ n ≤ 365) (hm : m = (5 * n + 2) / 153) :
    let month := if m < 10 then m + 3 else m - 9
    (month + 9) % 12 = m ∧ (1 ≤ month ∧ month ≤ 12) := by
  dsimp only
  split_ifs <;> omega

theorem civil_days (days : ℤ) : daysFromCivil (civilFromDays days).year (civilFromDays days).month
      (civilFromDays days).day = days ∧
    (1 ≤ (civilFromDays days).month ∧ (civilFromDays days).month ≤ 12) := by
  simp only [civilFromDays]
  generalize hd : (days + 719468) % 146097 = d
  generalize hc : min 3 (d / 36524) = c
  generalize hr : d - c * 36524 = r
  generalize hy : min 3 (r % 1461 / 365) = y
  generalize hn : r % 1461 - y * 365 = n
  generalize hm : (5 * n + 2) / 153 = m
  have hd' : 0 ≤ d ∧ d < 146097 := by omega
  obtain ⟨hcentury, hfour, hyear, hday, hsum⟩ := cycles hd' hc.symm hr.symm hy.symm hn.symm
  obtain ⟨hmarch, hmonth⟩ := month_day hday hm.symm
  refine ⟨?_, hmonth⟩
  simp only [daysFromCivil]
  rw [hmarch]
  generalize hmo : (if m < 10 then m + 3 else m - 9) = month at hmonth ⊢
  have hstart : ∀ z : ℤ, (if month ≤ 2 then (if month ≤ 2 then z + 1 else z) - 1
      else if month ≤ 2 then z + 1 else z) = z := by
    intro z
    split_ifs <;> omega
  rw [hstart]
  generalize r / 1461 = f at *
  generalize hera : (days + 719468) / 146097 = era
  have hyears : (era * 400 + c * 100 + f * 4 + y) / 400 = era ∧
      (era * 400 + c * 100 + f * 4 + y) % 400 = c * 100 + f * 4 + y := by omega
  have hleap : (c * 100 + f * 4 + y) / 4 = c * 25 + f ∧ (c * 100 + f * 4 + y) / 100 = c := by omega
  rw [hyears.1, hyears.2, hleap.1, hleap.2]
  omega

theorem daysFromCivil_day (year month day : ℤ) :
    daysFromCivil year month day = daysFromCivil year month 1 + day - 1 := by
  simp only [daysFromCivil]
  omega

theorem timegm_gmtime (time : ℤ) : timegm (gmtime time) = time := by
  obtain ⟨hdays, hmonth⟩ := civil_days (time / 86400)
  rw [daysFromCivil_day] at hdays
  simp only [timegm, gmtime]
  generalize civilFromDays (time / 86400) = date at hdays hmonth ⊢
  have hyear : date.year - 1900 + 1900 + (date.month - 1) / 12 = date.year := by omega
  have hmon : (date.month - 1) % 12 + 1 = date.month := by omega
  rw [hyear, hmon]
  omega

end Calendar

section Patterns

def digitValue (c : Char) : ℕ := c.toNat - 48

/-- `\d` so many times, and the number read. -/
def readDigits : ℕ → ℕ → Text → Option (ℕ × Text)
  | 0, value, t => some (value, t)
  | _ + 1, _, [] => none
  | n + 1, value, c :: t =>
    if c.isDigit then readDigits n (10 * value + digitValue c) t else none

def readChar (allowed : List Char) : Text → Option (Char × Text)
  | [] => none
  | c :: t => if c ∈ allowed then some (c, t) else none

/-- The group of the fraction is optional, but nothing else begins with a period. -/
def readFraction (t : Text) : Option (Text × Text) :=
  match t with
  | '.' :: t =>
    let digits := t.takeWhile Char.isDigit
    if 1 ≤ digits.length ∧ digits.length ≤ 9 then some (digits, t.drop digits.length) else none
  | t => some ([], t)

/-- `OFFSET_PATTERN`. -/
def matchOffset (t : Text) : Option (Char × ℕ × ℕ) := do
  let (sign, t) ← readChar ['+', '-'] t
  let (hours, t) ← readDigits 2 0 t
  let (_, t) ← readChar [':'] t
  let (minutes, t) ← readDigits 2 0 t
  if t = [] then some (sign, hours, minutes) else none

/-- The groups of `PATTERN`. -/
structure Match where
  year : ℕ
  month : ℕ
  day : ℕ
  hour : ℕ
  minute : ℕ
  second : ℕ
  fraction : Text
  offset : Text
  deriving DecidableEq, Repr

def matchPattern (t : Text) : Option Match := do
  let (year, t) ← readDigits 4 0 t
  let (_, t) ← readChar ['-'] t
  let (month, t) ← readDigits 2 0 t
  let (_, t) ← readChar ['-'] t
  let (day, t) ← readDigits 2 0 t
  let (_, t) ← readChar ['T', 't', ' '] t
  let (hour, t) ← readDigits 2 0 t
  let (_, t) ← readChar [':'] t
  let (minute, t) ← readDigits 2 0 t
  let (_, t) ← readChar [':'] t
  let (second, t) ← readDigits 2 0 t
  let (fraction, offset) ← readFraction t
  if offset = [] ∨ offset = ['Z'] ∨ (matchOffset offset).isSome then
    some ⟨year, month, day, hour, minute, second, fraction, offset⟩
  else none

end Patterns

section Conversion

structure GmTmNanoSec where
  ansiTm : Tm
  nSec : ℕ
  deriving DecidableEq, Repr

def ZERO : GmTmNanoSec := ⟨⟨0, 0, 0, 0, 0, 0, 0⟩, 0⟩

def SCALE : List ℕ :=
  [0, 100000000, 10000000, 1000000, 100000, 10000, 1000, 100, 10, 1]

def gmtOffset (offset : Text) : Option ℤ :=
  if 1 < offset.length then
    (matchOffset offset).map fun (sign, hours, minutes) =>
      (if sign = '-' then -1 else 1) * ((hours : ℤ) * 3600 + minutes * 60)
  else some 0

def Match.localTm (m : Match) : Tm :=
  ⟨m.second, m.minute, m.hour, m.day, (m.month : ℤ) - 1, (m.year : ℤ) - 1900, 0⟩

def parseRfc3339Timestamp (ts : Text) : GmTmNanoSec :=
  match matchPattern ts with
  | none => ZERO
  | some m =>
    match gmtOffset m.offset with
    | none => ZERO
    | some gmtOffsetSec =>
      ⟨gmtime (timegm m.localTm - gmtOffsetSec),
        digitsValue m.fraction * SCALE.getD m.fraction.length 0⟩

end Conversion

/-! What the standard calls a date-time, and how it is written. -/
section DateTimes

inductive Zone where
  | utc (lower : Bool)
  | offset (negative : Bool) (hour minute : ℕ)
  deriving DecidableEq, Repr

def leapYear (year : ℕ) : Bool := year % 4 = 0 && (year % 100 ≠ 0 || year % 400 = 0)

def daysInMonth (year month : ℕ) : ℕ :=
  if month = 2 then (if leapYear year then 29 else 28)
  else if month ∈ [4, 6, 9, 11] then 30 else 31

def Zone.Valid : Zone → Prop
  | .utc _ => True
  | .offset _ hour minute => hour < 24 ∧ minute < 60

/-- The digits of the fraction are numbers below ten. -/
structure DateTime where
  year : ℕ
  month : ℕ
  day : ℕ
  separator : Char
  hour : ℕ
  minute : ℕ
  second : ℕ
  fraction : List ℕ
  zone : Zone
  validYear : year < 10000
  validMonth : 1 ≤ month ∧ month ≤ 12
  validDay : 1 ≤ day ∧ day ≤ daysInMonth year month
  validSeparator : separator ∈ ['T', 't', ' ']
  validHour : hour < 24
  validMinute : minute < 60
  validSecond : second ≤ 60
  validFraction : ∀ d ∈ fraction, d < 10
  validZone : zone.Valid

def digitChar (d : ℕ) : Char := Char.ofNat (48 + d)

def digits2 (n : ℕ) : Text := [digitChar (n / 10), digitChar (n % 10)]

def digits4 (n : ℕ) : Text := digits2 (n / 100) ++ digits2 (n % 100)

def Zone.text : Zone → Text
  | .utc lower => [if lower then 'z' else 'Z']
  | .offset negative hour minute =>
    (if negative then '-' else '+') :: (digits2 hour ++ ':' :: digits2 minute)

def fractionText (fraction : List ℕ) : Text :=
  if fraction = [] then [] else '.' :: fraction.map digitChar

namespace DateTime

def text (d : DateTime) : Text :=
  digits4 d.year ++ '-' :: (digits2 d.month ++ '-' :: (digits2 d.day ++ d.separator ::
    (digits2 d.hour ++ ':' :: (digits2 d.minute ++ ':' :: (digits2 d.second ++
      (fractionText d.fraction ++ d.zone.text))))))

/-- The seconds of the zone ahead of UTC. -/
def offsetSeconds (d : DateTime) : ℤ :=
  match d.zone with
  | .utc _ => 0
  | .offset negative hour minute =>
    (if negative then -1 else 1) * ((hour : ℤ) * 3600 + minute * 60)

/-- Seconds from the start of 1970. -/
def seconds (d : DateTime) : ℤ :=
  86400 * daysFromCivil d.year d.month d.day + 3600 * d.hour + 60 * d.minute + d.second -
    d.offsetSeconds

/-- Of a fraction of at most nine digits. -/
def nanoseconds (d : DateTime) : ℕ :=
  d.fraction.foldl (fun v digit => 10 * v + digit) 0 * 10 ^ (9 - d.fraction.length)

/-- What the patterns leave out: more than nine digits and the small letter of UTC. -/
def Readable (d : DateTime) : Prop := d.fraction.length ≤ 9 ∧ d.zone ≠ .utc true

end DateTime

end DateTimes

section Reading

variable {t : Text} {n v : ℕ}

theorem digitChar_spec (d : ℕ) (hd : d < 10) :
    (digitChar d).isDigit = true ∧ digitValue (digitChar d) = d := by
  have hall : ∀ d < 10, (digitChar d).isDigit = true ∧ digitValue (digitChar d) = d := by decide
  exact hall d hd

theorem readDigits_digits2 (hn : n < 100) :
    readDigits 2 v (digits2 n ++ t) = some (100 * v + n, t) := by
  obtain ⟨hten, hten'⟩ := digitChar_spec (n / 10) (by omega)
  obtain ⟨hone, hone'⟩ := digitChar_spec (n % 10) (by omega)
  have hvalue : 10 * (10 * v + n / 10) + n % 10 = 100 * v + n := by omega
  simp only [digits2, List.cons_append, List.nil_append, readDigits, hten, hone, hten', hone',
    if_true, hvalue]

theorem readDigits_add (m n v : ℕ) (t : Text) :
    readDigits (m + n) v t = (readDigits m v t).bind fun r => readDigits n r.1 r.2 := by
  induction m generalizing v t with
  | zero =>
    rw [Nat.zero_add]
    rfl
  | succ m ih =>
    rw [Nat.succ_add]
    cases t with
    | nil => rfl
    | cons c t =>
      simp only [readDigits]
      by_cases hc : c.isDigit = true
      · rw [if_pos hc, if_pos hc, ih]
      · rw [if_neg hc, if_neg hc]
        rfl

theorem readDigits_digits4 (hn : n < 10000) :
    readDigits 4 0 (digits4 n ++ t) = some (n, t) := by
  have hvalue : 100 * (100 * 0 + n / 100) + n % 100 = n := by omega
  rw [show 4 = 2 + 2 from rfl, readDigits_add, digits4, List.append_assoc,
    readDigits_digits2 (by omega), Option.bind_some, readDigits_digits2 (by omega), hvalue]

theorem readChar_cons {c : Char} {allowed : List Char} (hc : c ∈ allowed) :
    readChar allowed (c :: t) = some (c, t) := by
  rw [readChar, if_pos hc]

theorem digits_isDigit {ds : List ℕ} (h : ∀ d ∈ ds, d < 10) :
    ∀ c ∈ ds.map digitChar, c.isDigit = true := by
  intro c hc
  obtain ⟨d, hd, rfl⟩ := List.mem_map.mp hc
  exact (digitChar_spec d (h d hd)).1

theorem digitsValue_digits {ds : List ℕ} (h : ∀ d ∈ ds, d < 10) (v : ℕ) :
    (ds.map digitChar).foldl (fun v c => 10 * v + (c.toNat - 48)) v =
      ds.foldl (fun v d => 10 * v + d) v := by
  induction ds generalizing v with
  | nil => rfl
  | cons d ds ih =>
    obtain ⟨hd, hds⟩ := List.forall_mem_cons.mp h
    have hvalue : (digitChar d).toNat - 48 = d := (digitChar_spec d hd).2
    simp only [List.map_cons, List.foldl_cons]
    rw [hvalue]
    exact ih hds _

/-- Nothing of a zone looks like a digit or a fraction. -/
theorem Zone.text_head (zone : Zone) :
    ∃ c u, zone.text = c :: u ∧ c.isDigit = false ∧ c ≠ '.' := by
  cases zone with
  | utc lower => cases lower <;> exact ⟨_, _, rfl, by decide, by decide⟩
  | offset negative hour minute => cases negative <;> exact ⟨_, _, rfl, by decide, by decide⟩

/-- What follows a fraction does not look like more of it. -/
def AfterFraction (t : Text) : Prop := ∀ c u, t = c :: u → c.isDigit = false ∧ c ≠ '.'

theorem Zone.text_after (zone : Zone) : AfterFraction zone.text := by
  intro c u hcu
  obtain ⟨c', u', hzone, hc⟩ := zone.text_head
  obtain ⟨rfl, -⟩ := List.cons.inj (hcu.symm.trans hzone)
  exact hc

theorem readFraction_text {fraction : List ℕ} (hafter : AfterFraction t)
    (h : ∀ d ∈ fraction, d < 10) (hlen : fraction.length ≤ 9) :
    readFraction (fractionText fraction ++ t) = some (fraction.map digitChar, t) := by
  rw [fractionText]
  by_cases hnil : fraction = []
  · rw [if_pos hnil, hnil, List.nil_append, readFraction]
    · rfl
    · intro u hu
      exact (hafter _ u hu).2 rfl
  · rw [if_neg hnil, List.cons_append, readFraction]
    have hstop : t.takeWhile Char.isDigit = [] := by
      cases t with
      | nil => rfl
      | cons c u => exact List.takeWhile_cons_of_neg (by simp [(hafter c u rfl).1])
    have htake : ((fraction.map digitChar) ++ t).takeWhile Char.isDigit =
        fraction.map digitChar := by
      rw [List.takeWhile_append_of_pos (digits_isDigit h), hstop, List.append_nil]
    have hpos : 1 ≤ fraction.length := List.length_pos_iff.mpr hnil
    simp only [htake, List.length_map]
    rw [if_pos ⟨hpos, hlen⟩, List.drop_left' (by rw [List.length_map])]

theorem matchOffset_text {negative : Bool} {hour minute : ℕ} (hh : hour < 100)
    (hm : minute < 100) : matchOffset (Zone.offset negative hour minute).text =
      some (if negative then '-' else '+', hour, minute) := by
  have hsign : (if negative then '-' else '+') ∈ ['+', '-'] := by cases negative <;> decide
  have hminute : readDigits 2 0 (digits2 minute) = some (100 * 0 + minute, []) := by
    rw [← List.append_nil (digits2 minute)]
    exact readDigits_digits2 hm
  simp only [matchOffset, Zone.text, readChar_cons hsign, Option.bind_eq_bind, Option.bind_some,
    readDigits_digits2 hh, readChar_cons List.mem_cons_self, hminute, Nat.mul_zero, Nat.zero_add,
    if_true]

/-- A text that is made of the numbers of the pattern, a fraction and an offset. -/
def fieldsText (year month day : ℕ) (separator : Char) (hour minute second : ℕ)
    (fraction : List ℕ) (offset : Text) : Text :=
  digits4 year ++ '-' :: (digits2 month ++ '-' :: (digits2 day ++ separator ::
    (digits2 hour ++ ':' :: (digits2 minute ++ ':' :: (digits2 second ++
      (fractionText fraction ++ offset))))))

theorem matchPattern_fieldsText {year month day hour minute second : ℕ} {separator : Char}
    {fraction : List ℕ} {offset : Text} (hyear : year < 10000) (hmonth : month < 100)
    (hday : day < 100) (hseparator : separator ∈ ['T', 't', ' ']) (hhour : hour < 100)
    (hminute : minute < 100) (hsecond : second < 100) (hfraction : ∀ d ∈ fraction, d < 10)
    (hlen : fraction.length ≤ 9) (hoffset : AfterFraction offset) :
    matchPattern (fieldsText year month day separator hour minute second fraction offset) =
      if offset = [] ∨ offset = ['Z'] ∨ (matchOffset offset).isSome then
        some ⟨year, month, day, hour, minute, second, fraction.map digitChar, offset⟩
      else none := by
  have hsep := readChar_cons (t := digits2 hour ++ ':' :: (digits2 minute ++
    ':' :: (digits2 second ++ (fractionText fraction ++ offset)))) hseparator
  simp only [matchPattern, fieldsText, Option.bind_eq_bind, readDigits_digits4 hyear,
    Option.bind_some, readChar_cons List.mem_cons_self, readDigits_digits2 hmonth,
    readDigits_digits2 hday, hsep, readDigits_digits2 hhour, readDigits_digits2 hminute,
    readDigits_digits2 hsecond, readFraction_text hoffset hfraction hlen, Nat.mul_zero,
    Nat.zero_add]

/-- A fraction by the table is scaled to nine digits. -/
theorem nSec_digits {fraction : List ℕ} (h : ∀ d ∈ fraction, d < 10)
    (hlen : fraction.length ≤ 9) : digitsValue (fraction.map digitChar) *
      SCALE.getD (fraction.map digitChar).length 0 =
        fraction.foldl (fun v digit => 10 * v + digit) 0 * 10 ^ (9 - fraction.length) := by
  have hscale : ∀ n ≤ 9, n ≠ 0 → SCALE.getD n 0 = 10 ^ (9 - n) := by decide
  rw [digitsValue, digitsValue_digits h, List.length_map]
  cases fraction with
  | nil => rfl
  | cons x ds => rw [hscale _ hlen (by simp)]

theorem digits_lt {ds : List ℕ} (h : ∀ d ∈ ds, d < 10) (v : ℕ) :
    ds.foldl (fun v d => 10 * v + d) v < (v + 1) * 10 ^ ds.length := by
  induction ds generalizing v with
  | nil => simp
  | cons d ds ih =>
    obtain ⟨hd, hds⟩ := List.forall_mem_cons.mp h
    rw [List.foldl_cons, List.length_cons, Nat.pow_succ']
    calc ds.foldl (fun v d => 10 * v + d) (10 * v + d)
        < (10 * v + d + 1) * 10 ^ ds.length := ih hds _
      _ ≤ (v + 1) * 10 * 10 ^ ds.length := Nat.mul_le_mul_right _ (by omega)
      _ = (v + 1) * (10 * 10 ^ ds.length) := Nat.mul_assoc _ _ _

theorem scaled_lt {fraction : List ℕ} (h : ∀ d ∈ fraction, d < 10) (hlen : fraction.length ≤ 9) :
    fraction.foldl (fun v digit => 10 * v + digit) 0 * 10 ^ (9 - fraction.length) < 10 ^ 9 := by
  have hlt := digits_lt h 0
  rw [Nat.zero_add, Nat.one_mul] at hlt
  calc fraction.foldl (fun v digit => 10 * v + digit) 0 * 10 ^ (9 - fraction.length)
      < 10 ^ fraction.length * 10 ^ (9 - fraction.length) :=
        Nat.mul_lt_mul_of_pos_right hlt (Nat.pow_pos (by decide))
    _ = 10 ^ 9 := by rw [← Nat.pow_add, Nat.add_sub_cancel' hlen]

namespace DateTime

variable {d : DateTime}

/-- What is matched in the text of a date-time. -/
def groups (d : DateTime) : Match :=
  ⟨d.year, d.month, d.day, d.hour, d.minute, d.second, d.fraction.map digitChar, d.zone.text⟩

theorem offset_text (h : d.Readable) : (d.zone.text = [] ∨ d.zone.text = ['Z'] ∨
    (matchOffset d.zone.text).isSome) ∧ gmtOffset d.zone.text = some d.offsetSeconds := by
  have hvalid := d.validZone
  cases hz : d.zone with
  | utc lower =>
    cases lower with
    | true => exact absurd hz h.2
    | false => exact ⟨.inr (.inl rfl), by simp [offsetSeconds, hz, gmtOffset, Zone.text]⟩
  | offset negative hour minute =>
    rw [hz] at hvalid
    obtain ⟨hhour, hminute⟩ := hvalid
    have hoffset : matchOffset (Zone.offset negative hour minute).text = _ :=
      matchOffset_text (by omega) (by omega)
    refine ⟨.inr (.inr (by rw [hoffset]; rfl)), ?_⟩
    rw [gmtOffset, hoffset, if_pos (by simp [Zone.text, digits2])]
    cases negative <;> simp [offsetSeconds, hz]

theorem day_lt (d : DateTime) : d.month < 100 ∧ d.day < 100 := by
  have hmonth := d.validMonth
  have hday := d.validDay
  have hdays : daysInMonth d.year d.month ≤ 31 := by
    rw [daysInMonth]
    split_ifs <;> decide
  omega

theorem matchPattern_text (h : d.Readable) : matchPattern d.text = some d.groups := by
  obtain ⟨hmonth, hday⟩ := d.day_lt
  have hhour := d.validHour
  have hminute := d.validMinute
  have hsecond := d.validSecond
  have hmatch := matchPattern_fieldsText d.validYear hmonth hday d.validSeparator
    (show d.hour < 100 by omega) (show d.minute < 100 by omega) (show d.second < 100 by omega)
    d.validFraction h.1 d.zone.text_after
  rw [if_pos (offset_text h).1] at hmatch
  exact hmatch

theorem timegm_localTm (d : DateTime) : timegm d.groups.localTm - d.offsetSeconds = d.seconds := by
  have hmonth := d.validMonth
  have hday := daysFromCivil_day d.year d.month d.day
  have hyear : (d.year : ℤ) - 1900 + 1900 + ((d.month : ℤ) - 1) / 12 = d.year := by omega
  have hmon : ((d.month : ℤ) - 1) % 12 + 1 = d.month := by omega
  simp only [timegm, groups, Match.localTm, seconds]
  rw [hyear, hmon, hday]

theorem nSec_eq (h : d.Readable) :
    digitsValue d.groups.fraction * SCALE.getD d.groups.fraction.length 0 = d.nanoseconds :=
  nSec_digits d.validFraction h.1

theorem nanoseconds_lt (h : d.Readable) : d.nanoseconds < 10 ^ 9 := scaled_lt d.validFraction h.1

/-- The conversion of every date-time that the patterns do not leave out. -/
theorem parse_text (h : d.Readable) :
    parseRfc3339Timestamp d.text = ⟨gmtime d.seconds, d.nanoseconds⟩ := by
  rw [parseRfc3339Timestamp, matchPattern_text h]
  have hoffset : gmtOffset d.groups.offset = some d.offsetSeconds := (offset_text h).2
  simp only [hoffset]
  rw [timegm_localTm, nSec_eq h]

example : parseRfc3339Timestamp "2025-12-05T12:34:56.789-04:00".toList =
    ⟨⟨56, 34, 16, 5, 11, 125, 0⟩, 789000000⟩ := by decide

end DateTime

end Reading

end Rfc3339
