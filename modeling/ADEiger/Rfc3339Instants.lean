import ADEiger.Rfc3339Grammar

/-! Which instant a time stamp is converted to, and which texts are taken for one. -/
namespace Rfc3339

open CString (Text)

section Equality

/-- `rfc3339::equals`. -/
def equals (t1 t2 : GmTmNanoSec) : Bool :=
  t1.ansiTm.year == t2.ansiTm.year && t1.ansiTm.mon == t2.ansiTm.mon &&
    t1.ansiTm.mday == t2.ansiTm.mday && t1.ansiTm.hour == t2.ansiTm.hour &&
    t1.ansiTm.min == t2.ansiTm.min && t1.ansiTm.sec == t2.ansiTm.sec &&
    t1.ansiTm.gmtoff == t2.ansiTm.gmtoff && t1.nSec == t2.nSec

theorem equals_iff {t1 t2 : GmTmNanoSec} : equals t1 t2 = true ↔ t1 = t2 := by
  obtain ⟨⟨sec, min, hour, mday, mon, year, gmtoff⟩, nSec⟩ := t1
  obtain ⟨⟨sec', min', hour', mday', mon', year', gmtoff'⟩, nSec'⟩ := t2
  simp only [equals, Bool.and_eq_true, beq_iff_eq, GmTmNanoSec.mk.injEq, Tm.mk.injEq]
  tauto

end Equality

section Instants

/-- The seconds that the offset is ahead of UTC; without one the time is that of UTC. -/
def zoneSeconds : Option Zone → ℤ
  | none => 0
  | some (.utc _) => 0
  | some (.offset negative hour minute) =>
    (if negative then -1 else 1) * ((hour : ℤ) * 3600 + minute * 60)

/-- The seconds since 1970 of the time in the fields. -/
def Fields.seconds (f : Fields) : ℤ :=
  86400 * daysFromCivil f.year f.month f.day + 3600 * f.hour + 60 * f.minute + f.second -
    zoneSeconds f.zone

/-- The fraction, scaled to nine digits. -/
def Fields.nanoseconds (f : Fields) : ℕ :=
  f.fraction.foldl (fun v digit => 10 * v + digit) 0 * 10 ^ (9 - f.fraction.length)

/-- The instant, in nanoseconds since 1970. -/
def Fields.instant (f : Fields) : ℤ := f.seconds * 10 ^ 9 + f.nanoseconds

variable {f : Fields}

theorem Fields.nanoseconds_lt (h : f.Written) : f.nanoseconds < 10 ^ 9 :=
  scaled_lt h.fraction h.length

theorem gmtOffset_zone (h : f.Matched) :
    gmtOffset (zoneText f.zone) = some (zoneSeconds f.zone) := by
  cases hz : f.zone with
  | none => rfl
  | some zone =>
    cases zone with
    | utc lower =>
      cases lower with
      | false => rfl
      | true => exact absurd hz h.letter
    | offset negative hour minute =>
      obtain ⟨hhour, hminute⟩ := h.zone _ _ _ hz
      have hoffset : matchOffset (zoneText (some (.offset negative hour minute))) = _ :=
        matchOffset_text hhour hminute
      have hlen : 1 < (zoneText (some (.offset negative hour minute))).length := by
        simp [zoneText, Zone.text, digits2]
      rw [gmtOffset, if_pos hlen, hoffset]
      cases negative <;> rfl

/-- What a text of the pattern is converted to, whatever its numbers are. -/
theorem parse_matched (h : f.Matched) : parseRfc3339Timestamp f.text =
    ⟨gmtime (timegm f.groups.localTm - zoneSeconds f.zone), f.nanoseconds⟩ := by
  rw [parseRfc3339Timestamp, matchPattern_written h.toWritten, if_pos h.letter]
  have hoffset : gmtOffset f.groups.offset = some (zoneSeconds f.zone) := gmtOffset_zone h
  simp only [hoffset]
  exact congrArg _ (nSec_digits h.fraction h.length)

theorem timegm_fields (hmonth : 1 ≤ f.month ∧ f.month ≤ 12) :
    timegm f.groups.localTm - zoneSeconds f.zone = f.seconds := by
  have hday := daysFromCivil_day f.year f.month f.day
  have hyear : (f.year : ℤ) - 1900 + 1900 + ((f.month : ℤ) - 1) / 12 = f.year := by omega
  have hmon : ((f.month : ℤ) - 1) % 12 + 1 = f.month := by omega
  simp only [timegm, Fields.groups, Match.localTm, Fields.seconds]
  rw [hyear, hmon, hday]

/-- A time stamp as `rfc3339.h` documents it. -/
structure TimeStamp extends Fields where
  matched : toFields.Matched
  date : Civil.InRange ⟨year, month, day⟩
  validHour : hour ≤ 23
  validMinute : minute ≤ 59
  validSecond : second ≤ 59
  validOffset : ∀ negative hours minutes, zone = some (.offset negative hours minutes) →
    60 * hours + minutes < 60 * 24

/-- A result is the time in UTC of an instant: its numbers are in range, and it is the only such
time for the second. -/
structure Converted (r : GmTmNanoSec) (seconds : ℤ) (nanoseconds : ℕ) : Prop where
  inRange : r.ansiTm.InRange
  second : timegm r.ansiTm = seconds
  unique : ∀ tm : Tm, tm.InRange → timegm tm = seconds → tm = r.ansiTm
  nSec : r.nSec = nanoseconds

theorem gmtime_converted (seconds : ℤ) (nanoseconds : ℕ) :
    Converted ⟨gmtime seconds, nanoseconds⟩ seconds nanoseconds where
  inRange := gmtime_inRange seconds
  second := timegm_gmtime seconds
  unique _ htm htime :=
    timegm_unique htm (gmtime_inRange seconds) (htime.trans (timegm_gmtime seconds).symm)
  nSec := rfl

theorem TimeStamp.parse_text (ts : TimeStamp) :
    parseRfc3339Timestamp ts.text = ⟨gmtime ts.seconds, ts.nanoseconds⟩ := by
  rw [parse_matched ts.matched, timegm_fields]
  have hmonth := ts.date.month
  dsimp only at hmonth
  omega

theorem gmtime_ne_zero (time : ℤ) (nSec : ℕ) : (⟨gmtime time, nSec⟩ : GmTmNanoSec) ≠ ZERO := by
  intro h
  have hday := (gmtime_inRange time).date.day.1
  rw [(GmTmNanoSec.mk.inj h).1] at hday
  exact absurd hday (by decide)

theorem parse_zero_iff (t : Text) : parseRfc3339Timestamp t = ZERO ↔ t ∉ PATTERN.matches' := by
  rw [mem_pattern]
  constructor
  · rintro h ⟨f, hf, rfl⟩
    rw [parse_matched hf] at h
    exact gmtime_ne_zero _ _ h
  · intro h
    have hnone : matchPattern t = none := by
      by_contra hsome
      exact h ((matchPattern_isSome_iff t).mp (Option.isSome_iff_ne_none.mpr hsome))
    rw [parseRfc3339Timestamp, hnone]

theorem TimeStamp.instant_iff (ts ts' : TimeStamp) : ts.instant = ts'.instant ↔
    ts.seconds = ts'.seconds ∧ ts.nanoseconds = ts'.nanoseconds := by
  have hlt := Fields.nanoseconds_lt ts.matched.toWritten
  have hlt' := Fields.nanoseconds_lt ts'.matched.toWritten
  simp only [Fields.instant]
  omega

/-- For all time stamps, and for the texts that are none. -/
theorem timestamps_converted :
    (∀ ts : TimeStamp,
      Converted (parseRfc3339Timestamp ts.text) ts.seconds ts.nanoseconds) ∧
    (∀ ts ts' : TimeStamp,
      equals (parseRfc3339Timestamp ts.text) (parseRfc3339Timestamp ts'.text) = true ↔
        ts.instant = ts'.instant) ∧
    ∀ t : Text, equals (parseRfc3339Timestamp t) ZERO = true ↔ t ∉ PATTERN.matches' := by
  refine ⟨fun ts => ?_, fun ts ts' => ?_, fun t => ?_⟩
  · rw [ts.parse_text]
    exact gmtime_converted _ _
  · rw [equals_iff, ts.parse_text, ts'.parse_text, GmTmNanoSec.mk.injEq, TimeStamp.instant_iff]
    exact and_congr ⟨gmtime_injective, congrArg gmtime⟩ Iff.rfl
  · rw [equals_iff, parse_zero_iff]

/-- Half an hour before the end of 2024, where UTC is an hour ahead. -/
def newYearsEve : TimeStamp where
  year := 2024
  month := 12
  day := 31
  separator := 'T'
  hour := 23
  minute := 30
  second := 0
  fraction := [2, 5]
  zone := some (.offset true 1 0)
  matched := by
    refine ⟨⟨by decide, by decide, by decide, by decide, by decide, by decide, by decide,
      by decide, by decide, ?_⟩, by decide⟩
    rintro _ _ _ ⟨⟩
    decide
  date := ⟨by decide, by decide⟩
  validHour := by decide
  validMinute := by decide
  validSecond := by decide
  validOffset := by
    rintro _ _ _ ⟨⟩
    decide

theorem newYearsEve_text : newYearsEve.text = "2024-12-31T23:30:00.25-01:00".toList := by decide

/-- The year is that of UTC. -/
theorem timestamps_converted_newYear :
    parseRfc3339Timestamp "2024-12-31T23:30:00.25-01:00".toList =
      ⟨⟨0, 30, 0, 1, 0, 125, 0⟩, 250000000⟩ := by
  rw [← newYearsEve_text]
  obtain ⟨-, -, hunique, hnSec⟩ := timestamps_converted.1 newYearsEve
  have hrange : Tm.InRange ⟨0, 30, 0, 1, 0, 125, 0⟩ :=
    ⟨by decide, by decide, by decide, ⟨by decide, by decide⟩, rfl⟩
  have htm := hunique _ hrange (by decide)
  have hnano : newYearsEve.nanoseconds = 250000000 := by decide
  rw [hnano] at hnSec
  exact (GmTmNanoSec.mk.injEq ..).mpr ⟨htm.symm, hnSec⟩

end Instants

section Acceptance

/-- The ranges of the standard. The last second of a minute is 58, 59 or 60 by the leap seconds
that were announced. -/
structure Fields.InRange (f : Fields) (lastSecond : ℕ) : Prop where
  date : Civil.InRange ⟨f.year, f.month, f.day⟩
  hour : f.hour < 24
  minute : f.minute < 60
  second : f.second ≤ lastSecond
  zone : ∀ negative hour minute, f.zone = some (.offset negative hour minute) →
    hour < 24 ∧ minute < 60

/-- A date-time of the standard, in either letter case, with a space for the separator or without
an offset, and at most nine digits of a fraction. -/
def IsDateTime (lastSecond : Fields → ℕ) (t : Text) : Prop :=
  ∃ f : Fields, f.Written ∧ f.InRange (lastSecond f) ∧ t = f.text

variable {f g : Fields}

theorem digits_injective {ds es : List ℕ} (hds : ∀ d ∈ ds, d < 10) (hes : ∀ d ∈ es, d < 10)
    (h : ds.map digitChar = es.map digitChar) : ds = es := by
  have hvalues : ∀ {ds : List ℕ}, (∀ d ∈ ds, d < 10) → (ds.map digitChar).map digitValue = ds := by
    intro ds hds
    rw [List.map_map]
    exact (List.map_congr_left fun d hd => (digitChar_spec d (hds d hd)).2).trans (List.map_id _)
  rw [← hvalues hds, h, hvalues hes]

theorem Zone.text_injective {z w : Zone}
    (hz : ∀ negative hour minute, z = .offset negative hour minute → hour < 100 ∧ minute < 100)
    (hw : ∀ negative hour minute, w = .offset negative hour minute → hour < 100 ∧ minute < 100)
    (h : z.text = w.text) : z = w := by
  have hlen := congrArg List.length h
  cases z with
  | utc lower =>
    cases w with
    | utc lower' => cases lower <;> cases lower' <;> first | rfl | exact absurd h (by decide)
    | offset negative hour minute => simp [Zone.text, digits2] at hlen
  | offset negative hour minute =>
    cases w with
    | utc lower => simp [Zone.text, digits2] at hlen
    | offset negative' hour' minute' =>
      obtain ⟨hhour, hminute⟩ := hz _ _ _ rfl
      obtain ⟨hhour', hminute'⟩ := hw _ _ _ rfl
      have hread : matchOffset (Zone.offset negative hour minute).text = _ :=
        matchOffset_text hhour hminute
      rw [h, matchOffset_text hhour' hminute'] at hread
      obtain ⟨hsign, hrest⟩ := Prod.mk.inj (Option.some.inj hread)
      obtain ⟨rfl, rfl⟩ := Prod.mk.inj hrest
      cases negative <;> cases negative' <;> first | rfl | exact absurd hsign (by decide)

theorem zone_injective (hf : f.Written) (hg : g.Written)
    (h : zoneText f.zone = zoneText g.zone) : f.zone = g.zone := by
  have hzf := hf.zone
  have hzg := hg.zone
  generalize f.zone = z at h hzf ⊢
  generalize g.zone = w at h hzg ⊢
  cases z with
  | none =>
    cases w with
    | none => rfl
    | some w =>
      obtain ⟨c, u, hc, -⟩ := w.text_head
      exact absurd (h.trans hc) (List.cons_ne_nil c u).symm
  | some z =>
    cases w with
    | none =>
      obtain ⟨c, u, hc, -⟩ := z.text_head
      exact absurd (h.symm.trans hc) (List.cons_ne_nil c u).symm
    | some w =>
      exact congrArg some (Zone.text_injective
        (fun _ _ _ hz => hzf _ _ _ (congrArg some hz))
        (fun _ _ _ hw => hzg _ _ _ (congrArg some hw)) h)

theorem text_injective (hf : f.Matched) (hg : g.Written) (h : f.text = g.text) : f = g := by
  have hmatch := matchPattern_written hf.toWritten
  rw [if_pos hf.letter, h, matchPattern_written hg] at hmatch
  split_ifs at hmatch with hletter
  have hgroups : g.groups = f.groups := Option.some.inj hmatch
  simp only [Fields.groups, Match.mk.injEq] at hgroups
  obtain ⟨hyear, hmonth, hday, hhour, hminute, hsecond, hfraction, hoffset⟩ := hgroups
  have hfraction' := digits_injective hg.fraction hf.fraction hfraction
  have hzone := zone_injective hg hf.toWritten hoffset
  obtain ⟨year, month, day, separator, hour, minute, second, fraction, zone⟩ := f
  obtain ⟨year', month', day', separator', hour', minute', second', fraction', zone'⟩ := g
  dsimp only at hyear hmonth hday hhour hminute hsecond hfraction' hzone
  subst hyear hmonth hday hhour hminute hsecond hfraction' hzone
  have hseparator : separator = separator' := by
    simp only [Fields.text, fieldsText] at h
    have hrest := List.append_cancel_left h
    simp only [List.cons.injEq, true_and] at hrest
    have hrest' := List.append_cancel_left hrest
    simp only [List.cons.injEq, true_and] at hrest'
    exact (List.cons.inj (List.append_cancel_left hrest')).1
  rw [hseparator]

/-- For every text: the pattern looks at digits only, and has no small letter for UTC. -/
theorem accepts_iff (lastSecond : Fields → ℕ) (t : Text) :
    (parseRfc3339Timestamp t ≠ ZERO ↔ IsDateTime lastSecond t) ↔
      (∀ f : Fields, f.Matched → t = f.text → f.InRange (lastSecond f)) ∧
        ∀ f : Fields, f.Written → f.InRange (lastSecond f) → t = f.text →
          f.zone ≠ some (.utc true) := by
  have haccepts : parseRfc3339Timestamp t ≠ ZERO ↔ ∃ f : Fields, f.Matched ∧ t = f.text := by
    rw [Ne, parse_zero_iff, not_not, mem_pattern]
  rw [haccepts]
  constructor
  · intro h
    constructor
    · intro f hf ht
      obtain ⟨g, hg, hrange, hgt⟩ := h.mp ⟨f, hf, ht⟩
      obtain rfl := text_injective hf hg (ht.symm.trans hgt)
      exact hrange
    · intro f hf hrange ht
      obtain ⟨g, hg, hgt⟩ := h.mpr ⟨f, hf, hrange, ht⟩
      obtain rfl := text_injective hg hf (hgt.symm.trans ht)
      exact hg.letter
  · rintro ⟨hranges, hletters⟩
    constructor
    · rintro ⟨f, hf, ht⟩
      exact ⟨f, hf.toWritten, hranges f hf ht, ht⟩
    · rintro ⟨f, hf, hrange, ht⟩
      exact ⟨f, ⟨hf, hletters f hf hrange ht⟩, ht⟩

/-- The first day of a thirteenth month. -/
def thirteenth : Fields := ⟨2025, 13, 1, 'T', 0, 0, 0, [], some (.utc false)⟩

theorem thirteenth_matched : thirteenth.Matched where
  year := by decide
  month := by decide
  day := by decide
  separator := by decide
  hour := by decide
  minute := by decide
  second := by decide
  fraction := List.forall_mem_nil _
  length := by decide
  zone := fun _ _ _ h => by cases h
  letter := by decide

theorem thirteenth_accepted : ¬ ∃ lastSecond, ∀ t,
    parseRfc3339Timestamp t ≠ ZERO ↔ IsDateTime lastSecond t := by
  rintro ⟨lastSecond, h⟩
  obtain ⟨f, hf, hrange, ht⟩ := (h thirteenth.text).mp (by decide)
  obtain rfl := text_injective thirteenth_matched hf ht
  exact absurd hrange.date.month (by decide)

end Acceptance

end Rfc3339
