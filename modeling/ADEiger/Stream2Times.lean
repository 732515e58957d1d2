import ADEiger.Stream2Threshold
import Mathlib.Data.List.Forall2
import Mathlib.Tactic.Linarith

/-! The time stamps of Stream2API over a sequence of images.
A time stamp is the time of the series, which is kept with its text, and the ticks of the image. -/
namespace Stream2Api

open CString (Text)
open Stream2
open Rfc3339 (DateTime Tm timegm gmtime parseRfc3339Timestamp)

section Instants

/-- The seconds from the start of 1970 to that of 1990. -/
def POSIX_TIME_AT_EPICS_EPOCH : ℤ := 631152000

/-- The conversion by way of `epicsTime`, for the times that a time stamp can hold. -/
structure Converts (env : Env) : Prop where
  stamp : ∀ (tm : Tm) (nSec : ℕ), POSIX_TIME_AT_EPICS_EPOCH ≤ timegm tm →
    timegm tm < POSIX_TIME_AT_EPICS_EPOCH + 2 ^ 32 → nSec < 10 ^ 9 →
      env.stamp ⟨tm, nSec⟩ = ⟨(timegm tm - POSIX_TIME_AT_EPICS_EPOCH).toNat, nSec⟩

/-- Nanoseconds from the start of 1970. -/
def EpicsTimeStamp.instant (ts : EpicsTimeStamp) : ℤ :=
  (POSIX_TIME_AT_EPICS_EPOCH + ts.secPastEpoch) * 10 ^ 9 + ts.nsec

/-- An image of a series with a date, and its two numbers of 64 bits. -/
structure Frame where
  msg : ImageMsg
  date : DateTime
  hasDate : msg.seriesDate = some date.text
  ticks_lt : msg.startTime.1 < 2 ^ 64
  base_pos : 0 < msg.startTime.2
  base_lt : msg.startTime.2 < 2 ^ 64

def Frame.ticks (f : Frame) : ℕ := f.msg.startTime.1

def Frame.timeBase (f : Frame) : ℕ := f.msg.startTime.2

def Frame.elapsed (f : Frame) : ℕ := 10 ^ 9 * f.ticks / f.timeBase

/-- The date of the series and the time since then. -/
def Frame.instant (f : Frame) : ℤ :=
  f.date.seconds * 10 ^ 9 + f.date.nanoseconds + f.elapsed

structure ExactStamp (f : Frame) (ts : EpicsTimeStamp) : Prop where
  instant : ts.instant = f.instant
  nsec : ts.nsec < 10 ^ 9

/-- In the order of the images, whatever series they are of. -/
def timeStamps (env : Env) (api : Stream2API) : List ImageMsg → Except Fault (List EpicsTimeStamp)
  | [] => .ok []
  | msg :: msgs => do
    let (ts, api) ← extractTimeStampFromMessage env api msg
    let rest ← timeStamps env api msgs
    .ok (ts :: rest)

/-- Every time stamp is exact; and those of one series grow with the ticks. -/
structure TimesExact (frames : List Frame) (stamps : List EpicsTimeStamp) : Prop where
  exact : List.Forall₂ ExactStamp frames stamps
  monotone : ∀ (i j : ℕ) (f g : Frame) (ts us : EpicsTimeStamp), frames[i]? = some f →
    frames[j]? = some g → stamps[i]? = some ts → stamps[j]? = some us → f.date = g.date →
      f.timeBase = g.timeBase → f.ticks ≤ g.ticks → ts.instant ≤ us.instant

/-- The patterns can read the date, and it is not before 1990. -/
structure Frame.Dated (f : Frame) : Prop where
  readable : f.date.Readable
  epoch : POSIX_TIME_AT_EPICS_EPOCH ≤ f.date.seconds

/-- The product of 64 bits does not overflow, and the seconds since 1990 fit in 32 bits. -/
structure Frame.InRange (f : Frame) : Prop where
  dated : f.Dated
  product : 10 ^ 9 * f.ticks < 2 ^ 64
  seconds : f.instant < (POSIX_TIME_AT_EPICS_EPOCH + 2 ^ 32) * 10 ^ 9

end Instants

section Cache

variable {env : Env} {api api' : Stream2API} {f : Frame} {cached : Text × EpicsTimeStamp}

/-- What is kept belongs to its text; a new object has none. -/
def CacheValid (env : Env) (cached : Text × EpicsTimeStamp) : Prop :=
  cached.1 = [] ∨ cached.2 = env.stamp (parseRfc3339Timestamp cached.1)

theorem text_ne_nil (date : DateTime) : date.text ≠ [] := by
  intro h
  rw [DateTime.text, Rfc3339.digits4, Rfc3339.digits2] at h
  cases h

theorem cacheTs_spec (h : CacheValid env cached) (date : DateTime) :
    cacheTs env cached date.text = (date.text, env.stamp (parseRfc3339Timestamp date.text)) := by
  rw [cacheTs]
  by_cases hne : cached.1 = date.text
  · rw [if_neg (not_not.mpr hne)]
    rcases h with hnil | hvalid
    · exact absurd (hne.symm.trans hnil) (text_ne_nil date)
    · exact Prod.ext hne (hne ▸ hvalid)
  · rw [if_pos hne]

/-- The time stamp that comes from the date of the image, whatever the object held before. -/
def Frame.stamp (env : Env) (f : Frame) : EpicsTimeStamp :=
  frameTime (env.stamp (parseRfc3339Timestamp f.date.text)) f.ticks f.timeBase

theorem extract_spec (h : CacheValid env api.mCachedTs) (f : Frame) :
    ∃ api', extractTimeStampFromMessage env api f.msg = .ok (f.stamp env, api') ∧
      CacheValid env api'.mCachedTs := by
  have hbase : f.msg.startTime.2 ≠ 0 := Nat.ne_of_gt f.base_pos
  refine ⟨{ api with mCachedTs := cacheTs env api.mCachedTs f.date.text }, ?_, ?_⟩
  · simp only [extractTimeStampFromMessage, f.hasDate, if_neg hbase, cacheTs_spec h]
    rfl
  · rw [cacheTs_spec h]
    exact .inr rfl

/-- Over a run, the state between two images does not matter. -/
theorem timeStamps_eq (h : CacheValid env api.mCachedTs) (frames : List Frame) :
    timeStamps env api (frames.map Frame.msg) = .ok (frames.map (Frame.stamp env)) := by
  induction frames generalizing api with
  | nil => rfl
  | cons f frames ih =>
    obtain ⟨api', hextract, hvalid⟩ := extract_spec h f
    rw [List.map_cons, timeStamps, hextract]
    change (timeStamps env api' (frames.map Frame.msg) >>= _) = _
    rw [ih hvalid]
    rfl

end Cache

section Times

variable {env : Env} {f : Frame} {sec nsec ticks timeBase : ℕ}

theorem frameTime_nsec (seriesTs : EpicsTimeStamp) (ticks timeBase : ℕ) :
    (frameTime seriesTs ticks timeBase).nsec < 10 ^ 9 :=
  Nat.mod_lt _ (by decide)

theorem frameTime_sec (seriesTs : EpicsTimeStamp) (ticks timeBase : ℕ) :
    (frameTime seriesTs ticks timeBase).secPastEpoch < 2 ^ 32 :=
  Nat.mod_lt _ (by decide)

theorem instant_lt {ts : EpicsTimeStamp} (hsec : ts.secPastEpoch < 2 ^ 32)
    (hnsec : ts.nsec < 10 ^ 9) :
    ts.instant < (POSIX_TIME_AT_EPICS_EPOCH + 2 ^ 32) * 10 ^ 9 := by
  rw [EpicsTimeStamp.instant, POSIX_TIME_AT_EPICS_EPOCH]
  omega

/-- With the elapsed time as it comes out of the product, as long as the sums stay in range. -/
theorem frameTime_instant {elapsed : ℕ} (he : 10 ^ 9 * ticks % 2 ^ 64 / timeBase = elapsed)
    (hrange : sec * 10 ^ 9 + nsec + elapsed < 2 ^ 32 * 10 ^ 9) :
    (frameTime ⟨sec, nsec⟩ ticks timeBase).instant =
      (POSIX_TIME_AT_EPICS_EPOCH + sec) * 10 ^ 9 + nsec + elapsed := by
  have hsum : (nsec + elapsed) % 2 ^ 64 = nsec + elapsed := Nat.mod_eq_of_lt (by omega)
  have hsec : (sec + (nsec + elapsed) / 1000000000) % 2 ^ 32 =
      sec + (nsec + elapsed) / 1000000000 := Nat.mod_eq_of_lt (by omega)
  have hframe : frameTime ⟨sec, nsec⟩ ticks timeBase =
      ⟨sec + (nsec + elapsed) / 1000000000, (nsec + elapsed) % 1000000000⟩ := by
    simp only [frameTime, NSEC_PER_SEC]
    rw [show 1000000000 * ticks % 2 ^ 64 / timeBase = elapsed from he, hsum, hsec]
  rw [hframe, EpicsTimeStamp.instant]
  push_cast
  omega

/-- A product that overflows loses more than the divisor. -/
theorem elapsed_overflow {product : ℕ} (hbase : 0 < timeBase) (hlt : timeBase < 2 ^ 64)
    (h : 2 ^ 64 ≤ product) : product % 2 ^ 64 / timeBase < product / timeBase := by
  rw [Nat.div_lt_iff_lt_mul hbase]
  have hle : product - timeBase < product / timeBase * timeBase := by
    have hmod := Nat.mod_lt product hbase
    have hdiv := Nat.div_add_mod' product timeBase
    omega
  have hmod : product % 2 ^ 64 ≤ product - 2 ^ 64 := by
    have hdiv := Nat.mod_add_div product (2 ^ 64)
    have hpos : 1 ≤ product / 2 ^ 64 := Nat.div_pos h (by decide)
    have hmul : 2 ^ 64 * 1 ≤ 2 ^ 64 * (product / 2 ^ 64) := Nat.mul_le_mul_left _ hpos
    omega
  omega

theorem series_stamp (hc : Converts env) (hd : f.Dated)
    (hrange : f.date.seconds < POSIX_TIME_AT_EPICS_EPOCH + 2 ^ 32) :
    env.stamp (parseRfc3339Timestamp f.date.text) =
      ⟨(f.date.seconds - POSIX_TIME_AT_EPICS_EPOCH).toNat, f.date.nanoseconds⟩ := by
  have hseconds := Rfc3339.timegm_gmtime f.date.seconds
  rw [DateTime.parse_text hd.readable, hc.stamp, hseconds]
  · rw [hseconds]
    exact hd.epoch
  · rw [hseconds]
    exact hrange
  · exact DateTime.nanoseconds_lt hd.readable

/-- The instant of a time stamp of a readable date, in terms of the product of 64 bits. -/
theorem stamp_instant (hc : Converts env) (hd : f.Dated)
    (hrange : f.instant < (POSIX_TIME_AT_EPICS_EPOCH + 2 ^ 32) * 10 ^ 9) :
    (f.stamp env).instant = f.date.seconds * 10 ^ 9 + f.date.nanoseconds +
      (10 ^ 9 * f.ticks % 2 ^ 64 / f.timeBase : ℕ) := by
  have hepoch := hd.epoch
  have hle : 10 ^ 9 * f.ticks % 2 ^ 64 / f.timeBase ≤ f.elapsed :=
    Nat.div_le_div_right (Nat.mod_le _ _)
  rw [Frame.instant] at hrange
  rw [Frame.stamp, series_stamp hc hd (by omega)]
  generalize hsec : (f.date.seconds - POSIX_TIME_AT_EPICS_EPOCH).toNat = sec
  generalize he : 10 ^ 9 * f.ticks % 2 ^ 64 / f.timeBase = elapsed at hle ⊢
  rw [frameTime_instant he (by omega)]
  omega

theorem exact_of_inRange (hc : Converts env) (h : f.InRange) : ExactStamp f (f.stamp env) := by
  constructor
  · rw [stamp_instant hc h.dated h.seconds, Nat.mod_eq_of_lt h.product]
    rfl
  · exact frameTime_nsec _ _ _

theorem inRange_of_exact (hc : Converts env) (hd : f.Dated) (h : ExactStamp f (f.stamp env)) :
    f.InRange := by
  have hseconds : f.instant < (POSIX_TIME_AT_EPICS_EPOCH + 2 ^ 32) * 10 ^ 9 := by
    rw [← h.instant]
    exact instant_lt (frameTime_sec _ _ _) (frameTime_nsec _ _ _)
  refine ⟨hd, ?_, hseconds⟩
  by_contra hproduct
  have hlost := elapsed_overflow f.base_pos f.base_lt (Nat.le_of_not_lt hproduct)
  have hinstant := h.instant
  rw [stamp_instant hc hd hseconds, Frame.instant, Frame.elapsed] at hinstant
  rw [Frame.timeBase] at hinstant
  omega

theorem exact_at {frames : List Frame} {stamps : List EpicsTimeStamp}
    (h : List.Forall₂ ExactStamp frames stamps) {i : ℕ} {ts : EpicsTimeStamp}
    (hf : frames[i]? = some f) (hts : stamps[i]? = some ts) : ExactStamp f ts := by
  induction h generalizing i with
  | nil => cases hf
  | cons hexact _ ih =>
    cases i with
    | zero =>
      obtain rfl := Option.some.inj hf
      obtain rfl := Option.some.inj hts
      exact hexact
    | succ i => exact ih hf hts

theorem monotone_of_exact {frames : List Frame} {stamps : List EpicsTimeStamp}
    (h : List.Forall₂ ExactStamp frames stamps) : TimesExact frames stamps := by
  refine ⟨h, ?_⟩
  intro i j f g ts us hf hg hts hus hdate hbase hticks
  have helapsed : f.elapsed ≤ g.elapsed := by
    rw [Frame.elapsed, Frame.elapsed, hbase]
    exact Nat.div_le_div_right (Nat.mul_le_mul_left _ hticks)
  rw [(exact_at h hf hts).instant, (exact_at h hg hus).instant, Frame.instant, Frame.instant, hdate]
  omega

/-- For every sequence of images; the other direction where the dates can be converted. -/
theorem frame_times_exact (api : Stream2API) (hc : Converts env) (hnew : api.mCachedTs.1 = [])
    (frames : List Frame) :
    ∃ stamps, timeStamps env api (frames.map Frame.msg) = .ok stamps ∧
      ((∀ f ∈ frames, f.InRange) → TimesExact frames stamps) ∧
      ((∀ f ∈ frames, f.Dated) → TimesExact frames stamps → ∀ f ∈ frames, f.InRange) := by
  refine ⟨_, timeStamps_eq (.inl hnew) frames, ?_, ?_⟩
  · intro h
    apply monotone_of_exact
    rw [List.forall₂_map_right_iff, List.forall₂_same]
    intro f hf
    exact exact_of_inRange hc (h f hf)
  · intro hdated h f hf
    have hexact := h.exact
    rw [List.forall₂_map_right_iff, List.forall₂_same] at hexact
    exact inRange_of_exact hc (hdated f hf) (hexact f hf)

end Times

section Examples

/-- The conversion itself. -/
def convertingEnv : Env where
  stamp ts := ⟨(timegm ts.ansiTm - POSIX_TIME_AT_EPICS_EPOCH).toNat, ts.nSec⟩
  lz4 _ _ := none
  bshuf _ _ _ := none

theorem convertingEnv_converts : Converts convertingEnv := ⟨fun _ _ _ _ _ => rfl⟩

def seriesDate : DateTime where
  year := 2025
  month := 12
  day := 5
  separator := 'T'
  hour := 12
  minute := 34
  second := 56
  fraction := [7, 8, 9]
  zone := .utc false
  validYear := by decide
  validMonth := by decide
  validDay := by decide
  validSeparator := by decide
  validHour := by decide
  validMinute := by decide
  validSecond := by decide
  validFraction := by decide
  validZone := trivial

/-- After `ticks` ticks of 50 MHz. -/
def frameAfter (ticks : ℕ) (h : ticks < 2 ^ 64) : Frame where
  msg := { seriesDate := some seriesDate.text, startTime := (ticks, 50000000) }
  date := seriesDate
  hasDate := rfl
  ticks_lt := h
  base_pos := Nat.succ_pos _
  base_lt := (by decide : 50000000 < 2 ^ 64)

theorem frameAfter_dated (ticks : ℕ) (h : ticks < 2 ^ 64) : (frameAfter ticks h).Dated := by
  have hreadable : seriesDate.Readable := ⟨by decide, by decide⟩
  have hepoch : POSIX_TIME_AT_EPICS_EPOCH ≤ seriesDate.seconds := by decide
  exact ⟨hreadable, hepoch⟩

/-- The second frame of a series finds its date in the cache. -/
theorem frame_times_exact_cached :
    ∃ stamps, timeStamps convertingEnv newApi
        ([frameAfter 50000000 (by decide), frameAfter 100000000 (by decide)].map Frame.msg) =
          .ok stamps ∧
      TimesExact [frameAfter 50000000 (by decide), frameAfter 100000000 (by decide)] stamps := by
  obtain ⟨stamps, hstamps, hexact, -⟩ :=
    frame_times_exact newApi convertingEnv_converts rfl
      [frameAfter 50000000 (by decide), frameAfter 100000000 (by decide)]
  refine ⟨stamps, hstamps, hexact ?_⟩
  intro f hf
  obtain rfl | hf := List.mem_cons.mp hf
  · exact ⟨frameAfter_dated _ _, by decide, by decide⟩
  · obtain rfl := List.mem_singleton.mp hf
    exact ⟨frameAfter_dated _ _, by decide, by decide⟩

/-- After 2 ^ 35 ticks, 687 seconds. -/
theorem product_overflows : ¬ ∀ (env : Env) (api : Stream2API) (frames : List Frame),
    Converts env → api.mCachedTs.1 = [] → ∃ stamps,
      timeStamps env api (frames.map Frame.msg) = .ok stamps ∧ TimesExact frames stamps := by
  intro h
  obtain ⟨stamps, hstamps, htimes⟩ := h convertingEnv newApi [frameAfter (2 ^ 35) (by decide)]
    convertingEnv_converts rfl
  rw [timeStamps_eq (.inl rfl)] at hstamps
  obtain rfl := Except.ok.inj hstamps
  have hexact := htimes.exact
  rw [List.forall₂_map_right_iff, List.forall₂_same] at hexact
  have hrange := inRange_of_exact convertingEnv_converts (frameAfter_dated (2 ^ 35) (by decide))
    (hexact _ (List.mem_singleton_self _))
  exact absurd hrange.product (by decide)

end Examples

end Stream2Api
