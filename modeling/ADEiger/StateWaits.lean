import ADEiger.Driver
import Mathlib.Data.List.TakeWhile
import Mathlib.Tactic.SplitIfs

/-! The two loops in which controlTask waits for the detector and for FileWriter.
A query that fails leaves the local string as it was before. -/
namespace StateWaits

open Driver (busyStates)

/-- One round of the detector loop: the answer to the query, if there is one, the images counted
by then, and whether `mStopEvent` is signalled while it is waited for. -/
structure Round where
  reported : Option String
  counter : ℤ
  stopped : Bool
  deriving DecidableEq, Repr

/-- The `break` that ends the loop. -/
inductive Exit where
  | counted | state | stop
  deriving DecidableEq, Repr

/-- `none` as long as the loop goes on. -/
def detectorLoop (expectedImages : ℤ) : String → List Round → Option Exit
  | _, [] => none
  | state, r :: rounds =>
    let state := r.reported.getD state
    if expectedImages ≤ r.counter then some .counted
    else if state ∉ busyStates then some .state
    else if r.stopped then some .stop
    else detectorLoop expectedImages state rounds

/-- The string is declared in front of the loop. -/
def detectorWait (expectedImages : ℤ) (rounds : List Round) : Option Exit :=
  detectorLoop expectedImages "" rounds

/-- Whether the loop is left; the string is declared in its body. -/
def fileWriterWait : List (Option String) → Bool
  | [] => false
  | reported :: queries =>
    let fwAcquire := reported.getD ""
    if fwAcquire ≠ "acquire" then true else fileWriterWait queries

/-- Why the loop may be left in round `r`. -/
def Justified (expectedImages : ℤ) (r : Round) : Exit → Prop
  | .counted => expectedImages ≤ r.counter
  | .state => ∃ v, r.reported = some v ∧ v ∉ busyStates
  | .stop => r.stopped = true

/-- A loop is left in the last of the rounds given, and for a reason. -/
structure FailuresWait (expectedImages : ℤ) (rounds : List Round)
    (queries : List (Option String)) : Prop where
  detector : ∀ earlier r later exit, rounds = earlier ++ r :: later →
    detectorWait expectedImages earlier = none →
    detectorWait expectedImages (earlier ++ [r]) = some exit → Justified expectedImages r exit
  fileWriter : ∀ earlier reported later, queries = earlier ++ reported :: later →
    fileWriterWait earlier = false → fileWriterWait (earlier ++ [reported]) = true →
    ∃ v, reported = some v ∧ v ≠ "acquire"

/-- The first query does not fail, unless all images are counted by then. -/
def FirstAnswered (expectedImages : ℤ) (rounds : List Round) : Prop :=
  ∀ r ∈ rounds.head?, r.reported = none → expectedImages ≤ r.counter

/-- No query fails while FileWriter has reported nothing but `acquire`. -/
def AllAnswered (queries : List (Option String)) : Prop :=
  (queries.dropWhile (· = some "acquire")).head? ≠ some none

section Detector

variable {n : ℤ} {state : String} {rounds : List Round} {r : Round}

theorem detectorLoop_exit {exit : Exit} (h : detectorLoop n state [r] = some exit) :
    Justified n r exit ∨ (r.reported = none ∧ ¬ n ≤ r.counter ∧ state ∉ busyStates) := by
  simp only [detectorLoop] at h
  by_cases hcount : n ≤ r.counter
  · rw [if_pos hcount] at h
    obtain rfl := Option.some.inj h
    exact .inl hcount
  · rw [if_neg hcount] at h
    by_cases hstate : r.reported.getD state ∉ busyStates
    · rw [if_pos hstate] at h
      obtain rfl := Option.some.inj h
      cases hr : r.reported with
      | none =>
        rw [hr] at hstate
        exact .inr ⟨rfl, hcount, hstate⟩
      | some v =>
        rw [hr] at hstate
        exact .inl ⟨v, hr, hstate⟩
    · rw [if_neg hstate] at h
      by_cases hstop : r.stopped = true
      · rw [if_pos hstop] at h
        obtain rfl := Option.some.inj h
        exact .inl hstop
      · rw [if_neg hstop] at h
        cases h

/-- A round in which the loop is not left keeps a busy state. -/
theorem detectorLoop_continues (rest : List Round)
    (h : detectorLoop n state (r :: rounds) = none) :
    r.reported.getD state ∈ busyStates ∧
      detectorLoop n (r.reported.getD state) rounds = none ∧
      detectorLoop n state (r :: (rounds ++ rest)) =
        detectorLoop n (r.reported.getD state) (rounds ++ rest) := by
  simp only [detectorLoop] at h ⊢
  by_cases hcount : n ≤ r.counter
  · rw [if_pos hcount] at h
    cases h
  · rw [if_neg hcount] at h ⊢
    by_cases hstate : r.reported.getD state ∈ busyStates
    · have hnot : ¬ r.reported.getD state ∉ busyStates := not_not.mpr hstate
      rw [if_neg hnot] at h ⊢
      by_cases hstop : r.stopped = true
      · rw [if_pos hstop] at h
        cases h
      · rw [if_neg hstop] at h ⊢
        exact ⟨hstate, h, rfl⟩
    · rw [if_pos hstate] at h
      cases h

/-- From a busy state on, whatever fails, only an answer can end the loop. -/
theorem detectorLoop_justified {earlier : List Round} {exit : Exit} (hbusy : state ∈ busyStates)
    (hnone : detectorLoop n state earlier = none)
    (hexit : detectorLoop n state (earlier ++ [r]) = some exit) : Justified n r exit := by
  induction earlier generalizing state with
  | nil =>
    rcases detectorLoop_exit hexit with h | ⟨-, -, hstate⟩
    · exact h
    · exact absurd hbusy hstate
  | cons a earlier ih =>
    obtain ⟨hstate, hnone, hrest⟩ := detectorLoop_continues [r] hnone
    exact ih hstate hnone (hrest ▸ hexit)

theorem detectorWait_justified {earlier later : List Round} {exit : Exit}
    (hfirst : FirstAnswered n (earlier ++ r :: later)) (hnone : detectorWait n earlier = none)
    (hexit : detectorWait n (earlier ++ [r]) = some exit) : Justified n r exit := by
  cases earlier with
  | nil =>
    rcases detectorLoop_exit hexit with h | ⟨hfailed, hcount, -⟩
    · exact h
    · exact absurd (hfirst r rfl hfailed) hcount
  | cons a earlier =>
    obtain ⟨hstate, hnone, hrest⟩ := detectorLoop_continues [r] hnone
    exact detectorLoop_justified hstate hnone (hrest ▸ hexit)

end Detector

section FileWriter

variable {queries earlier : List (Option String)} {reported : Option String}

theorem fileWriterWait_false :
    fileWriterWait queries = false ↔ ∀ q ∈ queries, q = some "acquire" := by
  induction queries with
  | nil => simp [fileWriterWait]
  | cons q queries ih =>
    cases q with
    | none => simp [fileWriterWait]
    | some v =>
      by_cases hv : v = "acquire"
      · simp [fileWriterWait, hv, ih]
      · simp [fileWriterWait, hv]

theorem fileWriterWait_append (h : fileWriterWait earlier = false) :
    fileWriterWait (earlier ++ [reported]) = true ↔ reported ≠ some "acquire" := by
  rw [← Bool.not_eq_false, fileWriterWait_false]
  have hall := fileWriterWait_false.mp h
  constructor
  · rintro hne rfl
    apply hne
    intro q hq
    rcases List.mem_append.mp hq with hq | hq
    · exact hall q hq
    · exact List.mem_singleton.mp hq
  · intro hne hsame
    exact hne (hsame reported (List.mem_append_right _ (List.mem_singleton_self _)))

theorem fileWriter_iff : (∀ earlier reported later, queries = earlier ++ reported :: later →
    fileWriterWait earlier = false → fileWriterWait (earlier ++ [reported]) = true →
    ∃ v, reported = some v ∧ v ≠ "acquire") ↔ AllAnswered queries := by
  constructor
  · intro h hhead
    obtain ⟨later, hlater⟩ : ∃ later, queries.dropWhile (· = some "acquire") = none :: later := by
      cases hdrop : queries.dropWhile (· = some "acquire") with
      | nil => simp [hdrop] at hhead
      | cons q later =>
        rw [hdrop] at hhead
        exact ⟨later, by rw [Option.some.inj hhead]⟩
    have hwait : fileWriterWait (queries.takeWhile (· = some "acquire")) = false := by
      refine fileWriterWait_false.mpr fun q hq => ?_
      simpa using List.mem_takeWhile_imp hq
    have hsplit : queries = queries.takeWhile (· = some "acquire") ++ none :: later := by
      rw [← hlater, List.takeWhile_append_dropWhile]
    obtain ⟨v, hv, -⟩ := h _ none later hsplit hwait
      ((fileWriterWait_append hwait).mpr (Option.some_ne_none _).symm)
    cases hv
  · rintro h earlier reported later rfl hnone hexit
    have hreported := (fileWriterWait_append hnone).mp hexit
    have hall := fileWriterWait_false.mp hnone
    rw [AllAnswered, List.dropWhile_append_of_pos fun q hq => by simpa using hall q hq,
      List.dropWhile_cons_of_neg (by simpa using hreported), List.head?_cons] at h
    cases hr : reported with
    | none => exact absurd (congrArg some hr) h
    | some v => exact ⟨v, rfl, fun hv => hreported (by rw [hr, hv])⟩

end FileWriter

theorem failures_wait_iff (expectedImages : ℤ) (rounds : List Round)
    (queries : List (Option String)) : FailuresWait expectedImages rounds queries ↔
      FirstAnswered expectedImages rounds ∧ AllAnswered queries := by
  constructor
  · intro h
    refine ⟨?_, fileWriter_iff.mp h.fileWriter⟩
    intro r hr hfailed
    obtain ⟨later, rfl⟩ : ∃ later, rounds = r :: later := by
      cases rounds with
      | nil => cases hr
      | cons a later => exact ⟨later, by rw [Option.some.inj hr]⟩
    by_contra hcount
    have hexit : detectorWait expectedImages ([] ++ [r]) = some .state := by
      simp [detectorWait, detectorLoop, hcount, hfailed, busyStates]
    obtain ⟨v, hv, -⟩ := h.detector [] r later .state rfl rfl hexit
    rw [hfailed] at hv
    cases hv
  · rintro ⟨hfirst, hall⟩
    refine ⟨?_, fileWriter_iff.mpr hall⟩
    rintro earlier r later exit rfl hnone hexit
    exact detectorWait_justified hfirst hnone hexit

/-- The very first query of the detector state fails, with no image counted. -/
theorem failed_query_ends_wait : ¬ ∀ (expectedImages : ℤ) (rounds : List Round)
    (queries : List (Option String)), FailuresWait expectedImages rounds queries := by
  intro h
  obtain ⟨v, hv, -⟩ := (h 1 [⟨none, 0, false⟩] []).detector [] ⟨none, 0, false⟩ [] .state rfl rfl
    (by decide)
  cases hv

section Driver

open Driver (State)

/-- A round of the loop is what the two events of controlTask make of it. -/
theorem fetchState_round (s : State) (r : Round) :
    (Driver.next s (.fetchState r.reported)).control =
      if s.latched.expectedImages ≤ s.numImagesCounter ∨ r.reported.getD s.state ∉ busyStates
      then .disarm else .waitStop := by
  simp only [Driver.next]
  split_ifs <;> rfl

end Driver

end StateWaits
