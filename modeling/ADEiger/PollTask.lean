import ADEiger.FileWriter
import Mathlib.Data.List.Basic

/-! The loop of pollTask over its list of files.
What waitFile returns, and when mPollStop becomes true, is left open. -/
namespace PollTask

open TransitionSystem
open FileWriter (File MAX_RETRIES)

/-- One call of waitFile, and `mPollStop` as it stands when the file was not found. -/
structure Wait where
  found : Bool
  stop : Bool
  deriving DecidableEq, Repr

/-- What is done with `files[i]` once it exists. -/
inductive Action where
  | send (i : ℕ)
  | deleteFile (i : ℕ)
  deriving DecidableEq, Repr

structure State where
  i : ℕ
  retries : ℕ
  actions : List Action
  deriving DecidableEq, Repr

section Loop

variable (files : List File)

def LoopGuard (s : State) : Prop := s.i < files.length ∧ s.retries ≤ MAX_RETRIES

/-- A file that nobody needs is deleted at once, if it is to be removed at all. -/
def handOver (i : ℕ) : List Action :=
  match files[i]? with
  | none => []
  | some file =>
    if file.save || file.parse then [.send i]
    else if file.remove then [.deleteFile i]
    else []

def next (s : State) (w : Wait) : State :=
  if w.found then { s with actions := s.actions ++ handOver files s.i, i := s.i + 1 }
  else if w.stop then { s with retries := s.retries + 1 }
  else s

def system : System State Wait where
  Start s := s = ⟨0, 0, []⟩
  Enabled s _ := LoopGuard files s
  next := next files

instance (s : State) : Decidable (LoopGuard files s) := inferInstanceAs (Decidable (_ ∧ _))

instance (s : State) (w : Wait) : Decidable ((system files).Enabled s w) :=
  inferInstanceAs (Decidable (LoopGuard files s))

/-- The waits, each with the index of the file it was for. -/
def record (s : State) (w : Wait) (asked : List (ℕ × Wait)) : List (ℕ × Wait) :=
  asked ++ [(s.i, w)]

/-- The loop together with its waits. -/
abbrev polling : System (State × List (ℕ × Wait)) Wait := (system files).withHistory [] record

/-- `mPollComplete`, behind the loop. -/
def pollComplete (s : State) : Bool := s.i == files.length

end Loop

/-- An unsuccessful wait observed with `mPollStop` set. -/
def Late (w : Wait) : Bool := !w.found && w.stop

/-- What the loop has done with its list. -/
structure HandsOver (files : List File) (s : State) (asked : List (ℕ × Wait)) : Prop where
  within : s.i ≤ files.length
  actions : s.actions = (List.range s.i).flatMap (handOver files)
  found : (asked.filter (·.2.found)).map Prod.fst = List.range s.i
  stopped : ¬ LoopGuard files s → s.i < files.length →
    MAX_RETRIES < asked.countP fun a => Late a.2
  complete : pollComplete files s = true ↔ s.i = files.length

variable {files : List File} {x : State × List (ℕ × Wait)}
  {C : State × List (ℕ × Wait) → Wait → Prop}

/-- The two counters, read off the waits. -/
structure Counters (files : List File) (s : State) (asked : List (ℕ × Wait)) : Prop where
  i : s.i = asked.countP fun a => a.2.found
  retries : s.retries = asked.countP fun a => Late a.2
  within : s.i ≤ files.length
  bounded : s.retries ≤ MAX_RETRIES + 1

theorem counters_step {s : State} {asked : List (ℕ × Wait)} (h : Counters files s asked)
    (hg : LoopGuard files s) (w : Wait) :
    Counters files (next files s w) (record s w asked) := by
  obtain ⟨hi, hr⟩ := hg
  obtain ⟨found, stop⟩ := w
  cases found with
  | true =>
    refine ⟨?_, ?_, hi, h.bounded⟩
    · simp [next, record, h.i]
    · simp [next, record, Late, h.retries]
  | false =>
    cases stop with
    | true =>
      refine ⟨?_, ?_, h.within, Nat.succ_le_succ hr⟩
      · simp [next, record, h.i]
      · simp [next, record, Late, h.retries]
    | false =>
      refine ⟨?_, ?_, h.within, h.bounded⟩
      · simp [next, record, h.i]
      · simp [next, record, Late, h.retries]

theorem counters (h : Reaches (polling files) C x) : Counters files x.1 x.2 := by
  refine h.invariant (I := fun x => Counters files x.1 x.2) ?_ ?_
  · rintro ⟨s, asked⟩ ⟨hs, ha⟩
    obtain rfl : s = ⟨0, 0, []⟩ := hs
    obtain rfl : asked = [] := ha
    exact ⟨rfl, rfl, Nat.zero_le _, Nat.zero_le _⟩
  · intro y w hy he _
    exact counters_step hy he w

theorem handedOver (h : Reaches (polling files) C x) :
    x.1.actions = (List.range x.1.i).flatMap (handOver files) ∧
      (x.2.filter (·.2.found)).map Prod.fst = List.range x.1.i := by
  refine h.invariant (I := fun x => x.1.actions = (List.range x.1.i).flatMap (handOver files) ∧
    (x.2.filter (·.2.found)).map Prod.fst = List.range x.1.i) ?_ ?_
  · rintro ⟨s, asked⟩ ⟨hs, ha⟩
    obtain rfl : s = ⟨0, 0, []⟩ := hs
    obtain rfl : asked = [] := ha
    exact ⟨rfl, rfl⟩
  · rintro ⟨s, asked⟩ ⟨found, stop⟩ ⟨hactions, hfound⟩ - -
    cases found with
    | true =>
      constructor
      · simp only [System.withHistory, system, next, if_pos, List.range_succ,
          List.flatMap_append, List.flatMap_singleton]
        rw [hactions]
      · simp only [System.withHistory, system, next, record, if_pos, List.range_succ,
          List.filter_append, List.map_append]
        rw [hfound]
        rfl
    | false =>
      have hasked : (record s ⟨false, stop⟩ asked).filter (·.2.found) =
          asked.filter (·.2.found) := by simp [record]
      have hsame : (next files s ⟨false, stop⟩).actions = s.actions ∧
          (next files s ⟨false, stop⟩).i = s.i := by cases stop <;> exact ⟨rfl, rfl⟩
      simp only [System.withHistory, system, hasked, hsame.1, hsame.2]
      exact ⟨hactions, hfound⟩

theorem hands_over_prefix (files : List File) (x : State × List (ℕ × Wait))
    (h : Reaches (polling files) AnyStep x) : HandsOver files x.1 x.2 := by
  have hcounters := counters h
  obtain ⟨hactions, hfound⟩ := handedOver h
  refine ⟨hcounters.within, hactions, hfound, ?_, beq_iff_eq⟩
  intro hguard hlt
  rw [← hcounters.retries]
  exact Nat.lt_of_not_le fun hle => hguard ⟨hlt, hle⟩

/-- The master is sent, and the data file that never comes is given up. -/
theorem hands_over_master : HandsOver
    ((List.range 2).map (FileWriter.buildFile ⟨[], 1, 1, true, true, true, 0⟩ 0 0))
    ⟨1, 3, [.send 0]⟩ [(0, ⟨true, false⟩), (1, ⟨false, false⟩), (1, ⟨false, true⟩),
      (1, ⟨false, true⟩), (1, ⟨false, true⟩)] := by
  have hvalid : ValidTrace (polling ((List.range 2).map
      (FileWriter.buildFile ⟨[], 1, 1, true, true, true, 0⟩ 0 0))) AnyStep (⟨0, 0, []⟩, [])
      [⟨true, false⟩, ⟨false, false⟩, ⟨false, true⟩, ⟨false, true⟩, ⟨false, true⟩] := by decide
  exact hands_over_prefix _ _ (hvalid.reaches (.start ⟨rfl, rfl⟩))

section Pipeline

/-- pollTask of the pipeline between the end of `resetPending` and `free`; before a file is sent,
`i` still counts from behind. -/
def Simulated (s : FileWriter.State) : Prop :=
  ∀ files : List File, files.length = s.totalFiles →
    match s.poll with
    | .receive | .reset => True
    | .count | .send => ∃ x, Reaches (polling files) AnyStep x ∧ x.1.i = s.i + 1 ∧
        x.1.retries = s.retries
    | .polling | .draining | .free => ∃ x, Reaches (polling files) AnyStep x ∧ x.1.i = s.i ∧
        x.1.retries = s.retries

theorem simulated_of_eq {s t : FileWriter.State} (h : Simulated s) (hpoll : t.poll = s.poll)
    (htotal : t.totalFiles = s.totalFiles) (hi : t.i = s.i) (hretries : t.retries = s.retries) :
    Simulated t := by
  intro files hfiles
  rw [hpoll, hi, hretries]
  exact h files (hfiles.trans htotal)

theorem simulated_waitFile {s : FileWriter.State} {found : Bool} (h : Simulated s)
    (he : FileWriter.Enabled s (.waitFile found)) :
    Simulated (FileWriter.next s (.waitFile found)) := by
  obtain ⟨hpoll, hi, hr⟩ := he
  have hx : ∀ files : List File, files.length = s.totalFiles →
      ∃ x, Reaches (polling files) AnyStep x ∧ x.1.i = s.i ∧ x.1.retries = s.retries := by
    intro files hfiles
    have := h files hfiles
    rwa [hpoll] at this
  have hstep : ∀ files : List File, files.length = s.totalFiles →
      ∃ x, Reaches (polling files) AnyStep x ∧
        x.1.i = (if found then s.i + 1 else s.i) ∧
        x.1.retries = (if !found && s.pollStop then s.retries + 1 else s.retries) := by
    intro files hfiles
    obtain ⟨x, hreach, hxi, hxr⟩ := hx files hfiles
    have hguard : LoopGuard files x.1 := ⟨by omega, by rw [hxr]; exact hr⟩
    refine ⟨_, hreach.step (e := ⟨found, s.pollStop⟩) hguard trivial, ?_⟩
    cases found <;> cases hs : s.pollStop <;>
      simp [polling, System.withHistory, system, next, hxi, hxr]
  intro files hfiles
  cases found with
  | true =>
    simp only [FileWriter.next, if_pos] at hfiles ⊢
    split_ifs at hfiles ⊢
    · simpa using hstep files hfiles
    · simpa [hpoll] using hstep files hfiles
    · simpa [hpoll] using hstep files hfiles
  | false =>
    cases hs : s.pollStop with
    | true =>
      simp only [FileWriter.next, hs, if_pos, if_neg, Bool.false_eq_true, not_false_eq_true]
        at hfiles ⊢
      simpa [hpoll, hs] using hstep files hfiles
    | false =>
      simp only [FileWriter.next, hs, if_neg, Bool.false_eq_true, not_false_eq_true] at hfiles ⊢
      simpa [hpoll, hs] using hstep files hfiles

/-- The loop of the pipeline, with everything that goes on beside it, is this loop. -/
theorem pipeline_simulated {s : FileWriter.State} (h : Reachable FileWriter.system s) :
    Simulated s := by
  apply h.invariant (I := Simulated)
  · rintro s hs files -
    obtain rfl : s = FileWriter.initial := hs
    trivial
  · intro s e hs he _
    cases e with
    | waitFile found => exact simulated_waitFile hs he
    | receiveAcquisition acq uid gid => exact fun files _ => trivial
    | resetPending =>
      exact fun files _ => ⟨(⟨0, 0, []⟩, []), .start ⟨rfl, rfl⟩, rfl, rfl⟩
    | leaveLoop =>
      intro files hfiles
      have := hs files hfiles
      rwa [he.1] at this
    | count =>
      intro files hfiles
      have := hs files hfiles
      rwa [show s.poll = .count from he] at this
    | sendDownload =>
      intro files hfiles
      have := hs files hfiles
      rwa [he.1] at this
    | free => exact fun files _ => trivial
    | readPending =>
      intro files hfiles
      simp only [FileWriter.system, FileWriter.next] at hfiles ⊢
      split_ifs at hfiles ⊢
      · have hx := hs files hfiles
        rwa [show s.poll = .draining from he] at hx
      · exact hs files hfiles
    | getFile p result => cases result <;> exact simulated_of_eq hs rfl rfl rfl rfl
    | openFile p ok => cases ok <;> exact simulated_of_eq hs rfl rfl rfl rfl
    | write p total result => cases result <;> exact simulated_of_eq hs rfl rfl rfl rfl
    | freeData p =>
      simp only [FileWriter.system, FileWriter.next]
      split_ifs <;> exact simulated_of_eq hs rfl rfl rfl rfl
    | _ => exact simulated_of_eq hs rfl rfl rfl rfl

end Pipeline

/-- What would become of the files if nobody asked for the flag `remove`. -/
def sendOrDelete (files : List File) (i : ℕ) : List Action :=
  match files[i]? with
  | none => []
  | some file => if file.save || file.parse then [.send i] else [.deleteFile i]

/-- A master file of an acquisition that only parses its files and leaves them in place. -/
theorem unwanted_master_left : ¬ ∀ (files : List File) (x : State × List (ℕ × Wait)),
    Reaches (polling files) AnyStep x →
      x.1.actions = (List.range x.1.i).flatMap (sendOrDelete files) := by
  intro h
  have hvalid : ValidTrace (polling [FileWriter.buildFile ⟨[], 1, 1, false, true, false, 0⟩ 0 0 0])
      AnyStep (⟨0, 0, []⟩, []) [⟨true, false⟩] := by decide
  exact absurd (h _ _ (hvalid.reaches (.start ⟨rfl, rfl⟩))) (by decide)

section Retries

/-- `mPollStop` stays set until the loop is left. -/
def StopStays (x : State × List (ℕ × Wait)) (w : Wait) : Prop :=
  ∀ a ∈ x.2, a.2.stop = true → w.stop = true

instance (x : State × List (ℕ × Wait)) (w : Wait) : Decidable (StopStays x w) :=
  List.decidableBAll _ x.2

def GivesUp (files : List File) (s : State) : Prop :=
  s.i < files.length ∧ MAX_RETRIES < s.retries

instance (files : List File) (s : State) : Decidable (GivesUp files s) :=
  inferInstanceAs (Decidable (_ ∧ _))

/-- The last waits were all for the file that is given up, and late. -/
def OwnRetries (files : List File) (s : State) (asked : List (ℕ × Wait)) : Prop :=
  GivesUp files s → ∃ earlier last, asked = earlier ++ last ∧ last.length = MAX_RETRIES + 1 ∧
    ∀ a ∈ last, a.1 = s.i ∧ Late a.2 = true

/-- No file is found once a wait was late. -/
def NoneFoundLate (waits : List Wait) : Prop :=
  waits.Pairwise fun u v => ¬ (Late u = true ∧ v.found = true)

instance (waits : List Wait) : Decidable (NoneFoundLate waits) :=
  inferInstanceAs (Decidable (waits.Pairwise _))

/-- Neither the list is through before the allowance is used up, nor is a file found late. -/
def AllowanceKept (files : List File) (waits : List Wait) : Prop :=
  waits.countP Wait.found < files.length → MAX_RETRIES < waits.countP Late → NoneFoundLate waits

theorem stop_stays (h : Reaches (polling files) StopStays x) :
    x.2.Pairwise fun u v => u.2.stop = true → v.2.stop = true := by
  refine h.invariant
    (I := fun x => x.2.Pairwise fun u v => u.2.stop = true → v.2.stop = true) ?_ ?_
  · rintro ⟨s, asked⟩ ⟨-, ha⟩
    obtain rfl : asked = [] := ha
    exact .nil
  · intro y w hy _ hstays
    refine List.pairwise_append.mpr ⟨hy, List.pairwise_singleton _ _, ?_⟩
    intro a ha b hb hstop
    rw [List.mem_singleton.mp hb]
    exact hstays a ha hstop

/-- Waits in a row without success are all for the file that is waited for now. -/
theorem same_file (h : Reaches (polling files) C x) :
    ∀ earlier last, x.2 = earlier ++ last → (∀ a ∈ last, a.2.found = false) →
      ∀ a ∈ last, a.1 = x.1.i := by
  refine h.invariant (I := fun x => ∀ earlier last, x.2 = earlier ++ last →
    (∀ a ∈ last, a.2.found = false) → ∀ a ∈ last, a.1 = x.1.i) ?_ ?_
  · rintro ⟨s, asked⟩ ⟨-, ha⟩ earlier last hsplit - a hmem
    obtain rfl : asked = [] := ha
    rw [(List.append_eq_nil_iff.mp hsplit.symm).2] at hmem
    cases hmem
  · rintro ⟨s, asked⟩ w hy - - earlier last hsplit hnone a hmem
    rcases List.eq_nil_or_concat last with rfl | ⟨last', b, rfl⟩
    · cases hmem
    · rw [List.concat_eq_append] at hsplit hnone hmem
      have hsplit : asked ++ [(s.i, w)] = (earlier ++ last') ++ [b] := by
        rw [List.append_assoc]
        exact hsplit
      obtain ⟨hasked, hb⟩ := List.append_inj' hsplit rfl
      obtain rfl : (s.i, w) = b := (List.cons.inj hb).1
      have hw : w.found = false := hnone (s.i, w) (by simp)
      have hi : (next files s w).i = s.i := by
        rw [next, hw]
        cases w.stop <;> rfl
      refine Eq.trans ?_ hi.symm
      rcases List.mem_append.mp hmem with hin | hin
      · exact hy earlier last' hasked (fun a ha => hnone a (List.mem_append_left _ ha)) a hin
      · rw [List.mem_singleton.mp hin]

/-- From the first late wait on every wait is late. -/
theorem late_from {asked : List (ℕ × Wait)}
    (hstop : asked.Pairwise fun u v => u.2.stop = true → v.2.stop = true)
    (hnone : NoneFoundLate (asked.map Prod.snd)) :
    ∃ earlier last, asked = earlier ++ last ∧ (∀ a ∈ earlier, Late a.2 = false) ∧
      ∀ a ∈ last, Late a.2 = true := by
  induction asked with
  | nil => exact ⟨[], [], rfl, by simp, by simp⟩
  | cons a asked ih =>
    rw [NoneFoundLate, List.map_cons, List.pairwise_cons] at hnone
    rw [List.pairwise_cons] at hstop
    cases hlate : Late a.2 with
    | true =>
      refine ⟨[], a :: asked, rfl, by simp, ?_⟩
      intro b hb
      rcases List.mem_cons.mp hb with rfl | hb
      · exact hlate
      · have hmissing : ¬ b.2.found = true := fun hfound =>
          hnone.1 b.2 (List.mem_map_of_mem hb) ⟨hlate, hfound⟩
        have hset : b.2.stop = true := hstop.1 b hb (by simp [Late] at hlate; exact hlate.2)
        simp [Late, hmissing, hset]
    | false =>
      obtain ⟨earlier, last, rfl, hearlier, hlast⟩ := ih hstop.2 hnone.2
      refine ⟨a :: earlier, last, rfl, ?_, hlast⟩
      intro b hb
      rcases List.mem_cons.mp hb with rfl | hb
      · exact hlate
      · exact hearlier b hb

theorem countP_late {earlier last : List (ℕ × Wait)} (hearlier : ∀ a ∈ earlier, Late a.2 = false)
    (hlast : ∀ a ∈ last, Late a.2 = true) :
    (earlier ++ last).countP (fun a => Late a.2) = last.length := by
  have hzero : earlier.countP (fun a => Late a.2) = 0 := by
    apply List.countP_eq_zero.mpr
    intro a ha hlate
    rw [hearlier a ha] at hlate
    cases hlate
  rw [List.countP_append, hzero, List.countP_eq_length.mpr hlast, Nat.zero_add]

/-- The late waits are at the end, and there are just as many as it takes to give up. -/
theorem ownRetries_of_none (h : Reaches (polling files) StopStays x)
    (hnone : NoneFoundLate (x.2.map Prod.snd)) : OwnRetries files x.1 x.2 := by
  rintro ⟨-, hretries⟩
  obtain ⟨earlier, last, hsplit, hearlier, hlast⟩ := late_from (stop_stays h) hnone
  have hcounters := counters h
  refine ⟨earlier, last, hsplit, ?_, fun a ha => ⟨?_, hlast a ha⟩⟩
  · have hcount := hcounters.retries
    rw [hsplit, countP_late hearlier hlast] at hcount
    have := hcounters.bounded
    omega
  · refine same_file h earlier last hsplit ?_ a ha
    intro b hb
    have := hlast b hb
    simp [Late] at this
    exact this.1

theorem none_of_ownRetries (h : Reaches (polling files) StopStays x)
    (hgives : GivesUp files x.1) (hown : OwnRetries files x.1 x.2) :
    NoneFoundLate (x.2.map Prod.snd) := by
  obtain ⟨earlier, last, hsplit, hlength, hlast⟩ := hown hgives
  have hcounters := counters h
  have hcount : earlier.countP (fun a => Late a.2) = 0 := by
    have hretries := hcounters.retries
    rw [hsplit, List.countP_append, List.countP_eq_length.mpr fun a ha => (hlast a ha).2]
      at hretries
    have := hcounters.bounded
    omega
  rw [NoneFoundLate, hsplit, List.map_append, List.pairwise_append]
  refine ⟨?_, ?_, ?_⟩
  · refine List.Pairwise.imp_of_mem ?_ (List.pairwise_of_forall (R := fun _ _ => True) (by simp))
    rintro u v hu - - ⟨hlate, -⟩
    obtain ⟨a, ha, rfl⟩ := List.mem_map.mp hu
    exact List.countP_eq_zero.mp hcount a ha hlate
  · refine List.Pairwise.imp_of_mem ?_ (List.pairwise_of_forall (R := fun _ _ => True) (by simp))
    rintro u v - hv - ⟨-, hfound⟩
    obtain ⟨b, hb, rfl⟩ := List.mem_map.mp hv
    have := (hlast b hb).2
    simp [Late, hfound] at this
  · rintro u hu v - ⟨hlate, -⟩
    obtain ⟨a, ha, rfl⟩ := List.mem_map.mp hu
    exact List.countP_eq_zero.mp hcount a ha hlate

theorem own_retries_iff (files : List File) (x : State × List (ℕ × Wait))
    (h : Reaches (polling files) StopStays x) :
    OwnRetries files x.1 x.2 ↔ AllowanceKept files (x.2.map Prod.snd) := by
  have hcounters := counters h
  have hi : (x.2.map Prod.snd).countP Wait.found = x.1.i := by
    rw [List.countP_map, hcounters.i]
    rfl
  have hretries : (x.2.map Prod.snd).countP Late = x.1.retries := by
    rw [List.countP_map, hcounters.retries]
    rfl
  rw [AllowanceKept, hi, hretries]
  constructor
  · intro hown hlt hmax
    exact none_of_ownRetries h ⟨hlt, hmax⟩ hown
  · intro hkept hgives
    exact ownRetries_of_none h (hkept hgives.1 hgives.2) hgives

/-- The master file and two data files. -/
def threeFiles : List File :=
  (List.range 3).map (FileWriter.buildFile ⟨[], 1, 2, true, true, true, 0⟩ 0 0)

theorem own_retries_last_missing : Reaches (polling threeFiles) StopStays
      (runTrace (polling threeFiles) (⟨0, 0, []⟩, [])
        [⟨true, false⟩, ⟨true, true⟩, ⟨false, true⟩, ⟨false, true⟩, ⟨false, true⟩]) ∧
    (OwnRetries threeFiles ⟨2, 3, [.send 0, .send 1]⟩
      [(0, ⟨true, false⟩), (1, ⟨true, true⟩), (2, ⟨false, true⟩), (2, ⟨false, true⟩),
        (2, ⟨false, true⟩)] ↔
      AllowanceKept threeFiles
        [⟨true, false⟩, ⟨true, true⟩, ⟨false, true⟩, ⟨false, true⟩, ⟨false, true⟩]) := by
  have hvalid : ValidTrace (polling threeFiles) StopStays (⟨0, 0, []⟩, [])
      [⟨true, false⟩, ⟨true, true⟩, ⟨false, true⟩, ⟨false, true⟩, ⟨false, true⟩] := by decide
  have hrun := hvalid.reaches (.start ⟨rfl, rfl⟩)
  exact ⟨hrun, own_retries_iff threeFiles _ hrun⟩

/-- The first data file comes at the second attempt, and the last is given only two. -/
theorem late_file_lost : ¬ ∀ (files : List File) (x : State × List (ℕ × Wait)),
    Reaches (polling files) StopStays x → OwnRetries files x.1 x.2 := by
  intro h
  have hvalid : ValidTrace (polling threeFiles) StopStays (⟨0, 0, []⟩, [])
      [⟨true, false⟩, ⟨false, true⟩, ⟨true, true⟩, ⟨false, true⟩, ⟨false, true⟩] := by decide
  have hrun := hvalid.reaches (.start ⟨rfl, rfl⟩)
  have hnone := none_of_ownRetries hrun (by decide) (h threeFiles _ hrun)
  exact absurd hnone (by decide)

end Retries

end PollTask
