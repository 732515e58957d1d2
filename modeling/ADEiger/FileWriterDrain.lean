import ADEiger.FileWriterPending
import ADEiger.Inevitable
import Mathlib

/-! That the FileWriter pipeline comes to an end.
The queues are bounded, so that a worker may have to wait for another; a file goes from task to
task in one direction only, and each of its steps leaves less to be done. -/
namespace FileWriter

open TransitionSystem

variable {s : State} {e : Event} {p : FilePtr}

section Work

def State.len (s : State) (p : FilePtr) : ℕ := (s.files p).len

/-- The files that pollTask has still to hand over, `total` in all and `left` in its loop. -/
def PollPc.toPoll (total left : ℕ) : PollPc → ℕ
  | .reset => total
  | .polling | .count | .send => left
  | .receive | .draining | .free => 0

/-- The steps of pollTask, which gives up after `waits` more of them without a file. -/
def PollPc.steps (total left waits : ℕ) : PollPc → ℕ
  | .receive => 0
  | .free => 1
  | .draining => 2
  | .send => 3 + waits + 5 * left
  | .count => 4 + waits + 5 * left
  | .polling => 5 + waits + 5 * left
  | .reset => 6 + (MAX_RETRIES + 1) + 5 * total

/-- The steps of all tasks that follow from one of downloadTask, until the file is gone. -/
def DownloadPc.steps (len : FilePtr → ℕ) : DownloadPc → ℕ
  | .receive => 0
  | .getFile _ => 1
  | .sendFailed _ => 7
  | .sendSave p => 11 + len p
  | .testSave p => 12 + len p
  | .sendParse p => 22 + len p
  | .testParse p => 23 + len p

def ParsePc.steps : ParsePc → ℕ
  | .receive => 0
  | .sendReap _ => 7
  | .parseFile _ => 8

def SavePc.steps (len : FilePtr → ℕ) : SavePc → ℕ
  | .receive => 0
  | .sendReap _ => 7
  | .write p total => 8 + (len p - total)
  | .openFile p => 9 + len p

def ReapPc.steps : ReapPc → ℕ
  | .receive => 0
  | .uncount _ => 1
  | .freeData _ => 2
  | .deleteFile _ => 3
  | .testRemove _ => 4
  | .release _ => 5

/-- The downloads to come; how much a download brings is not known before it. -/
def State.downloads (s : State) : ℕ :=
  s.poll.toPoll s.totalFiles (s.totalFiles - s.i) + s.downloadQueue.queue.length +
    s.download.getting.length

/-- The steps that are left as long as no download is made. -/
def State.steps (s : State) : ℕ :=
  s.poll.steps s.totalFiles (s.totalFiles - s.i) (MAX_RETRIES + 1 - s.retries) +
    s.download.steps s.len + s.parse.steps + s.save.steps s.len + s.reap.steps +
    2 * s.downloadQueue.queue.length + 9 * s.parseQueue.queue.length +
    (s.saveQueue.queue.map fun p => 10 + s.len p).sum + 6 * s.reapQueue.queue.length

def State.work (s : State) : ℕ × ℕ := (s.downloads, s.steps)

/-- Fewer downloads are left, or the same and fewer steps. -/
def Less : ℕ × ℕ → ℕ × ℕ → Prop := Prod.Lex (· < ·) (· < ·)

theorem less_wellFounded : WellFounded Less := WellFounded.prod_lex Nat.lt_wfRel.wf Nat.lt_wfRel.wf

theorem less_iff {a b : ℕ × ℕ} : Less a b ↔ a.1 < b.1 ∨ a.1 = b.1 ∧ a.2 < b.2 := Prod.lex_def

end Work

section Variant

/-- A step of the tasks, which needs no request from outside; a look at the counter that finds it
not to be zero changes nothing and is not counted. -/
def Task (s : State) : Event → Prop
  | .submit _ | .stop | .overwrite _ | .receiveAcquisition _ _ _ => False
  | .readPending => s.pendingFiles = 0
  | _ => True

theorem cons_of_head {c : Channel FilePtr} (h : c.queue.head? = some p) :
    c.queue = p :: c.receive.queue := List.eq_cons_of_mem_head? h

theorem len_setFile {f : File} (h : f.len = (s.files p).len) (q : FilePtr) :
    (setFile s p f q).len = s.len q := by
  rw [setFile, Function.update_apply, State.len]
  split_ifs with hq
  · rw [hq, h]
  · rfl

theorem len_next (hg : ∀ p result, e ≠ .getFile p result) (ht : Task s e) :
    (next s e).len = s.len := by
  cases e with
  | receiveAcquisition _ _ _ => exact absurd ht id
  | overwrite _ => exact absurd ht id
  | getFile p result => exact absurd rfl (hg p result)
  | waitFile found => simp only [next]; split_ifs <;> rfl
  | readPending => simp only [next]; split_ifs <;> rfl
  | openFile p ok => cases ok <;> [exact funext (len_setFile rfl); rfl]
  | write p total result => cases result <;> [exact funext (len_setFile rfl); rfl]
  | release p => exact funext (len_setFile rfl)
  | freeData p => simp only [next]; split_ifs <;> [exact funext (len_setFile rfl); rfl]
  | _ => rfl

theorem work_next (hlist : e = .sendDownload → s.i < s.totalFiles)
    (hstop : e = .waitFile false → s.pollStop = true) (he : Enabled s e) (ht : Task s e) :
    Less (next s e).work s.work := by
  rw [less_iff]
  by_cases hg : ∃ p result, e = .getFile p result
  · obtain ⟨p, result, rfl⟩ := hg
    left
    have hpc : s.download = .getFile p := he
    cases result <;>
      simp [State.work, State.downloads, next, hpc]
  have hlen := len_next (fun p result h => hg ⟨p, result, h⟩) ht
  simp only [State.work, State.downloads, State.steps, hlen]
  cases e with
  | submit _ => exact absurd ht id
  | stop => exact absurd ht id
  | overwrite _ => exact absurd ht id
  | receiveAcquisition _ _ _ => exact absurd ht id
  | getFile p result => exact absurd ⟨p, result, rfl⟩ hg
  | resetPending =>
    have hpc : s.poll = .reset := he
    simp only [next, hpc, PollPc.toPoll, PollPc.steps]
    omega
  | waitFile found =>
    obtain ⟨hpc, hlt, hretries⟩ := he
    have hallowed : s.retries < MAX_RETRIES + 1 := Nat.lt_succ_of_le hretries
    cases found with
    | true =>
      simp only [next, if_true]
      split_ifs <;> simp only [hpc, true_and, PollPc.toPoll, PollPc.steps] <;> omega
    | false =>
      simp only [next, Bool.false_eq_true, if_false, if_pos (hstop rfl), hpc, true_and,
        PollPc.toPoll, PollPc.steps]
      omega
  | leaveLoop =>
    obtain ⟨hpc, -⟩ := he
    simp only [next, hpc, PollPc.toPoll, PollPc.steps]
    omega
  | count =>
    have hpc : s.poll = .count := he
    simp only [next, hpc, true_and, PollPc.toPoll, PollPc.steps]
    omega
  | sendDownload =>
    obtain ⟨hpc, -⟩ := he
    have hlt := hlist rfl
    simp only [next, hpc, PollPc.toPoll, PollPc.steps, Channel.send, List.length_append,
      List.length_singleton]
    omega
  | readPending =>
    have hpc : s.poll = .draining := he
    have hzero : s.pendingFiles = 0 := ht
    simp only [next, if_pos hzero, hpc, true_and, PollPc.toPoll, PollPc.steps]
    omega
  | free =>
    have hpc : s.poll = .free := he
    simp only [next, hpc, true_and, PollPc.toPoll, PollPc.steps]
    omega
  | receiveDownload p =>
    obtain ⟨hpc, hhead⟩ := he
    have hlength := congrArg List.length (cons_of_head hhead)
    simp only [next, hpc, DownloadPc.getting, DownloadPc.steps, List.length_cons,
      List.length_nil] at *
    omega
  | testParse p =>
    have hpc : s.download = .testParse p := he
    simp only [next, hpc]
    split_ifs <;> simp only [true_and, DownloadPc.getting, DownloadPc.steps] <;> omega
  | sendParse p =>
    obtain ⟨hpc, -⟩ := he
    simp only [next, hpc, true_and, DownloadPc.getting, DownloadPc.steps, Channel.send,
      List.length_append, List.length_singleton]
    omega
  | testSave p =>
    have hpc : s.download = .testSave p := he
    simp only [next, hpc]
    split_ifs <;> simp only [true_and, DownloadPc.getting, DownloadPc.steps] <;> omega
  | sendSave p =>
    obtain ⟨hpc, -⟩ := he
    simp only [next, hpc, true_and, DownloadPc.getting, DownloadPc.steps, Channel.send,
      List.map_append, List.sum_append, List.map_cons, List.map_nil, List.sum_singleton]
    omega
  | sendFailed p =>
    obtain ⟨hpc, -⟩ := he
    simp only [next, hpc, true_and, DownloadPc.getting, DownloadPc.steps, Channel.send,
      List.length_append, List.length_singleton]
    omega
  | receiveParse p =>
    obtain ⟨hpc, hhead⟩ := he
    have hlength := congrArg List.length (cons_of_head hhead)
    simp only [next, hpc, true_and, ParsePc.steps, List.length_cons] at *
    omega
  | parseFile p =>
    have hpc : s.parse = .parseFile p := he
    simp only [next, hpc, true_and, ParsePc.steps]
    omega
  | sendParsed p =>
    obtain ⟨hpc, -⟩ := he
    simp only [next, hpc, true_and, ParsePc.steps, Channel.send, List.length_append,
      List.length_singleton]
    omega
  | receiveSave p =>
    obtain ⟨hpc, hhead⟩ := he
    have hsum := congrArg (fun ps => (ps.map fun p => 10 + s.len p).sum) (cons_of_head hhead)
    simp only [next, hpc, true_and, SavePc.steps, List.map_cons, List.sum_cons] at *
    omega
  | openFile p ok =>
    have hpc : s.save = .openFile p := he
    cases ok <;> simp only [next, hpc, true_and, SavePc.steps] <;> omega
  | write p total result =>
    obtain ⟨hpc, hlt, hresult⟩ := he
    have hlen : s.len p = (s.files p).len := rfl
    cases result with
    | none =>
      simp only [next, hpc, true_and, SavePc.steps]
      omega
    | some n =>
      obtain ⟨hpos, hle⟩ := hresult
      simp only [next, hpc, true_and, SavePc.steps]
      omega
  | closeFile p total =>
    obtain ⟨hpc, -⟩ := he
    simp only [next, hpc, true_and, SavePc.steps]
    omega
  | sendSaved p =>
    obtain ⟨hpc, -⟩ := he
    simp only [next, hpc, true_and, SavePc.steps, Channel.send, List.length_append,
      List.length_singleton]
    omega
  | receiveReap p =>
    obtain ⟨hpc, hhead⟩ := he
    have hlength := congrArg List.length (cons_of_head hhead)
    simp only [next, hpc, true_and, ReapPc.steps, List.length_cons] at *
    omega
  | release p =>
    have hpc : s.reap = .release p := he
    simp only [next, hpc]
    split_ifs <;> simp only [true_and, ReapPc.steps] <;> omega
  | testRemove p =>
    have hpc : s.reap = .testRemove p := he
    simp only [next, hpc]
    split_ifs <;> simp only [true_and, ReapPc.steps] <;> omega
  | deleteFile p =>
    have hpc : s.reap = .deleteFile p := he
    simp only [next, hpc, true_and, ReapPc.steps]
    omega
  | freeData p =>
    have hpc : s.reap = .freeData p := he
    simp only [next, hpc]
    split_ifs <;> simp only [true_and, ReapPc.steps] <;> omega
  | uncount p =>
    have hpc : s.reap = .uncount p := he
    simp only [next, hpc, true_and, ReapPc.steps]
    omega

end Variant

section Workers

/-- A step of downloadTask, parseTask, saveTask or reapTask. -/
def Worker : Event → Prop
  | .submit _ | .stop | .overwrite _ | .receiveAcquisition _ _ _ | .resetPending | .waitFile _
  | .leaveLoop | .count | .sendDownload | .readPending | .free => False
  | _ => True

theorem Worker.task (h : Worker e) : Task s e := by
  cases e <;> first | exact h | trivial

/-- Nothing is queued and no worker holds a file. -/
structure Drained (s : State) : Prop where
  downloadQueue : s.downloadQueue.queue = []
  parseQueue : s.parseQueue.queue = []
  saveQueue : s.saveQueue.queue = []
  reapQueue : s.reapQueue.queue = []
  download : s.download = .receive
  parse : s.parse = .receive
  save : s.save = .receive
  reap : s.reap = .receive

/-- A worker can go on, whether or not its file comes in. -/
def Ready (s : State) : Prop := ∃ e, Enabled s e ∧ Worker e ∧ ∀ p, e ≠ .getFile p none

theorem head_of_ne {c : Channel FilePtr} (h : c.queue ≠ []) : ∃ p, c.queue.head? = some p := by
  obtain ⟨p, tail, hq⟩ := List.exists_cons_of_ne_nil h
  exact ⟨p, by rw [hq, List.head?_cons]⟩

theorem length_lt_of_nil {c : Channel FilePtr} (h : c.queue = []) {n : ℕ} (hn : 0 < n) :
    c.queue.length < n := by
  rw [h]
  exact hn

/-- reapTask sends nothing, so that it never has to wait. -/
theorem reap_ready (h : ¬ (s.reapQueue.queue = [] ∧ s.reap = .receive)) : Ready s := by
  cases hpc : s.reap with
  | receive =>
    obtain ⟨p, hp⟩ := head_of_ne fun hq => h ⟨hq, hpc⟩
    exact ⟨.receiveReap p, ⟨hpc, hp⟩, trivial, fun _ h => by cases h⟩
  | release p => exact ⟨.release p, hpc, trivial, fun _ h => by cases h⟩
  | testRemove p => exact ⟨.testRemove p, hpc, trivial, fun _ h => by cases h⟩
  | deleteFile p => exact ⟨.deleteFile p, hpc, trivial, fun _ h => by cases h⟩
  | freeData p => exact ⟨.freeData p, hpc, trivial, fun _ h => by cases h⟩
  | uncount p => exact ⟨.uncount p, hpc, trivial, fun _ h => by cases h⟩

theorem parse_ready (hreap : s.reapQueue.queue = [])
    (h : ¬ (s.parseQueue.queue = [] ∧ s.parse = .receive)) : Ready s := by
  cases hpc : s.parse with
  | receive =>
    obtain ⟨p, hp⟩ := head_of_ne fun hq => h ⟨hq, hpc⟩
    exact ⟨.receiveParse p, ⟨hpc, hp⟩, trivial, fun _ h => by cases h⟩
  | parseFile p => exact ⟨.parseFile p, hpc, trivial, fun _ h => by cases h⟩
  | sendReap p =>
    exact ⟨.sendParsed p, ⟨hpc, length_lt_of_nil hreap (by decide)⟩, trivial,
      fun _ h => by cases h⟩

theorem save_ready (hreap : s.reapQueue.queue = [])
    (h : ¬ (s.saveQueue.queue = [] ∧ s.save = .receive)) : Ready s := by
  cases hpc : s.save with
  | receive =>
    obtain ⟨p, hp⟩ := head_of_ne fun hq => h ⟨hq, hpc⟩
    exact ⟨.receiveSave p, ⟨hpc, hp⟩, trivial, fun _ h => by cases h⟩
  | openFile p => exact ⟨.openFile p true, hpc, trivial, fun _ h => by cases h⟩
  | write p total =>
    by_cases hlt : total < (s.files p).len
    · exact ⟨.write p total none, ⟨hpc, hlt, trivial⟩, trivial, fun _ h => by cases h⟩
    · exact ⟨.closeFile p total, ⟨hpc, hlt⟩, trivial, fun _ h => by cases h⟩
  | sendReap p =>
    exact ⟨.sendSaved p, ⟨hpc, length_lt_of_nil hreap (by decide)⟩, trivial,
      fun _ h => by cases h⟩

theorem download_ready (hparse : s.parseQueue.queue = []) (hsave : s.saveQueue.queue = [])
    (hreap : s.reapQueue.queue = [])
    (h : ¬ (s.downloadQueue.queue = [] ∧ s.download = .receive)) : Ready s := by
  cases hpc : s.download with
  | receive =>
    obtain ⟨p, hp⟩ := head_of_ne fun hq => h ⟨hq, hpc⟩
    exact ⟨.receiveDownload p, ⟨hpc, hp⟩, trivial, fun _ h => by cases h⟩
  | getFile p => exact ⟨.getFile p (some []), hpc, trivial, fun _ h => by cases h⟩
  | testParse p => exact ⟨.testParse p, hpc, trivial, fun _ h => by cases h⟩
  | sendParse p =>
    exact ⟨.sendParse p, ⟨hpc, length_lt_of_nil hparse (by decide)⟩, trivial,
      fun _ h => by cases h⟩
  | testSave p => exact ⟨.testSave p, hpc, trivial, fun _ h => by cases h⟩
  | sendSave p =>
    exact ⟨.sendSave p, ⟨hpc, length_lt_of_nil hsave (by decide)⟩, trivial,
      fun _ h => by cases h⟩
  | sendFailed p =>
    exact ⟨.sendFailed p, ⟨hpc, length_lt_of_nil hreap (by decide)⟩, trivial,
      fun _ h => by cases h⟩

/-- The workers do not wait for each other in a circle: reapTask is behind all of them. -/
theorem ready_of_not_drained (h : ¬ Drained s) : Ready s := by
  by_cases hreap : s.reapQueue.queue = [] ∧ s.reap = .receive
  · by_cases hsave : s.saveQueue.queue = [] ∧ s.save = .receive
    · by_cases hparse : s.parseQueue.queue = [] ∧ s.parse = .receive
      · refine download_ready hparse.1 hsave.1 hreap.1 fun hdownload => h ?_
        exact ⟨hdownload.1, hparse.1, hsave.1, hreap.1, hdownload.2, hparse.2, hsave.2, hreap.2⟩
      · exact parse_ready hreap.1 hparse
    · exact save_ready hreap.1 hsave
  · exact reap_ready hreap

/-- In whatever order the workers run and whatever they find, they come to the end of what is
queued, and none of them is held up for ever by a full queue. -/
theorem pipeline_drains (s : State) : Inevitable system (fun _ e => Worker e) Drained s := by
  refine Inevitable.of_variant (I := fun _ => True) less_wellFounded State.work
    (fun s _ hd => ?_) (fun s e _ _ he hw => ?_) trivial
  · obtain ⟨e, he, hw, -⟩ := ready_of_not_drained hd
    exact ⟨e, he, hw⟩
  · right
    refine ⟨trivial, work_next ?_ ?_ he hw.task⟩
    · rintro rfl
      exact absurd hw id
    · rintro rfl
      exact absurd hw id

end Workers

section Completion

/-- A step of the tasks, in which no file that is to be both parsed and saved fails to be
downloaded. -/
def Undisturbed (s : State) (e : Event) : Prop :=
  Task s e ∧ ∀ p, e = .getFile p none → ¬ ((s.files p).save ∧ (s.files p).parse)

/-- An acquisition that was asked to stop; what downloadTask holds before its test of `file->save`
belongs to it. -/
structure Finishing (s : State) : Prop where
  reaches : Reaches system KeepsTokens s
  stop : s.pollStop = true
  poll : s.poll ≠ .receive
  live : ∀ p, s.download = .testSave p → Live s p

theorem Drained.quiescent (h : Drained s) (hpoll : s.poll ≠ .send) : Quiescent s :=
  ⟨h.downloadQueue, h.parseQueue, h.saveQueue, h.reapQueue, hpoll, h.download, h.parse, h.save,
    h.reap⟩

theorem poll_ready (h : Finishing s) (hd : Drained s) : ∃ e, Enabled s e ∧ Undisturbed s e := by
  have htask : ∀ {e : Event}, Task s e → (∀ p, e ≠ .getFile p none) → Undisturbed s e :=
    fun ht hg => ⟨ht, fun p hp => absurd hp (hg p)⟩
  cases hpc : s.poll with
  | receive => exact absurd hpc h.poll
  | reset => exact ⟨.resetPending, hpc, htask trivial fun _ h => by cases h⟩
  | polling =>
    by_cases hguard : LoopGuard s
    · exact ⟨.waitFile true, ⟨hpc, hguard⟩, htask trivial fun _ h => by cases h⟩
    · exact ⟨.leaveLoop, ⟨hpc, hguard⟩, htask trivial fun _ h => by cases h⟩
  | count => exact ⟨.count, hpc, htask trivial fun _ h => by cases h⟩
  | send =>
    exact ⟨.sendDownload, ⟨hpc, length_lt_of_nil hd.downloadQueue (by decide)⟩,
      htask trivial fun _ h => by cases h⟩
  | draining =>
    have hreads := h.reaches.mono fun _ _ => KeepsTokens.readsLive
    have hquiet := hd.quiescent (by rw [hpc]; exact fun h => by cases h)
    have hzero := (quiescent_pending_iff hreads hquiet).mpr (failed_single h.reaches)
    exact ⟨.readPending, hpc, htask hzero fun _ h => by cases h⟩
  | free => exact ⟨.free, hpc, htask trivial fun _ h => by cases h⟩

theorem Finishing.ready (h : Finishing s) : ∃ e, Enabled s e ∧ Undisturbed s e := by
  by_cases hd : Drained s
  · exact poll_ready h hd
  · obtain ⟨e, he, hw, hg⟩ := ready_of_not_drained hd
    exact ⟨e, he, hw.task, fun p hp => absurd hp (hg p)⟩

theorem list_next (ht : Task s e) : (next s e).block = s.block ∧
    (next s e).totalFiles = s.totalFiles ∧ (next s e).pollStop = s.pollStop := by
  cases e with
  | submit _ => exact absurd ht id
  | stop => exact absurd ht id
  | overwrite _ => exact absurd ht id
  | receiveAcquisition _ _ _ => exact absurd ht id
  | waitFile found => simp only [next]; split_ifs <;> exact ⟨rfl, rfl, rfl⟩
  | readPending => simp only [next]; split_ifs <;> exact ⟨rfl, rfl, rfl⟩
  | getFile p result => cases result <;> exact ⟨rfl, rfl, rfl⟩
  | openFile p ok => cases ok <;> exact ⟨rfl, rfl, rfl⟩
  | write p total result => cases result <;> exact ⟨rfl, rfl, rfl⟩
  | freeData p => simp only [next]; split_ifs <;> exact ⟨rfl, rfl, rfl⟩
  | _ => exact ⟨rfl, rfl, rfl⟩

/-- downloadTask comes to the test of `file->save` from the part before it. -/
theorem testSave_next (he : Enabled s e) (hpc : (next s e).download = .testSave p) :
    s.download = .testSave p ∨ p ∈ s.download.early := by
  cases e with
  | waitFile found => simp only [next] at hpc; split_ifs at hpc <;> exact .inl hpc
  | readPending => simp only [next] at hpc; split_ifs at hpc <;> exact .inl hpc
  | getFile q result => cases result <;> cases hpc
  | openFile q ok => cases ok <;> exact .inl hpc
  | write q total result => cases result <;> exact .inl hpc
  | freeData q => simp only [next] at hpc; split_ifs at hpc <;> exact .inl hpc
  | receiveDownload q => cases hpc
  | testParse q =>
    have hq : s.download = .testParse q := he
    simp only [next] at hpc
    split_ifs at hpc
    cases hpc
    exact .inr (hq ▸ List.mem_singleton.mpr rfl)
  | sendParse q =>
    cases hpc
    exact .inr (he.1 ▸ List.mem_singleton.mpr rfl)
  | testSave q =>
    simp only [next] at hpc
    split_ifs at hpc
  | sendSave q => cases hpc
  | sendFailed q => cases hpc
  | _ => exact .inl hpc

theorem early_undecided (h : p ∈ s.download.early) : p ∈ s.download.undecided := by
  cases hpc : s.download <;> rw [hpc] at h <;> first | exact h | cases h

/-- What downloadTask has in its hands before the test of `file->save` is of the list. -/
def HoldsLive (s : State) : Prop := ∀ p, s.download = .testSave p → Live s p

theorem HoldsLive.keepsTokens (h : HoldsLive s) (he : Enabled s e) (hu : Undisturbed s e) :
    KeepsTokens s e := by
  cases e with
  | getFile p result => exact fun hnone => hu.2 p (by rw [hnone])
  | testSave p => exact h p he
  | _ => trivial

/-- It comes there from the part of its work in which the file is counted and not yet released. -/
theorem HoldsLive.next (h : HoldsLive s) (hr : Reaches system KeepsTokens s) (he : Enabled s e)
    (hp : (next s e).download = .testSave p) : Live s p := by
  have hreads := hr.mono fun _ _ => KeepsTokens.readsLive
  rcases testSave_next he hp with hp | hp
  · exact h p hp
  · exact (reaches_tokens hreads).early_live (reaches_conservation hreads)
      (reaches_ordered hreads) hp (early_undecided hp)

theorem Finishing.next (h : Finishing s) (he : Enabled s e) (hu : Undisturbed s e)
    (hpoll : (next s e).poll ≠ .receive) : Finishing (next s e) := by
  obtain ⟨hblock, htotal, hstop⟩ := list_next hu.1
  have hlive : HoldsLive s := h.live
  refine ⟨.step h.reaches he (hlive.keepsTokens he hu), hstop.trans h.stop, hpoll, fun p hp => ?_⟩
  obtain ⟨-, hp', hidx⟩ := hlive.next h.reaches he hp
  exact ⟨hpoll, hp'.trans hblock.symm, htotal ▸ hidx⟩

/-- One data file is with parseTask when the stop comes. -/
def traceStopped : List Event := traceDeliver parseOnly ++ [.stop]

end Completion

end FileWriter
