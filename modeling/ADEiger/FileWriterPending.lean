import ADEiger.FileWriterReap

/-! What `mPendingFiles` says about the pipeline: when it reaches zero, and what is still
going on at that moment. -/
namespace FileWriter

open TransitionSystem

variable {s : State} {e : Event} {p : FilePtr}

/-- The queues are empty and no worker holds a file; pollTask holds one between its
increment of the counter and the send. -/
structure Quiescent (s : State) : Prop where
  downloadQueue : s.downloadQueue.queue = []
  parseQueue : s.parseQueue.queue = []
  saveQueue : s.saveQueue.queue = []
  reapQueue : s.reapQueue.queue = []
  poll : s.poll ≠ .send
  download : s.download = .receive
  parse : s.parse = .receive
  save : s.save = .receive
  reap : s.reap = .receive

instance (s : State) : Decidable (Quiescent s) :=
  decidable_of_iff (s.downloadQueue.queue = [] ∧ s.parseQueue.queue = [] ∧
      s.saveQueue.queue = [] ∧ s.reapQueue.queue = [] ∧ s.poll ≠ .send ∧
      s.download = .receive ∧ s.parse = .receive ∧ s.save = .receive ∧ s.reap = .receive)
    ⟨fun ⟨a, b, c, d, e, f, g, h, i⟩ => ⟨a, b, c, d, e, f, g, h, i⟩,
      fun ⟨a, b, c, d, e, f, g, h, i⟩ => ⟨a, b, c, d, e, f, g, h, i⟩⟩

/-- In a quiescent state a counted file was disposed of, unless it was meant for both
consumers and its download failed: then one of its two references is never released. -/
theorem quiescent_settled (h : Tokens s) (hc : Conservation s) (ho : Ordered s)
    (hq : Quiescent s) (hp : p ∈ s.counted) :
    p ∈ s.uncounted ↔ ¬ (p ∈ s.failed ∧ (s.built p).save ∧ (s.built p).parse) := by
  have hpos := h.refs_pos hp
  obtain ⟨e₁, e₂, e₃, e₄, e₅, e₆, e₇, e₈⟩ := hc.flow p
  have honce := download_once hc ho p
  have hparse := h.parse_le hc ho p
  have hsave := h.save_le hc ho p
  have hd := h.disposed p
  have hone := List.count_pos_iff.mpr hp
  simp only [hq.downloadQueue, hq.parseQueue, hq.saveQueue, hq.reapQueue, hq.download,
    hq.parse, hq.save, hq.reap, DownloadPc.getting, DownloadPc.early, DownloadPc.undecided,
    DownloadPc.failing, ParsePc.held, SavePc.held, ReapPc.entering, ReapPc.leaving,
    sending, hq.poll, if_false, List.count_nil, List.append_nil] at *
  rw [← List.count_pos_iff, hd, exhausted_pos_iff]
  by_cases hf : p ∈ s.failed
  · have hf1 := List.count_pos_iff.mpr hf
    have hrel : s.released.count p = 1 := by omega
    rw [hrel, File.consumers]
    unfold File.consumers at hpos
    cases hs : (s.built p).save <;> cases hpa : (s.built p).parse <;>
      simp [hf, hs, hpa] at hpos ⊢
  · have hf0 := List.count_eq_zero_of_not_mem hf
    have hdown : p ∈ s.downloaded := List.count_pos_iff.mp (by omega)
    have hps : (s.built p).parse = true → 0 < s.parseQueue.sent.count p := by
      intro hw
      have := h.parse_done p hdown hw
      simp only [hq.download, DownloadPc.early, List.not_mem_nil, or_false] at this
      exact List.count_pos_iff.mpr this
    have hss : (s.built p).save = true → 0 < s.saveQueue.sent.count p := by
      intro hw
      have := h.save_done p hdown hw
      simp only [hq.download, DownloadPc.undecided, List.not_mem_nil, or_false] at this
      exact List.count_pos_iff.mpr this
    have hrel : s.released.count p = (s.built p).consumers := by
      unfold File.consumers
      cases hs : (s.built p).save <;> cases hpa : (s.built p).parse <;>
        simp only [hs, hpa, Bool.toNat_true, Bool.toNat_false, forall_const,
          reduceCtorEq, false_implies] at * <;> omega
    simp [hrel, hpos, hf]

/-- The counter is zero exactly when every counted file has been disposed of. -/
theorem pending_zero_iff (h : Tokens s) (hc : Conservation s) (ho : Ordered s) :
    s.pendingFiles = 0 ↔ ∀ p ∈ s.counted, p ∈ s.uncounted := by
  constructor
  · exact fun hz p hp => h.all_settled hc hz hp
  · intro hall
    have hle := ((nodup_of_increasing ho.increasing).subperm hall).length_le
    have hge := (h.uncounted_nodup.subperm fun q hq =>
      h.gone_counted hc (List.mem_append_left _ hq)).length_le
    have := h.pending
    omega

theorem failed_counted (hc : Conservation s) (hp : p ∈ s.failed) : p ∈ s.counted := by
  have hcounted := (hc.flow p).counted
  have hgot := (hc.flow p).got
  have hpos := List.count_pos_iff.mpr hp
  exact List.count_pos_iff.mp (by omega)

/-- Exactly the failed downloads of files with both consumers keep the counter up. -/
theorem quiescent_pending_iff (h : Reaches system ReadsLive s) (hq : Quiescent s) :
    s.pendingFiles = 0 ↔ ∀ p ∈ s.failed, ¬ ((s.built p).save ∧ (s.built p).parse) := by
  have ht := reaches_tokens h
  have hc := reaches_conservation h
  have ho := reaches_ordered h
  rw [pending_zero_iff ht hc ho]
  constructor
  · intro hall p hf hboth
    have hp := failed_counted hc hf
    exact (quiescent_settled ht hc ho hq hp).mp (hall p hp) ⟨hf, hboth⟩
  · exact fun hall p hp => (quiescent_settled ht hc ho hq hp).mpr fun hf => hall p hf.1 hf.2

/-- No download of a file with both consumers fails, and `file->save` is tested in time. -/
def KeepsTokens (s : State) : Event → Prop
  | .getFile p result => result = none → ¬ ((s.files p).save ∧ (s.files p).parse)
  | .testSave p => Live s p
  | _ => True

instance (s : State) : (e : Event) → Decidable (KeepsTokens s e) := by
  rintro ⟨⟩ <;> simp only [KeepsTokens] <;> infer_instance

theorem KeepsTokens.readsLive (h : KeepsTokens s e) : ReadsLive s e := by
  cases e <;> first | exact h | trivial

theorem getting_live (h : Tokens s) (hc : Conservation s) (ho : Ordered s)
    (hp : s.download = .getFile p) : Live s p := by
  have hcount : p ∈ s.counted := hc.downloaded_counted.subset (by simp [hp])
  apply h.live_of_lt hcount
  have hpos := h.refs_pos hcount
  obtain ⟨e₁, e₂, e₃, e₄, e₅, e₆, e₇, e₈⟩ := hc.flow p
  have honce := download_once hc ho p
  simp only [hp, DownloadPc.getting, List.count_singleton_self] at honce
  omega

theorem failed_single (h : Reaches system KeepsTokens s) :
    ∀ p ∈ s.failed, ¬ ((s.built p).save ∧ (s.built p).parse) := by
  induction h with
  | start hs => rw [show _ = initial from hs]; simp [initial]
  | @step s e hr he hk ih =>
    have hr := hr.mono fun _ _ => KeepsTokens.readsLive
    have hc := reaches_conservation hr
    have ho := reaches_ordered hr
    intro p hp
    rcases failed_next hp with hp | ⟨rfl⟩
    · rw [show (system.next s e).built p = s.built p from
        built_stable ho (failed_counted hc hp)]
      exact ih p hp
    · have ht := reaches_tokens hr
      obtain ⟨hs, hp, -⟩ := ht.memory p (getting_live ht hc ho he)
      change ¬ ((s.built p).save ∧ (s.built p).parse)
      rw [← hs, ← hp]
      exact hk rfl

/-- While no download fails for a file that is both saved and parsed, an idle pipeline has
nothing pending, so the wait of pollTask can end. -/
theorem filewriter_never_strands (h : Reaches system KeepsTokens s) (hq : Quiescent s) :
    s.pendingFiles = 0 :=
  (quiescent_pending_iff (h.mono fun _ _ => KeepsTokens.readsLive) hq).mpr (failed_single h)

theorem filewriter_never_strands_parse_only :
    (runTrace system initial
      (traceDeliver parseOnly ++ [.testSave dataFile] ++ traceReap)).pendingFiles = 0 :=
  filewriter_never_strands (ValidTrace.reaches (by decide +kernel) (.start rfl))
    (by decide +kernel)

/-- A list whose data file is both saved and parsed. -/
def saveAndParse : Acquisition := ⟨[], 1, 1, true, true, false, 420⟩

/-- The master file goes through; the download of the data file fails. -/
def traceStranded : List Event :=
  [.submit saveAndParse, .receiveAcquisition saveAndParse 0 0, .resetPending,
   .waitFile true, .count, .sendDownload, .receiveDownload ⟨1, 0⟩,
   .getFile ⟨1, 0⟩ (some []), .testParse ⟨1, 0⟩, .testSave ⟨1, 0⟩, .sendSave ⟨1, 0⟩,
   .receiveSave ⟨1, 0⟩, .openFile ⟨1, 0⟩ true, .closeFile ⟨1, 0⟩ 0, .sendSaved ⟨1, 0⟩,
   .receiveReap ⟨1, 0⟩, .release ⟨1, 0⟩, .testRemove ⟨1, 0⟩, .freeData ⟨1, 0⟩,
   .uncount ⟨1, 0⟩, .waitFile true, .count, .sendDownload, .receiveDownload dataFile,
   .getFile dataFile none, .sendFailed dataFile, .receiveReap dataFile, .release dataFile]

/-- The failure branch of downloadTask gives back one of the two references. -/
theorem filewriter_strands_failed_download :
    ¬ ∀ s, Reachable system s → Quiescent s → s.pendingFiles = 0 := by
  intro h
  have ht := h _ (reachable_trace rfl traceStranded (by decide +kernel)) (by decide +kernel)
  exact absurd ht (by decide +kernel)

/-- Files that a worker still reads or writes before it takes its next message. -/
def DownloadPc.accesses : DownloadPc → List FilePtr
  | .getFile p | .testParse p | .sendParse p | .testSave p => [p]
  | _ => []

def ParsePc.accesses : ParsePc → List FilePtr
  | .parseFile p => [p]
  | _ => []

def SavePc.accesses : SavePc → List FilePtr
  | .openFile p | .write p _ => [p]
  | _ => []

def ReapPc.accesses : ReapPc → List FilePtr
  | .release p | .testRemove p | .deleteFile p | .freeData p => [p]
  | _ => []

/-- Pointers that are still queued or still dereferenced by some worker. -/
def inUse (s : State) : List FilePtr :=
  s.downloadQueue.queue ++ s.parseQueue.queue ++ s.saveQueue.queue ++ s.reapQueue.queue ++
    s.download.accesses ++ s.parse.accesses ++ s.save.accesses ++ s.reap.accesses

/-- When pollTask has read zero and frees the list, no element of it is in use. -/
def ListReleasedUnused (s : State) : Prop :=
  s.poll = .free → ∀ p ∈ inUse s, p.block ≠ s.block

/-- The acquisition has no data file that is parsed without being saved. -/
def SavesParsed (_ : State) : Event → Prop
  | .receiveAcquisition acq _ _ =>
    acq.parseFiles = true → acq.saveFiles = true ∨ acq.nDataFiles = 0
  | _ => True

instance (s : State) : (e : Event) → Decidable (SavesParsed s e) := by
  rintro ⟨⟩ <;> simp only [SavesParsed] <;> infer_instance

structure ParsedSaved (s : State) : Prop where
  counted : ∀ p ∈ s.counted, (s.built p).parse = true → (s.built p).save = true
  listed : ∀ p, Live s p → (s.built p).parse = true → (s.built p).save = true

theorem parsedSaved_initial : ParsedSaved initial := by
  constructor <;> simp [initial, Live]

theorem counted_next (he : Enabled s e) (hp : p ∈ (next s e).counted) :
    p ∈ s.counted ∨ (s.poll = .count ∧ p = curFile s) := by
  cases e with
  | count =>
    rcases List.mem_append.mp hp with hp | hp
    · exact Or.inl hp
    · exact Or.inr ⟨he, List.mem_singleton.mp hp⟩
  | getFile q result => cases result <;> exact Or.inl hp
  | waitFile found => simp only [next] at hp; split_ifs at hp <;> exact Or.inl hp
  | readPending => simp only [next] at hp; split_ifs at hp <;> exact Or.inl hp
  | openFile q ok => cases ok <;> exact Or.inl hp
  | write q total result => cases result <;> exact Or.inl hp
  | freeData q => simp only [next] at hp; split_ifs at hp <;> exact Or.inl hp
  | _ => exact Or.inl hp

theorem live_next (he : Enabled s e) (hp : Live (next s e) p) :
    Live s p ∨ ∃ acq uid gid, e = .receiveAcquisition acq uid gid := by
  cases e with
  | receiveAcquisition acq uid gid => exact Or.inr ⟨acq, uid, gid, rfl⟩
  | resetPending => exact Or.inl ⟨by simp [show s.poll = .reset from he], hp.2⟩
  | waitFile found =>
    simp only [next] at hp
    split_ifs at hp <;> exact Or.inl ⟨by simp [he.1], hp.2⟩
  | leaveLoop => exact Or.inl ⟨by simp [he.1], hp.2⟩
  | count => exact Or.inl ⟨by simp [show s.poll = .count from he], hp.2⟩
  | sendDownload => exact Or.inl ⟨by simp [he.1], hp.2⟩
  | readPending =>
    simp only [next] at hp
    split_ifs at hp <;> exact Or.inl ⟨by simp [show s.poll = .draining from he], hp.2⟩
  | free => exact absurd rfl hp.1
  | getFile q result => cases result <;> exact Or.inl hp
  | openFile q ok => cases ok <;> exact Or.inl hp
  | write q total result => cases result <;> exact Or.inl hp
  | freeData q => simp only [next] at hp; split_ifs at hp <;> exact Or.inl hp
  | _ => exact Or.inl hp

theorem listed_receiveAcquisition {acq : Acquisition} {uid gid : ℕ}
    (hs : SavesParsed s (.receiveAcquisition acq uid gid))
    (hl : Live (next s (.receiveAcquisition acq uid gid)) p)
    (hp : ((next s (.receiveAcquisition acq uid gid)).built p).parse = true) :
    ((next s (.receiveAcquisition acq uid gid)).built p).save = true := by
  obtain ⟨-, hb, hi⟩ := hl
  simp only [next] at hb hi hp ⊢
  rw [if_pos hb] at hp ⊢
  simp only [buildFile, beq_iff_eq] at hp ⊢
  split_ifs at hp with hz
  rcases hs hp with hs | hn <;> [exact hs; omega]

theorem parsedSaved_step (h : ParsedSaved s) (ho : Ordered s) (he : Enabled s e)
    (hs : SavesParsed s e) : ParsedSaved (next s e) := by
  constructor
  · intro p hp
    rcases counted_next he hp with hp | ⟨hr, rfl⟩
    · rw [built_stable ho hp]
      exact h.counted p hp
    · rw [built_next (le_refl s.block)]
      exact h.listed _ ⟨by simp [hr], rfl, ho.guard (Or.inl hr)⟩
  · intro p hl
    rcases live_next he hl with hl' | ⟨acq, uid, gid, rfl⟩
    · rw [built_next hl'.2.1.le]
      exact h.listed p hl'
    · exact listed_receiveAcquisition hs hl

/-- Without parse-only files, downloadTask tests `file->save` while a save is still owed. -/
theorem testSave_live (h : ParsedSaved s) (ht : Tokens s) (hc : Conservation s)
    (ho : Ordered s) (hp : s.download = .testSave p) : Live s p := by
  have hu : 0 < s.download.undecided.count p := by simp [hp]
  have hcount := undecided_counted hc (List.count_pos_iff.mp hu)
  have hpos := ht.refs_pos hcount
  apply ht.live_of_lt hcount
  refine lt_of_le_of_ne ?_ fun hr => ?_
  · have := ht.released_le hc ho p hpos
    omega
  · have hsave := (ht.complete hc ho hpos hr).2.2.2.2.2.2.2 hu
    have hparse : (s.built p).parse ≠ true := fun hw => by
      simpa [hsave] using h.counted p hcount hw
    simp [File.consumers, hsave, hparse] at hpos

theorem reaches_parsedSaved (h : Reaches system SavesParsed s) :
    Reaches system ReadsLive s ∧ ParsedSaved s := by
  induction h with
  | start hs => exact ⟨.start hs, by rw [show _ = initial from hs]; exact parsedSaved_initial⟩
  | @step s e _ he hs ih =>
    obtain ⟨hr, hp⟩ := ih
    have ho := reaches_ordered hr
    refine ⟨.step hr he ?_, parsedSaved_step hp ho he hs⟩
    cases e with
    | testSave p =>
      exact testSave_live hp (reaches_tokens hr) (reaches_conservation hr) ho he
    | _ => trivial

theorem mem_inUse (hp : p ∈ inUse s) :
    0 < s.downloadQueue.queue.count p + s.download.getting.count p ∨
    0 < s.parseQueue.queue.count p + s.parse.held.count p ∨
    0 < s.saveQueue.queue.count p + s.save.held.count p ∨
    0 < s.reapQueue.queue.count p + s.reap.entering.count p ∨
    0 < s.reap.leaving.count p ∨
    (0 < s.download.early.count p ∧ 0 < s.download.undecided.count p) ∨
    s.download = .testSave p := by
  simp only [inUse, List.mem_append] at hp
  rcases hp with ((((((hp | hp) | hp) | hp) | hp) | hp) | hp) | hp
  any_goals
    have := List.count_pos_iff.mpr hp
    omega
  · cases hd : s.download <;> simp_all [DownloadPc.accesses]
  · cases hd : s.parse <;> simp_all [ParsePc.accesses]
  · cases hd : s.save <;> simp_all [SavePc.accesses]
  · cases hd : s.reap <;> simp_all [ReapPc.accesses]

theorem inUse_counted (h : Tokens s) (hc : Conservation s) (hp : p ∈ inUse s) :
    p ∈ s.counted := by
  obtain ⟨e₁, e₂, e₃, e₄, e₅, e₆, e₇, e₈⟩ := hc.flow p
  have hreap := hc.reap_count p
  have hsent := Channel.count_sent s.reapQueue p
  have hreceived : s.reapQueue.received.count p = s.released.count p + s.reap.entering.count p := by
    rw [hc.reap.reap_eq, List.count_append]
  rcases mem_inUse hp with hp | hp | hp | hp | hp | hp | hp
  · exact List.count_pos_iff.mp (by omega)
  · exact List.count_pos_iff.mp (by omega)
  · exact List.count_pos_iff.mp (by omega)
  · exact List.count_pos_iff.mp (by omega)
  · exact h.gone_counted hc (List.mem_append_right _ (List.count_pos_iff.mp hp))
  · exact early_counted hc (List.count_pos_iff.mp hp.1)
  · exact undecided_counted hc (by simp [hp])

/-- With every counted file disposed of, nothing is in use any more: the one access that
disposal does not wait for, the test of `file->save`, belongs to a parse-only file. -/
theorem settled_unused (h : Tokens s) (hc : Conservation s) (ho : Ordered s)
    (hps : ParsedSaved s) (hz : s.pendingFiles = 0) : inUse s = [] := by
  rw [List.eq_nil_iff_forall_not_mem]
  intro p hp
  have hcount := inUse_counted h hc hp
  have hu := h.all_settled hc hz hcount
  obtain ⟨hpos, hr⟩ := h.gone_released (List.mem_append_left s.reap.leaving hu)
  obtain ⟨hparsed, hsaved, hreap, henter, hdown, hget, hearly, hundec⟩ :=
    h.complete hc ho hpos hr
  obtain ⟨e₁, e₂, e₃, e₄, e₅, e₆, e₇, e₈⟩ := hc.flow p
  rcases mem_inUse hp with hp | hp | hp | hp | hp | hp | hp
  any_goals omega
  · exact (List.nodup_append.mp h.gone_nodup).2.2 p hu p (List.count_pos_iff.mp hp) rfl
  · have := hundec (by simp [hp])
    have hparse : (s.built p).parse ≠ true := fun hw => by
      simpa [this] using hps.counted p hcount hw
    simp [File.consumers, this, hparse] at hpos

/-- When every parsed data file is also saved, pollTask frees its list only after the last
access of the workers to it. -/
theorem list_released_unused (h : Reaches system SavesParsed s) : ListReleasedUnused s := by
  obtain ⟨hr, hps⟩ := reaches_parsedSaved h
  have ht := reaches_tokens hr
  intro hf p hp
  rw [settled_unused ht (reaches_conservation hr) (reaches_ordered hr) hps
    (ht.at_zero (Or.inl hf))] at hp
  exact absurd hp (List.not_mem_nil)

/-- A list whose only entry is a master file to be saved. -/
def masterOnly : Acquisition := ⟨[], 1, 0, true, true, false, 420⟩

/-- The master file is saved and disposed of; pollTask finds the counter at zero. -/
def traceMaster : List Event :=
  [.submit masterOnly, .receiveAcquisition masterOnly 0 0, .resetPending,
   .waitFile true, .count, .sendDownload, .receiveDownload ⟨1, 0⟩,
   .getFile ⟨1, 0⟩ (some []), .testParse ⟨1, 0⟩, .testSave ⟨1, 0⟩, .sendSave ⟨1, 0⟩,
   .receiveSave ⟨1, 0⟩, .openFile ⟨1, 0⟩ true, .closeFile ⟨1, 0⟩ 0, .sendSaved ⟨1, 0⟩,
   .receiveReap ⟨1, 0⟩, .release ⟨1, 0⟩, .testRemove ⟨1, 0⟩, .freeData ⟨1, 0⟩,
   .uncount ⟨1, 0⟩, .leaveLoop, .readPending]

theorem list_released_unused_master_only :
    (runTrace system initial traceMaster).poll = .free ∧
      ListReleasedUnused (runTrace system initial traceMaster) :=
  ⟨by decide +kernel,
    list_released_unused (ValidTrace.reaches (by decide +kernel) (.start rfl))⟩

/-- The counter reaches zero while downloadTask is still to test `file->save`. -/
theorem list_released_in_use : ¬ ∀ s, Reachable system s → ListReleasedUnused s := by
  intro h
  have ht := h _ (reachable_trace rfl
    (traceDeliver parseOnly ++ traceReap ++ [.leaveLoop, .readPending]) (by decide +kernel))
  exact absurd (ht (by decide +kernel) dataFile (by decide +kernel)) (by decide +kernel)

end FileWriter
