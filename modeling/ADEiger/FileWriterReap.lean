import ADEiger.FileWriterTokens

/-! Disposal of a file by reapTask: once, and after its consumers. -/
namespace FileWriter

open TransitionSystem

variable {s : State} {e : Event} {p : FilePtr}

/-- Deliveries are unique and in list order, and whatever reapTask does to a file at the
end is done once, with every delivery that was made for the file completed. -/
structure ReapedOnce (s : State) : Prop where
  parse_in_order : s.parseQueue.sent.Pairwise Before
  save_in_order : s.saveQueue.sent.Pairwise Before
  deleted_once : s.deleted.Nodup
  freed_once : s.freed.Nodup
  uncounted_once : s.uncounted.Nodup
  after_consumers : ∀ p, p ∈ s.deleted ∨ p ∈ s.freed ∨ p ∈ s.uncounted →
    s.parsed.count p = s.parseQueue.sent.count p ∧ s.saved.count p = s.saveQueue.sent.count p

/-- All releases made: the consumers are done, and downloadTask has nothing left to
deliver, although it may still stand before its test of `file->save`. -/
theorem Tokens.complete (h : Tokens s) (hc : Conservation s) (ho : Ordered s)
    (hpos : 0 < (s.built p).consumers)
    (hr : s.released.count p = (s.built p).consumers) :
    s.parsed.count p = s.parseQueue.sent.count p ∧
      s.saved.count p = s.saveQueue.sent.count p ∧
      s.reapQueue.queue.count p = 0 ∧ s.reap.entering.count p = 0 ∧
      s.downloadQueue.queue.count p = 0 ∧ s.download.getting.count p = 0 ∧
      (s.download.early.count p = 0 ∨ s.download.undecided.count p = 0) ∧
      (0 < s.download.undecided.count p → (s.built p).save = false) := by
  obtain ⟨e₁, e₂, e₃, e₄, e₅, e₆, e₇, e₈⟩ := hc.flow p
  have honce := download_once hc ho p
  have hparse := h.parse_le hc ho p
  have hsaves := h.save_le hc ho p
  have hcounted := ho.count_le_one (List.Sublist.refl _) p
  have hsave : 0 < s.download.undecided.count p → (s.built p).save = false := by
    intro hu
    by_contra hs
    simp only [Bool.not_eq_false] at hs
    simp only [File.consumers, hs, Bool.toNat_true] at hpos hr hsaves
    omega
  refine ⟨?_, ?_, ?_, ?_, ?_, ?_, ?_, hsave⟩
  all_goals
    unfold File.consumers at hpos hr
    omega

theorem reaped_once (h : Tokens s) (hc : Conservation s) (ho : Ordered s) :
    ReapedOnce s where
  parse_in_order := ho.of_sublist ((List.sublist_append_left _ _).trans hc.parse_counted)
  save_in_order := ho.of_sublist ((List.sublist_append_left _ _).trans hc.save_counted)
  deleted_once :=
    (h.gone_nodup.sublist hc.reap.deleted_sub).sublist (List.sublist_append_left _ _)
  freed_once :=
    (h.gone_nodup.sublist hc.reap.freed_sub).sublist (List.sublist_append_left _ _)
  uncounted_once := h.gone_nodup.sublist (List.sublist_append_left _ _)
  after_consumers := by
    intro p hp
    have hg : p ∈ s.uncounted ++ s.reap.leaving := by
      rcases hp with hp | hp | hp
      · exact hc.reap.deleted_sub.subset (List.mem_append_left _ hp)
      · exact hc.reap.freed_sub.subset (List.mem_append_left _ hp)
      · exact List.mem_append_left _ hp
    obtain ⟨hpos, hr⟩ := h.gone_released hg
    obtain ⟨hparsed, hsaved, -⟩ := h.complete hc ho hpos hr
    exact ⟨hparsed, hsaved⟩

/-- As long as downloadTask tests `file->save` before the list is freed, every file is
delivered and disposed of as the reference count intends. -/
theorem file_reaped_once_after_consumers (h : Reaches system ReadsLive s) : ReapedOnce s :=
  reaped_once (reaches_tokens h) (reaches_conservation h) (reaches_ordered h)

/-- A list with one data file that is parsed and not saved. -/
def parseOnly : Acquisition := ⟨[], 1, 1, false, true, false, 420⟩

def dataFile : FilePtr := ⟨1, 1⟩

/-- One acquisition up to the moment where downloadTask has delivered the data file. -/
def traceDeliver (acq : Acquisition) : List Event :=
  [.submit acq, .receiveAcquisition acq 0 0, .resetPending, .waitFile true, .waitFile true,
   .count, .sendDownload, .receiveDownload dataFile, .getFile dataFile (some [7]),
   .testParse dataFile, .sendParse dataFile]

/-- parseTask and reapTask finish with the file. -/
def traceReap : List Event :=
  [.receiveParse dataFile, .parseFile dataFile, .sendParsed dataFile, .receiveReap dataFile,
   .release dataFile, .testRemove dataFile, .freeData dataFile, .uncount dataFile]

theorem file_reaped_once_after_consumers_parse_only :
    ReapedOnce (runTrace system initial
      (traceDeliver parseOnly ++ [.testSave dataFile] ++ traceReap)) :=
  file_reaped_once_after_consumers
    (ValidTrace.reaches (by decide +kernel) (.start rfl))

/-- The memory of the freed list as its next owner leaves it, with `save` set. -/
def reused (_ : FilePtr) : File :=
  { buildFile parseOnly 0 0 1 with save := true }

/-- downloadTask is held up before its test of `file->save` until the list is freed. -/
theorem file_delivered_after_reaping : ¬ ∀ s, Reachable system s → ReapedOnce s := by
  intro h
  have ht := h _ (reachable_trace rfl
    (traceDeliver parseOnly ++ traceReap ++
      [.leaveLoop, .readPending, .free, .overwrite reused, .testSave dataFile,
       .sendSave dataFile]) (by decide +kernel))
  exact absurd (ht.after_consumers dataFile (Or.inr (Or.inr (by decide +kernel))))
    (by decide +kernel)

end FileWriter
