import ADEiger.FileWriter
import Mathlib.Data.List.Sublists

/-! Conservation of file pointers along the pipeline.
Every message a task takes from a queue is in its hands, or was passed on, exactly once.
These laws never look into the file records, so they hold in every run, and they order
the deliveries of each queue by the list of pollTask. -/
namespace FileWriter

open TransitionSystem

variable {s : State} {e : Event} {p : FilePtr}

def sending (s : State) : List FilePtr := if s.poll = .send then [curFile s] else []

@[simp] def DownloadPc.getting : DownloadPc → List FilePtr
  | .getFile p => [p]
  | _ => []

/-- Downloaded, and not yet past the test of `file->parse` and its delivery. -/
@[simp] def DownloadPc.early : DownloadPc → List FilePtr
  | .testParse p | .sendParse p => [p]
  | _ => []

/-- Downloaded, and not yet past the test of `file->save` and its delivery. -/
@[simp] def DownloadPc.undecided : DownloadPc → List FilePtr
  | .testParse p | .sendParse p | .testSave p | .sendSave p => [p]
  | _ => []

@[simp] def DownloadPc.failing : DownloadPc → List FilePtr
  | .sendFailed p => [p]
  | _ => []

@[simp] def ParsePc.held : ParsePc → List FilePtr
  | .parseFile p | .sendReap p => [p]
  | .receive => []

@[simp] def SavePc.held : SavePc → List FilePtr
  | .openFile p | .write p _ | .sendReap p => [p]
  | .receive => []

@[simp] def ReapPc.entering : ReapPc → List FilePtr
  | .release p => [p]
  | _ => []

/-- The reference count of the file reached zero and the file is being disposed of. -/
@[simp] def ReapPc.leaving : ReapPc → List FilePtr
  | .testRemove p | .deleteFile p | .freeData p | .uncount p => [p]
  | _ => []

@[simp] def ReapPc.deleting : ReapPc → List FilePtr
  | .testRemove p | .deleteFile p => [p]
  | _ => []

@[simp] def ReapPc.freeing : ReapPc → List FilePtr
  | .testRemove p | .deleteFile p | .freeData p => [p]
  | _ => []

/-- What downloadTask did with the files it received. -/
structure DownloadLaw (pc : DownloadPc)
    (received downloaded failed failedPosted toParse toSave : List FilePtr) : Prop where
  got : ∀ p, received.count p = downloaded.count p + failed.count p + pc.getting.count p
  downloaded_sub : (downloaded ++ pc.getting).Sublist received
  parse_sub : (toParse ++ pc.early).Sublist downloaded
  save_sub : (toSave ++ pc.undecided).Sublist downloaded
  failed_eq : failed = failedPosted ++ pc.failing

section DownloadLaw

variable {r d f fp tp ts : List FilePtr}

theorem DownloadLaw.receive (h : DownloadLaw .receive r d f fp tp ts) (p : FilePtr) :
    DownloadLaw (.getFile p) (r ++ [p]) d f fp tp ts where
  got q := by simpa using h.got q
  downloaded_sub := by simpa using h.downloaded_sub
  parse_sub := h.parse_sub
  save_sub := h.save_sub
  failed_eq := by simpa using h.failed_eq

theorem DownloadLaw.fail (h : DownloadLaw (.getFile p) r d f fp tp ts) :
    DownloadLaw (.sendFailed p) r d (f ++ [p]) fp tp ts where
  got q := by simpa [Nat.add_assoc] using h.got q
  downloaded_sub := by simpa using (List.sublist_append_left _ _).trans h.downloaded_sub
  parse_sub := h.parse_sub
  save_sub := h.save_sub
  failed_eq := by simpa using h.failed_eq

theorem DownloadLaw.deliver (h : DownloadLaw (.getFile p) r d f fp tp ts) :
    DownloadLaw (.testParse p) r (d ++ [p]) f fp tp ts where
  got q := by
    have := h.got q
    simp only [DownloadPc.getting, List.count_append, List.count_nil] at this ⊢
    omega
  downloaded_sub := by simpa using h.downloaded_sub
  parse_sub := by simpa using h.parse_sub
  save_sub := by simpa using h.save_sub
  failed_eq := by simpa using h.failed_eq

theorem DownloadLaw.toParse (h : DownloadLaw (.testParse p) r d f fp tp ts) :
    DownloadLaw (.sendParse p) r d f fp tp ts :=
  { h with }

theorem DownloadLaw.skipParse (h : DownloadLaw (.testParse p) r d f fp tp ts) :
    DownloadLaw (.testSave p) r d f fp tp ts :=
  { h with parse_sub := by simpa using (List.sublist_append_left _ _).trans h.parse_sub }

theorem DownloadLaw.sendParse (h : DownloadLaw (.sendParse p) r d f fp tp ts) :
    DownloadLaw (.testSave p) r d f fp (tp ++ [p]) ts :=
  { h with parse_sub := by simpa using h.parse_sub }

theorem DownloadLaw.toSave (h : DownloadLaw (.testSave p) r d f fp tp ts) :
    DownloadLaw (.sendSave p) r d f fp tp ts :=
  { h with }

theorem DownloadLaw.skipSave (h : DownloadLaw (.testSave p) r d f fp tp ts) :
    DownloadLaw .receive r d f fp tp ts :=
  { h with save_sub := by simpa using (List.sublist_append_left _ _).trans h.save_sub }

theorem DownloadLaw.sendSave (h : DownloadLaw (.sendSave p) r d f fp tp ts) :
    DownloadLaw .receive r d f fp tp (ts ++ [p]) :=
  { h with save_sub := by simpa using h.save_sub }

theorem DownloadLaw.sendFailed (h : DownloadLaw (.sendFailed p) r d f fp tp ts) :
    DownloadLaw .receive r d f (fp ++ [p]) tp ts :=
  { h with failed_eq := by simpa using h.failed_eq }

end DownloadLaw

/-- What reapTask did with the files it received. -/
structure ReapLaw (pc : ReapPc) (received released deleted freed uncounted : List FilePtr) :
    Prop where
  reap_eq : received = released ++ pc.entering
  deleted_sub : (deleted ++ pc.deleting).Sublist (uncounted ++ pc.leaving)
  freed_sub : (freed ++ pc.freeing).Sublist (uncounted ++ pc.leaving)

section ReapLaw

variable {r l d f u : List FilePtr}

theorem ReapLaw.receive (h : ReapLaw .receive r l d f u) (p : FilePtr) :
    ReapLaw (.release p) (r ++ [p]) l d f u where
  reap_eq := by simpa using h.reap_eq
  deleted_sub := h.deleted_sub
  freed_sub := h.freed_sub

theorem ReapLaw.keep (h : ReapLaw (.release p) r l d f u) :
    ReapLaw .receive r (l ++ [p]) d f u where
  reap_eq := by simpa using h.reap_eq
  deleted_sub := h.deleted_sub
  freed_sub := h.freed_sub

theorem ReapLaw.zero (h : ReapLaw (.release p) r l d f u) :
    ReapLaw (.testRemove p) r (l ++ [p]) d f u where
  reap_eq := by simpa using h.reap_eq
  deleted_sub := by simpa using h.deleted_sub
  freed_sub := by simpa using h.freed_sub

theorem ReapLaw.toDelete (h : ReapLaw (.testRemove p) r l d f u) :
    ReapLaw (.deleteFile p) r l d f u :=
  { h with }

theorem ReapLaw.skipDelete (h : ReapLaw (.testRemove p) r l d f u) :
    ReapLaw (.freeData p) r l d f u :=
  { h with deleted_sub := by simpa using (List.sublist_append_left _ _).trans h.deleted_sub }

theorem ReapLaw.delete (h : ReapLaw (.deleteFile p) r l d f u) :
    ReapLaw (.freeData p) r l (d ++ [p]) f u :=
  { h with deleted_sub := by simpa using h.deleted_sub }

theorem ReapLaw.free (h : ReapLaw (.freeData p) r l d f u) :
    ReapLaw (.uncount p) r l d (f ++ [p]) u :=
  { h with freed_sub := by simpa using h.freed_sub }

theorem ReapLaw.skipFree (h : ReapLaw (.freeData p) r l d f u) :
    ReapLaw (.uncount p) r l d f u :=
  { h with freed_sub := by simpa using (List.sublist_append_left _ _).trans h.freed_sub }

theorem ReapLaw.uncount (h : ReapLaw (.uncount p) r l d f u) :
    ReapLaw .receive r l d f (u ++ [p]) where
  reap_eq := by simpa using h.reap_eq
  deleted_sub := by simpa using h.deleted_sub
  freed_sub := by simpa using h.freed_sub

end ReapLaw

structure Conservation (s : State) : Prop where
  counted_eq : s.counted = s.downloadQueue.sent ++ sending s
  download : DownloadLaw s.download s.downloadQueue.received s.downloaded s.failed
    s.failedPosted s.parseQueue.sent s.saveQueue.sent
  parse_eq : s.parseQueue.received = s.parsed ++ s.parse.held
  save_eq : s.saveQueue.received = s.saved ++ s.save.held
  reap_count : ∀ p, s.reapQueue.sent.count p =
    s.parsed.count p + s.saved.count p + s.failedPosted.count p
  reap : ReapLaw s.reap s.reapQueue.received s.released s.deleted s.freed s.uncounted

theorem conservation_initial : Conservation initial where
  counted_eq := by simp [initial, sending]
  download := by constructor <;> simp [initial]
  parse_eq := by simp [initial]
  save_eq := by simp [initial]
  reap_count := by simp [initial]
  reap := by constructor <;> simp [initial]

/-- Outside of a send the counted files are exactly those sent to downloadTask. -/
theorem Conservation.counted_idle (h : Conservation s) {q : PollPc} (hq : s.poll = q)
    (hn : q ≠ .send) : s.counted = s.downloadQueue.sent := by
  simpa [sending, hq, hn] using h.counted_eq

theorem conservation_step (h : Conservation s) (he : Enabled s e) :
    Conservation (next s e) := by
  have hc {q : PollPc} (hq : s.poll = q) (hn : q ≠ .send) := h.counted_idle hq hn
  cases e with
  | submit | stop | overwrite => exact { h with }
  | receiveAcquisition =>
    exact { h with counted_eq := by simpa [next, sending] using hc he.1 (by decide) }
  | resetPending =>
    exact { h with counted_eq := by simpa [next, sending] using hc he (by decide) }
  | waitFile found =>
    have hc := hc he.1 (by decide)
    simp only [next]
    split_ifs
    all_goals exact { h with counted_eq := by simpa [sending, he.1] using hc }
  | leaveLoop =>
    exact { h with counted_eq := by simpa [next, sending] using hc he.1 (by decide) }
  | count =>
    exact { h with counted_eq := by simpa [next, sending, curFile] using hc he (by decide) }
  | sendDownload =>
    have hs : s.counted = s.downloadQueue.sent ++ [curFile s] := by
      simpa [sending, he.1] using h.counted_eq
    exact { h with counted_eq := by simpa [next, sending] using hs }
  | readPending =>
    have hc := hc he (by decide)
    simp only [next]
    split_ifs
    · exact { h with counted_eq := by simpa [sending] using hc }
    · exact h
  | free => exact { h with counted_eq := by simpa [next, sending] using hc he (by decide) }
  | receiveDownload p =>
    have hd := he.1 ▸ h.download
    have hr := hd.receive p
    rw [← Channel.received_receive he.2] at hr
    exact { h with
      counted_eq := by
        change s.counted = s.downloadQueue.receive.sent ++ sending s
        rw [Channel.sent_receive, h.counted_eq]
      download := hr }
  | getFile p result =>
    have hd : DownloadLaw (.getFile p) .. := he ▸ h.download
    cases result with
    | none => exact { h with download := hd.fail }
    | some data => exact { h with download := hd.deliver }
  | testParse p =>
    have hd : DownloadLaw (.testParse p) .. := he ▸ h.download
    simp only [next]
    split_ifs
    · exact { h with download := hd.toParse }
    · exact { h with download := hd.skipParse }
  | sendParse p =>
    have hd := he.1 ▸ h.download
    exact { h with download := by simpa [next] using hd.sendParse }
  | testSave p =>
    have hd : DownloadLaw (.testSave p) .. := he ▸ h.download
    simp only [next]
    split_ifs
    · exact { h with download := hd.toSave }
    · exact { h with download := hd.skipSave }
  | sendSave p =>
    have hd := he.1 ▸ h.download
    exact { h with download := by simpa [next] using hd.sendSave }
  | sendFailed p =>
    have hd := he.1 ▸ h.download
    exact { h with
      download := hd.sendFailed
      reap_count := by
        intro q
        simp only [next, Channel.sent_send, List.count_append, h.reap_count q]
        omega }
  | receiveParse p =>
    have hp := h.parse_eq
    rw [he.1, ParsePc.held, List.append_nil] at hp
    exact { h with
      download := by simpa [next] using h.download
      parse_eq := by simp [next, Channel.received_receive he.2, hp] }
  | parseFile p =>
    have hp : s.parse = .parseFile p := he
    exact { h with parse_eq := by simpa [next, hp] using h.parse_eq }
  | sendParsed p =>
    exact { h with
      parse_eq := by simpa [next, he.1] using h.parse_eq
      reap_count := by
        intro q
        simp only [next, Channel.sent_send, List.count_append, h.reap_count q]
        omega }
  | receiveSave p =>
    have hv := h.save_eq
    rw [he.1, SavePc.held, List.append_nil] at hv
    exact { h with
      download := by simpa [next] using h.download
      save_eq := by simp [next, Channel.received_receive he.2, hv] }
  | openFile p ok =>
    have hv : s.save = .openFile p := he
    cases ok with
    | true => exact { h with save_eq := by simpa [next, hv] using h.save_eq }
    | false => exact { h with save_eq := by simpa [next, hv] using h.save_eq }
  | write p total result =>
    cases result with
    | none => exact { h with save_eq := by simpa [next, he.1] using h.save_eq }
    | some n => exact { h with save_eq := by simpa [next, he.1] using h.save_eq }
  | closeFile p total =>
    exact { h with save_eq := by simpa [next, he.1] using h.save_eq }
  | sendSaved p =>
    exact { h with
      save_eq := by simpa [next, he.1] using h.save_eq
      reap_count := by
        intro q
        simp only [next, Channel.sent_send, List.count_append, h.reap_count q]
        omega }
  | receiveReap p =>
    have hr := (he.1 ▸ h.reap).receive p
    rw [← Channel.received_receive he.2] at hr
    exact { h with
      reap_count := by simpa [next] using h.reap_count
      reap := hr }
  | release p =>
    have hr : ReapLaw (.release p) .. := he ▸ h.reap
    simp only [next]
    split_ifs
    · exact { h with reap := hr.zero }
    · exact { h with reap := hr.keep }
  | testRemove p =>
    have hr : ReapLaw (.testRemove p) .. := he ▸ h.reap
    simp only [next]
    split_ifs
    · exact { h with reap := hr.toDelete }
    · exact { h with reap := hr.skipDelete }
  | deleteFile p =>
    have hr : ReapLaw (.deleteFile p) .. := he ▸ h.reap
    exact { h with reap := hr.delete }
  | freeData p =>
    have hr : ReapLaw (.freeData p) .. := he ▸ h.reap
    simp only [next]
    split_ifs
    · exact { h with reap := hr.free }
    · exact { h with reap := hr.skipFree }
  | uncount p =>
    have hr : ReapLaw (.uncount p) .. := he ▸ h.reap
    exact { h with reap := hr.uncount }

theorem reaches_conservation {C : State → Event → Prop} (h : Reaches system C s) :
    Conservation s := by
  refine h.invariant (I := Conservation) ?_ fun _ _ hc he _ => conservation_step hc he
  rintro _ rfl
  exact conservation_initial

end FileWriter
