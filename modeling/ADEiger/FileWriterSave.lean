import ADEiger.FileWriterPending

/-! Saving and the automatic removal of files from the detector.
saveTask clears `file->remove` when it fails, so a file that is removed at the end was
written out. The failure branch of downloadTask does not clear it. -/
namespace FileWriter

open TransitionSystem

variable {s : State} {e : Event} {p q : FilePtr}

/-- All downloaded bytes of the file are in the local file, and no call failed. -/
def Preserved (s : State) (p : FilePtr) : Prop :=
  p ∈ s.downloaded ∧ s.written p = s.bytes p ∧ p ∈ s.saved ∧ p ∉ s.saveErrors

/-- A file that was to be saved is deleted from the detector only once it is preserved. -/
def NeverLosesData (s : State) : Prop :=
  ∀ p, p ∈ s.deleted ∨ p ∈ s.dropped → (s.built p).save = true → Preserved s p

/-- A failing download is not that of a file which is only saved and then removed, and
`file->save` is tested before the list is freed. -/
def KeepsUnsaved (s : State) : Event → Prop
  | .getFile p result =>
    result = none → ¬ ((s.files p).save ∧ ¬ (s.files p).parse ∧ (s.files p).remove)
  | .testSave p => Live s p
  | _ => True

instance (s : State) : (e : Event) → Decidable (KeepsUnsaved s e) := by
  rintro ⟨⟩ <;> simp only [KeepsUnsaved] <;> infer_instance

theorem KeepsUnsaved.readsLive (h : KeepsUnsaved s e) : ReadsLive s e := by
  cases e <;> first | exact h | trivial

/-- The automatic removal is off for the file, or its disposal is over. -/
def Kept (s : State) (p : FilePtr) : Prop := p ∈ s.uncounted ∨ (s.files p).remove = false

structure SaveLaw (s : State) : Prop where
  intact : ∀ p ∈ s.downloaded, s.released.count p < (s.built p).consumers →
    (s.files p).data = some (s.bytes p) ∧ (s.files p).len = (s.bytes p).length
  unwritten : ∀ p, p ∉ s.saveQueue.received ∨ s.save = .openFile p → s.written p = []
  writing : ∀ p n, s.save = .write p n → s.written p = (s.bytes p).take n
  errors : ∀ p ∈ s.saveErrors, p ∈ s.saved ∨ s.save = .sendReap p
  outcome : ∀ p, p ∈ s.saved ∨ s.save = .sendReap p →
    (s.written p = s.bytes p ∧ p ∉ s.saveErrors) ∨ Kept s p
  failed : ∀ p ∈ s.failed, (s.built p).save = true → (s.built p).parse = true ∨ Kept s p
  deleted : ∀ p ∈ s.deleted, (s.built p).save = true → Preserved s p
  deleting : ∀ p, s.reap = .deleteFile p → (s.built p).save = true → Preserved s p
  dropped : ∀ p ∈ s.dropped, p.block ≤ s.block ∧ (s.built p).save = false

theorem saveLaw_initial : SaveLaw initial := by
  constructor <;> simp [initial]

/-- A file in the hands of saveTask was downloaded and is still owed a release. -/
theorem save_held (h : Tokens s) (hc : Conservation s) (ho : Ordered s)
    (hp : p ∈ s.save.held) :
    p ∉ s.saved ∧ p ∈ s.downloaded ∧ s.released.count p < (s.built p).consumers := by
  have hpos := List.count_pos_iff.mpr hp
  obtain ⟨e₁, e₂, e₃, e₄, e₅, e₆, e₇, e₈⟩ := hc.flow p
  have honce := download_once hc ho p
  have hparse := h.parse_le hc ho p
  have hsave := h.save_le hc ho p
  refine ⟨?_, ?_, ?_⟩
  · exact List.count_eq_zero.mp (by omega)
  · exact List.count_pos_iff.mp (by omega)
  · unfold File.consumers
    omega

theorem save_fresh (hc : Conservation s) (ho : Ordered s)
    (hp : s.saveQueue.queue.head? = some p) : p ∉ s.saveQueue.received := by
  have hle := ho.count_le_one ((List.sublist_append_left _ _).trans hc.save_counted) p
  have hpos := List.count_pos_iff.mpr (Channel.mem_queue_of_head hp)
  rw [Channel.count_sent] at hle
  exact List.count_eq_zero.mp (by omega)

theorem saved_downloaded (hc : Conservation s) (hp : p ∈ s.saved) : p ∈ s.downloaded := by
  have hpos := List.count_pos_iff.mpr hp
  have hsaved := (hc.flow p).saved
  have hsub := (hc.flow p).save_le
  exact List.count_pos_iff.mp (by omega)

theorem downloaded_counted (hc : Conservation s) (hp : p ∈ s.downloaded) : p ∈ s.counted :=
  hc.downloaded_counted.subset (List.mem_append_left _ hp)

/-- A file that is about to be deleted completed its save, or its download failed. -/
theorem leaving_saved_or_failed (h : Tokens s) (hc : Conservation s) (ho : Ordered s)
    (hp : p ∈ s.reap.leaving) (hs : (s.built p).save = true) :
    p ∈ s.saved ∨ (p ∈ s.failed ∧ (s.built p).parse = false) := by
  obtain ⟨-, hr⟩ := h.gone_released (List.mem_append_right s.uncounted hp)
  obtain ⟨e₁, e₂, e₃, e₄, e₅, e₆, e₇, e₈⟩ := hc.flow p
  have honce := download_once hc ho p
  have hparse := h.parse_le hc ho p
  rw [File.consumers, hs, Bool.toNat_true] at hr
  by_cases hv : p ∈ s.saved
  · exact Or.inl hv
  · have hv := List.count_eq_zero_of_not_mem hv
    refine Or.inr ⟨List.count_pos_iff.mp (by omega), ?_⟩
    rw [← Bool.toNat_eq_zero]
    omega

theorem kept_update {f : File} (hf : (s.files p).remove = false → f.remove = false)
    (h : Kept s q) : q ∈ s.uncounted ∨ (setFile s p f q).remove = false := by
  refine h.imp id fun hr => ?_
  by_cases hq : q = p
  · subst hq
    simpa [setFile] using hf hr
  · simpa [setFile, Function.update_of_ne hq] using hr

theorem intact_update {f : File} (hd : f.data = (s.files p).data)
    (hl : f.len = (s.files p).len) {b : List UInt8}
    (h : (s.files q).data = some b ∧ (s.files q).len = b.length) :
    (setFile s p f q).data = some b ∧ (setFile s p f q).len = b.length := by
  by_cases hq : q = p
  · subst hq
    simpa [setFile, hd, hl] using h
  · simpa [setFile, Function.update_of_ne hq] using h

theorem Tokens.counted_live (h : Tokens s) (hp : p ∈ s.counted) (hu : p ∉ s.uncounted) :
    Live s p := (h.settled p hp).resolve_left hu

theorem SaveLaw.outcome_counted (hc : Conservation s) (hp : p ∈ s.saved ∨ s.save = .sendReap p) :
    p ∈ s.counted := by
  apply downloaded_counted hc
  have hsaved := (hc.flow p).saved
  have hsub := (hc.flow p).save_le
  rcases hp with hp | hp
  · exact saved_downloaded hc hp
  · simp only [hp, SavePc.held, List.count_singleton_self] at hsaved
    exact List.count_pos_iff.mp (by omega)

theorem SaveLaw.overwrite (h : SaveLaw s) (ht : Tokens s) (hc : Conservation s)
    (contents : FilePtr → File) : SaveLaw (next s (.overwrite contents)) := by
  have hlive : ∀ p ∈ s.counted, p ∉ s.uncounted →
      (next s (.overwrite contents)).files p = s.files p := fun p hp hu =>
    if_pos (ht.counted_live hp hu)
  have hkept : ∀ p ∈ s.counted, Kept s p → Kept (next s (.overwrite contents)) p := by
    intro p hp hk
    by_cases hu : p ∈ s.uncounted
    · exact Or.inl hu
    · exact Or.inr (by rw [hlive p hp hu]; exact hk.resolve_left hu)
  exact { h with
    intact := by
      intro p hp hr
      have hcount := downloaded_counted hc hp
      change ((next s (.overwrite contents)).files p).data = _ ∧
        ((next s (.overwrite contents)).files p).len = _
      rw [show (next s (.overwrite contents)).files p = s.files p from
        if_pos (ht.live_of_lt hcount hr)]
      exact h.intact p hp hr
    outcome := fun p hp => (h.outcome p hp).imp id (hkept p (SaveLaw.outcome_counted hc hp))
    failed := fun p hp hs => (h.failed p hp hs).imp id (hkept p (failed_counted hc hp)) }

theorem SaveLaw.receiveAcquisition (h : SaveLaw s) (ht : Tokens s) (hc : Conservation s)
    (ho : Ordered s) (acq : Acquisition) (uid gid : ℕ) :
    SaveLaw (next s (.receiveAcquisition acq uid gid)) := by
  set t := next s (.receiveAcquisition acq uid gid) with hdef
  have hblock : ∀ p, p.block ≤ s.block → t.files p = s.files p ∧ t.built p = s.built p :=
    fun p hp => ⟨if_neg (by omega), if_neg (by omega)⟩
  have hold : ∀ p ∈ s.counted, t.files p = s.files p ∧ t.built p = s.built p :=
    fun p hp => hblock p (ho.block_le hp)
  have hkept : ∀ p ∈ s.counted, Kept s p → Kept t p := fun p hp hk =>
    hk.imp id fun hr => by rw [(hold p hp).1]; exact hr
  exact { h with
    intact := by
      intro p hp
      obtain ⟨hf, hb⟩ := hold p (downloaded_counted hc hp)
      rw [hf, hb]
      exact h.intact p hp
    outcome := fun p hp => (h.outcome p hp).imp id (hkept p (SaveLaw.outcome_counted hc hp))
    failed := by
      intro p hp
      have hcount := failed_counted hc hp
      rw [(hold p hcount).2]
      exact fun hs => (h.failed p hp hs).imp id (hkept p hcount)
    deleted := by
      intro p hp
      have hgone := hc.reap.deleted_sub.subset (List.mem_append_left _ hp)
      rw [(hold p (ht.gone_counted hc hgone)).2]
      exact h.deleted p hp
    deleting := by
      intro p hp
      have hp : s.reap = .deleteFile p := hp
      have hgone : p ∈ s.uncounted ++ s.reap.leaving := by simp [hp]
      rw [(hold p (ht.gone_counted hc hgone)).2]
      exact h.deleting p hp
    dropped := by
      intro p hp
      obtain ⟨hb, hs⟩ := h.dropped p hp
      rw [(hblock p hb).2]
      exact ⟨Nat.le_succ_of_le hb, hs⟩ }

theorem SaveLaw.write (h : SaveLaw s) (ht : Tokens s) (hc : Conservation s) (ho : Ordered s)
    {total n : ℕ} (hp : s.save = .write p total) :
    SaveLaw (next s (.write p total (some n))) := by
  obtain ⟨hns, hd, hlt⟩ := save_held ht hc ho (by simp [hp] : p ∈ s.save.held)
  have hother : ∀ q, q ≠ p → (next s (.write p total (some n))).written q = s.written q :=
    fun q hq => Function.update_of_ne hq _ _
  have hkeep : ∀ q ∈ s.saved, (next s (.write p total (some n))).written q = s.written q :=
    fun q hq => hother q fun hqp => hns (hqp ▸ hq)
  have hpres : ∀ q, Preserved s q → Preserved (next s (.write p total (some n))) q :=
    fun q ⟨h₁, h₂, h₃, h₄⟩ => ⟨h₁, (hkeep q h₃).trans h₂, h₃, h₄⟩
  exact { h with
    unwritten := by
      rintro q (hq | hq)
      · have hq : q ∉ s.saveQueue.received := hq
        rw [hother q fun hqp => hq (by simp [hc.save_eq, hqp, hp])]
        exact h.unwritten q (Or.inl hq)
      · simp [next] at hq
    writing := by
      intro q m hq
      obtain ⟨rfl, rfl⟩ := SavePc.write.inj hq
      simp only [next, Function.update_self, (h.intact p hd hlt).1, Option.getD_some,
        h.writing p total hp, List.take_add]
    errors := by simpa [next, hp] using h.errors
    outcome := by
      rintro q (hq | hq)
      · rw [hkeep q hq]
        exact h.outcome q (Or.inl hq)
      · simp [next] at hq
    deleted := fun q hq hs => hpres q (h.deleted q hq hs)
    deleting := fun q hq hs => hpres q (h.deleting q hq hs) }

theorem SaveLaw.saveError (h : SaveLaw s) (ht : Tokens s) (hc : Conservation s)
    (ho : Ordered s) (hp : p ∈ s.save.held) (hn : ∀ q, s.save ≠ .sendReap q) :
    SaveLaw { s with files := setFile s p { s.files p with remove := false }
                     saveErrors := s.saveErrors ++ [p]
                     save := .sendReap p } := by
  obtain ⟨hns, hd, hlt⟩ := save_held ht hc ho hp
  have herr : ∀ q ∈ s.saved, q ∉ s.saveErrors → q ∉ s.saveErrors ++ [p] := by
    intro q hq he hmem
    rcases List.mem_append.mp hmem with hmem | hmem
    · exact he hmem
    · exact hns (List.mem_singleton.mp hmem ▸ hq)
  exact { h with
    intact := fun q hq hr => intact_update (by rfl) (by rfl) (h.intact q hq hr)
    unwritten := by
      rintro q (hq | hq)
      · exact h.unwritten q (Or.inl hq)
      · simp at hq
    writing := by simp
    errors := by
      intro q hq
      rcases List.mem_append.mp hq with hq | hq
      · exact Or.inl ((h.errors q hq).resolve_right (hn q))
      · exact Or.inr (by rw [List.mem_singleton.mp hq])
    outcome := by
      rintro q (hq | hq)
      · exact (h.outcome q (Or.inl hq)).imp (And.imp id (herr q hq))
          (kept_update fun _ => rfl)
      · obtain rfl := SavePc.sendReap.inj hq
        exact Or.inr (Or.inr (by simp [setFile]))
    failed := fun q hq hs => (h.failed q hq hs).imp id (kept_update fun _ => rfl)
    deleted := by
      intro q hq hs
      obtain ⟨h₁, h₂, h₃, h₄⟩ := h.deleted q hq hs
      exact ⟨h₁, h₂, h₃, herr q h₃ h₄⟩
    deleting := by
      intro q hq hs
      obtain ⟨h₁, h₂, h₃, h₄⟩ := h.deleting q hq hs
      exact ⟨h₁, h₂, h₃, herr q h₃ h₄⟩ }

theorem SaveLaw.closeFile (h : SaveLaw s) (ht : Tokens s) (hc : Conservation s)
    (ho : Ordered s) {total : ℕ} (he : Enabled s (.closeFile p total)) :
    SaveLaw (next s (.closeFile p total)) := by
  obtain ⟨hns, hd, hlt⟩ := save_held ht hc ho (by simp [he.1] : p ∈ s.save.held)
  have hlen : (s.bytes p).length ≤ total := by
    rw [← (h.intact p hd hlt).2]
    exact Nat.le_of_not_lt he.2
  exact { h with
    unwritten := by
      rintro q (hq | hq)
      · exact h.unwritten q (Or.inl hq)
      · simp [next] at hq
    writing := by simp [next]
    errors := by
      intro q hq
      exact Or.inl ((h.errors q hq).resolve_right (by simp [he.1]))
    outcome := by
      rintro q (hq | hq)
      · exact h.outcome q (Or.inl hq)
      · obtain rfl := SavePc.sendReap.inj hq
        refine Or.inl ⟨?_, fun hmem => ?_⟩
        · exact (h.writing _ _ he.1).trans (List.take_of_length_le hlen)
        · exact (h.errors _ hmem).elim hns (by simp [he.1]) }

theorem SaveLaw.getFile (h : SaveLaw s) (ht : Tokens s) (hc : Conservation s)
    (ho : Ordered s) {result : Option (List UInt8)} (hp : s.download = .getFile p)
    (hk : KeepsUnsaved s (.getFile p result)) : SaveLaw (next s (.getFile p result)) := by
  have hnew : ∀ q ∈ s.downloaded, q ≠ p := by
    rintro q hq rfl
    have := download_once hc ho q
    have := List.count_pos_iff.mpr hq
    simp only [hp, DownloadPc.getting, List.count_singleton_self] at *
    omega
  cases result with
  | none =>
    obtain ⟨hs, hpa, -⟩ := ht.memory p (getting_live ht hc ho hp)
    have hkept : ∀ q, Kept s q → Kept (next s (.getFile p none)) q := fun q =>
      kept_update (f := { s.files p with data := none, len := 0 }) id
    exact { h with
      intact := by
        intro q hq hr
        simp only [next, setFile, Function.update_of_ne (hnew q hq)]
        exact h.intact q hq hr
      outcome := fun q hq => (h.outcome q hq).imp id (hkept q)
      failed := by
        intro q hq hsave
        rcases List.mem_append.mp hq with hq | hq
        · exact (h.failed q hq hsave).imp id (hkept q)
        · obtain rfl := List.mem_singleton.mp hq
          have hsave : (s.files q).save = true := hs.trans hsave
          by_cases hw : (s.files q).parse = true
          · exact Or.inl (hpa.symm.trans hw)
          · have hr : (s.files q).remove = false := by
              simpa using fun hr => hk rfl ⟨hsave, hw, hr⟩
            exact Or.inr (hkept q (Or.inr hr)) }
  | some data =>
    have hbytes : ∀ q ∈ s.downloaded,
        (next s (.getFile p (some data))).bytes q = s.bytes q := fun q hq =>
      Function.update_of_ne (hnew q hq) _ _
    have hkept : ∀ q, Kept s q → Kept (next s (.getFile p (some data))) q := fun q =>
      kept_update (f := { s.files p with data := some data, len := data.length }) id
    have hpres : ∀ q, Preserved s q → Preserved (next s (.getFile p (some data))) q := by
      rintro q ⟨h₁, h₂, h₃⟩
      exact ⟨List.mem_append_left _ h₁, h₂.trans (hbytes q h₁).symm, h₃⟩
    exact { h with
      intact := by
        intro q hq hr
        rcases List.mem_append.mp hq with hq | hq
        · rw [hbytes q hq]
          simp only [next, setFile, Function.update_of_ne (hnew q hq)]
          exact h.intact q hq hr
        · simp [next, setFile, List.mem_singleton.mp hq]
      writing := by
        intro q n hq
        have hq : s.save = .write q n := hq
        have hd := (save_held ht hc ho (by simp [hq] : q ∈ s.save.held)).2.1
        rw [hbytes q hd]
        exact h.writing q n hq
      outcome := by
        intro q hq
        have hd : q ∈ s.downloaded := by
          rcases hq with hq | hq
          · exact saved_downloaded hc hq
          · have hq : s.save = .sendReap q := hq
            exact (save_held ht hc ho (by simp [hq])).2.1
        rw [hbytes q hd]
        exact (h.outcome q hq).imp id (hkept q)
      failed := fun q hq hs => (h.failed q hq hs).imp id (hkept q)
      deleted := fun q hq hs => hpres q (h.deleted q hq hs)
      deleting := fun q hq hs => hpres q (h.deleting q hq hs) }

theorem SaveLaw.removable (h : SaveLaw s) (ht : Tokens s) (hc : Conservation s)
    (ho : Ordered s) (hp : p ∈ s.reap.leaving) (hr : (s.files p).remove = true)
    (hs : (s.built p).save = true) : Preserved s p := by
  have hnk : ¬ Kept s p := by
    rintro (hu | hu)
    · exact (List.nodup_append.mp ht.gone_nodup).2.2 p hu p hp rfl
    · simp [hr] at hu
  rcases leaving_saved_or_failed ht hc ho hp hs with hv | ⟨hf, hpa⟩
  · obtain ⟨hw, he⟩ := (h.outcome p (Or.inl hv)).resolve_right hnk
    exact ⟨saved_downloaded hc hv, hw, hv, he⟩
  · have := (h.failed p hf hs).resolve_right hnk
    simp [hpa] at this

theorem saveLaw_step (h : SaveLaw s) (ht : Tokens s) (hc : Conservation s) (ho : Ordered s)
    (he : Enabled s e) (hk : KeepsUnsaved s e) : SaveLaw (next s e) := by
  cases e with
  | overwrite contents => exact h.overwrite ht hc contents
  | receiveAcquisition acq uid gid => exact h.receiveAcquisition ht hc ho acq uid gid
  | waitFile found =>
    have hcur : Live s (curFile s) := ⟨by simp [he.1], rfl, he.2.1⟩
    simp only [next]
    split_ifs with hf hw
    · exact { h with }
    · have hns : (s.built (curFile s)).save = false := by
        rw [← (ht.memory _ hcur).1]
        exact (Bool.or_eq_false_iff.mp (by simpa using hw)).1
      exact { h with
        dropped := by
          intro p hp
          rcases List.mem_append.mp hp with hp | hp
          · exact h.dropped p hp
          · rw [List.mem_singleton.mp hp]
            exact ⟨le_refl _, hns⟩ }
    all_goals exact { h with }
  | readPending => simp only [next]; split_ifs <;> exact { h with }
  | getFile p result => exact h.getFile ht hc ho he hk
  | receiveSave p =>
    have hfresh := h.unwritten p (Or.inl (save_fresh hc ho he.2))
    exact { h with
      unwritten := by
        rintro q (hq | hq)
        · refine h.unwritten q (Or.inl fun hmem => hq ?_)
          exact List.mem_append_left _ hmem
        · rw [← SavePc.openFile.inj hq]
          exact hfresh
      writing := by simp [next]
      errors := fun q hq => Or.inl ((h.errors q hq).resolve_right (by simp [he.1]))
      outcome := by
        rintro q (hq | hq)
        · exact h.outcome q (Or.inl hq)
        · simp [next] at hq }
  | openFile p ok =>
    have hp : s.save = .openFile p := he
    cases ok with
    | false => exact h.saveError ht hc ho (by simp [hp]) (by simp [hp])
    | true =>
      exact { h with
        unwritten := by
          rintro q (hq | hq)
          · exact h.unwritten q (Or.inl hq)
          · simp [next] at hq
        writing := by
          intro q n hq
          obtain ⟨rfl, rfl⟩ := SavePc.write.inj hq
          exact h.unwritten p (Or.inr hp)
        errors := fun q hq => Or.inl ((h.errors q hq).resolve_right (by simp [hp]))
        outcome := by
          rintro q (hq | hq)
          · exact h.outcome q (Or.inl hq)
          · simp [next] at hq }
  | write p total result =>
    cases result with
    | none => exact h.saveError ht hc ho (by simp [he.1]) (by simp [he.1])
    | some n => exact h.write ht hc ho he.1
  | closeFile p total => exact h.closeFile ht hc ho he
  | sendSaved p =>
    have hmem : ∀ q, q ∈ s.saved ++ [p] → q ∈ s.saved ∨ s.save = .sendReap q := by
      intro q hq
      rcases List.mem_append.mp hq with hq | hq
      · exact Or.inl hq
      · exact Or.inr (by rw [List.mem_singleton.mp hq, he.1])
    have hpres : ∀ q, Preserved s q → Preserved (next s (.sendSaved p)) q := by
      rintro q ⟨h₁, h₂, h₃, h₄⟩
      exact ⟨h₁, h₂, List.mem_append_left _ h₃, h₄⟩
    exact { h with
      unwritten := by
        rintro q (hq | hq)
        · exact h.unwritten q (Or.inl hq)
        · simp [next] at hq
      writing := by simp [next]
      errors := by
        intro q hq
        rcases h.errors q hq with hq | hq
        · exact Or.inl (List.mem_append_left _ hq)
        · rw [he.1] at hq
          exact Or.inl (by simp [next, SavePc.sendReap.inj hq])
      outcome := by
        rintro q (hq | hq)
        · exact h.outcome q (hmem q hq)
        · simp [next] at hq
      deleted := fun q hq hs => hpres q (h.deleted q hq hs)
      deleting := fun q hq hs => hpres q (h.deleting q hq hs) }
  | receiveReap p => exact { h with deleting := by simp [next] }
  | release p =>
    have hkept : ∀ q, Kept s q → Kept (next s (.release p)) q := fun q =>
      kept_update (f := { s.files p with refCount := decrement (s.files p).refCount }) id
    exact { h with
      intact := by
        intro q hq hr
        refine intact_update (by rfl) (by rfl) (h.intact q hq (lt_of_le_of_lt ?_ hr))
        simp [next]
      outcome := fun q hq => (h.outcome q hq).imp id (hkept q)
      failed := fun q hq hs => (h.failed q hq hs).imp id (hkept q)
      deleting := by
        intro q hq
        simp only [next] at hq
        split_ifs at hq }
  | testRemove p =>
    have hp : s.reap = .testRemove p := he
    simp only [next]
    split_ifs with hr
    · exact { h with
        deleting := by
          intro q hq
          rw [← ReapPc.deleteFile.inj hq]
          exact h.removable ht hc ho (by simp [hp]) hr }
    · exact { h with deleting := by simp }
  | deleteFile p =>
    exact { h with
      deleted := by
        intro q hq
        rcases List.mem_append.mp hq with hq | hq
        · exact h.deleted q hq
        · rw [List.mem_singleton.mp hq]
          exact h.deleting p he
      deleting := by simp [next] }
  | freeData p =>
    have hp : s.reap = .freeData p := he
    have hgone := ht.gone_released (p := p) (by simp [hp])
    simp only [next]
    split_ifs
    · have hkept : ∀ q, Kept s q → q ∈ s.uncounted ∨
          (setFile s p { s.files p with data := none } q).remove = false := fun q =>
        kept_update id
      exact { h with
        intact := by
          intro q hq hr
          have hqp : q ≠ p := by
            rintro rfl
            exact hr.ne hgone.2
          simp only [setFile, Function.update_of_ne hqp]
          exact h.intact q hq hr
        outcome := fun q hq => (h.outcome q hq).imp id (hkept q)
        failed := fun q hq hs => (h.failed q hq hs).imp id (hkept q)
        deleting := by simp }
    · exact { h with deleting := by simp }
  | uncount p =>
    have hkept : ∀ q, Kept s q → Kept (next s (.uncount p)) q := fun q hk =>
      hk.imp (List.mem_append_left _) id
    exact { h with
      outcome := fun q hq => (h.outcome q hq).imp id (hkept q)
      failed := fun q hq hs => (h.failed q hq hs).imp id (hkept q)
      deleting := by simp [next] }
  | _ => exact { h with }

theorem reaches_saveLaw (h : Reaches system KeepsUnsaved s) : SaveLaw s := by
  refine h.invariant_of (I := SaveLaw) (J := fun s => Tokens s ∧ Conservation s ∧ Ordered s)
    ?_ ?_ fun _ _ hl hs he hk => saveLaw_step hs hl.1 hl.2.1 hl.2.2 he hk
  · intro s hr
    have hr := hr.mono fun _ _ => KeepsUnsaved.readsLive
    exact ⟨reaches_tokens hr, reaches_conservation hr, reaches_ordered hr⟩
  · rintro _ rfl
    exact saveLaw_initial

/-- As long as no download fails for a file that is only saved and then removed, no file
to be saved is deleted before saveTask has written all of it. -/
theorem deleted_files_preserved (h : Reaches system KeepsUnsaved s) : NeverLosesData s := by
  have hl := reaches_saveLaw h
  rintro p (hp | hp) hs
  · exact hl.deleted p hp hs
  · rw [(hl.dropped p hp).2] at hs
    exact absurd hs Bool.false_ne_true

/-- A list whose only entry, the master file, is saved and then removed. -/
def saveAndRemove : Acquisition := ⟨[], 1, 0, true, false, true, 420⟩

/-- One acquisition up to the download of the master file. -/
def traceMasterDownload (acq : Acquisition) (result : Option (List UInt8)) : List Event :=
  [.submit acq, .receiveAcquisition acq 0 0, .resetPending, .waitFile true, .count,
   .sendDownload, .receiveDownload ⟨1, 0⟩, .getFile ⟨1, 0⟩ result]

/-- reapTask disposes of the master file and deletes it. -/
def traceMasterDeleted : List Event :=
  [.receiveReap ⟨1, 0⟩, .release ⟨1, 0⟩, .testRemove ⟨1, 0⟩, .deleteFile ⟨1, 0⟩]

/-- The two bytes of the master file are written by two calls. -/
def traceMasterSaved : List Event :=
  [.testParse ⟨1, 0⟩, .testSave ⟨1, 0⟩, .sendSave ⟨1, 0⟩, .receiveSave ⟨1, 0⟩,
   .openFile ⟨1, 0⟩ true, .write ⟨1, 0⟩ 0 (some 1), .write ⟨1, 0⟩ 1 (some 1),
   .closeFile ⟨1, 0⟩ 2, .sendSaved ⟨1, 0⟩]

theorem deleted_files_preserved_master :
    (⟨1, 0⟩ : FilePtr) ∈ (runTrace system initial
      (traceMasterDownload saveAndRemove (some [7, 8]) ++ traceMasterSaved ++
        traceMasterDeleted)).deleted ∧
    NeverLosesData (runTrace system initial
      (traceMasterDownload saveAndRemove (some [7, 8]) ++ traceMasterSaved ++
        traceMasterDeleted)) :=
  ⟨by decide +kernel,
    deleted_files_preserved (ValidTrace.reaches (by decide +kernel) (.start rfl))⟩

/-- After a failed download the file is deleted without having been saved. -/
theorem deleted_file_not_downloaded : ¬ ∀ s, Reachable system s → NeverLosesData s := by
  intro h
  have ht := h _ (reachable_trace rfl
    (traceMasterDownload saveAndRemove none ++ [.sendFailed ⟨1, 0⟩] ++
      traceMasterDeleted) (by decide +kernel))
  exact absurd (ht ⟨1, 0⟩ (Or.inl (by decide +kernel)) (by decide +kernel)).1
    (by decide +kernel)

end FileWriter
