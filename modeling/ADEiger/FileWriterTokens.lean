import ADEiger.FileWriterOrder
import Mathlib.Tactic.Push

/-! Reference counting of the shared file records.
The count in a live record is its initial value less the releases made so far, and every
release consumes a message of its own. These laws look into the records, so they need
that downloadTask never tests `file->save` in a list that was freed already. -/
namespace FileWriter

open TransitionSystem

variable {s : State} {e : Event} {p q : FilePtr}

/-- The one access that can come after the free: the test of `file->save`. -/
def ReadsLive (s : State) : Event → Prop
  | .testSave p => Live s p
  | _ => True

instance (s : State) : (e : Event) → Decidable (ReadsLive s e) := by
  rintro ⟨⟩ <;> simp only [ReadsLive] <;> infer_instance

/-- Consumers that a list entry announces: its initial reference count. -/
def File.consumers (f : File) : ℕ := f.save.toNat + f.parse.toNat

theorem consumers_pos {f : File} (h : (f.save || f.parse) = true) : 0 < f.consumers := by
  rw [File.consumers]
  cases hs : f.save with
  | true => simp only [Bool.toNat_true]; omega
  | false => simpa [hs, Bool.toNat_eq_zero, Nat.pos_iff_ne_zero] using h

/-- 1 once the last of `c` releases was made. -/
def exhausted (c released : ℕ) : ℕ := if 0 < c ∧ released = c then 1 else 0

theorem exhausted_of_ne {c r : ℕ} (h : r ≠ c) : exhausted c r = 0 := by simp [exhausted, h]

theorem exhausted_self {c : ℕ} (h : 0 < c) : exhausted c c = 1 := by simp [exhausted, h]

theorem exhausted_pos_iff {c r : ℕ} : 0 < exhausted c r ↔ 0 < c ∧ r = c := by
  rw [exhausted]
  split_ifs with h <;> simp [h]

theorem exhausted_zero (c : ℕ) : exhausted c 0 = 0 := by
  rw [exhausted]
  split_ifs <;> omega

theorem exhausted_le_one (c r : ℕ) : exhausted c r ≤ 1 := by
  rw [exhausted]
  split_ifs <;> omega

structure Tokens (s : State) : Prop where
  built_refs : ∀ p, (s.built p).refCount = (s.built p).consumers
  memory : ∀ p, Live s p → (s.files p).save = (s.built p).save ∧
    (s.files p).parse = (s.built p).parse ∧
    (s.files p).refCount + s.released.count p = (s.built p).consumers
  parse_wanted : ∀ p, p ∈ s.parseQueue.sent ∨ s.download = .sendParse p →
    (s.built p).parse = true
  save_wanted : ∀ p, p ∈ s.saveQueue.sent ∨ s.download = .sendSave p →
    (s.built p).save = true
  parse_done : ∀ p ∈ s.downloaded, (s.built p).parse = true →
    p ∈ s.parseQueue.sent ∨ p ∈ s.download.early
  save_done : ∀ p ∈ s.downloaded, (s.built p).save = true →
    p ∈ s.saveQueue.sent ∨ p ∈ s.download.undecided
  wanted : ∀ p, p ∈ s.counted ∨ (s.poll = .count ∧ p = curFile s) → 0 < (s.built p).consumers
  disposed : ∀ p, (s.uncounted ++ s.reap.leaving).count p =
    exhausted (s.built p).consumers (s.released.count p)
  settled : ∀ p ∈ s.counted, p ∈ s.uncounted ∨ Live s p
  pending : s.pendingFiles = (s.counted.length : ℤ) - s.uncounted.length
  at_zero : s.poll = .free ∨ s.poll = .receive ∨ s.poll = .reset → s.pendingFiles = 0

theorem tokens_initial : Tokens initial := by
  constructor <;> simp [initial, File.consumers, buildFile, Live, exhausted_zero]

/-- How often a file is in each queue, in the hands of each worker and in each history. -/
structure Flow (s : State) (p : FilePtr) : Prop where
  counted : s.downloadQueue.received.count p + s.downloadQueue.queue.count p +
    (sending s).count p = s.counted.count p
  got : s.downloadQueue.received.count p =
    s.downloaded.count p + s.failed.count p + s.download.getting.count p
  parse_le : s.parseQueue.sent.count p + s.download.early.count p ≤ s.downloaded.count p
  save_le : s.saveQueue.sent.count p + s.download.undecided.count p ≤ s.downloaded.count p
  parsed : s.parsed.count p + s.parse.held.count p + s.parseQueue.queue.count p =
    s.parseQueue.sent.count p
  saved : s.saved.count p + s.save.held.count p + s.saveQueue.queue.count p =
    s.saveQueue.sent.count p
  failed : s.failedPosted.count p + s.download.failing.count p = s.failed.count p
  released : s.released.count p + s.reap.entering.count p + s.reapQueue.queue.count p =
    s.parsed.count p + s.saved.count p + s.failedPosted.count p

theorem Conservation.flow (hc : Conservation s) (p : FilePtr) : Flow s p where
  counted := by rw [hc.counted_eq, List.count_append, Channel.count_sent]
  got := hc.download.got p
  parse_le := by
    rw [← List.count_append]
    exact hc.download.parse_sub.count_le p
  save_le := by
    rw [← List.count_append]
    exact hc.download.save_sub.count_le p
  parsed := by rw [Channel.count_sent, hc.parse_eq, List.count_append]
  saved := by rw [Channel.count_sent, hc.save_eq, List.count_append]
  failed := by rw [hc.download.failed_eq, List.count_append]
  released := by rw [← hc.reap_count, Channel.count_sent, hc.reap.reap_eq, List.count_append]

theorem download_once (hc : Conservation s) (ho : Ordered s) (p : FilePtr) :
    s.downloaded.count p + s.failed.count p + s.download.getting.count p ≤ 1 := by
  rw [← hc.download.got]
  exact ho.received_le_one hc p


theorem Tokens.parse_le (h : Tokens s) (hc : Conservation s) (ho : Ordered s) (p : FilePtr) :
    s.parseQueue.sent.count p ≤ (s.built p).parse.toNat := by
  by_cases hp : p ∈ s.parseQueue.sent
  · rw [h.parse_wanted p (Or.inl hp)]
    exact ho.count_le_one ((List.sublist_append_left _ _).trans hc.parse_counted) p
  · simp [List.count_eq_zero_of_not_mem hp]

theorem Tokens.save_le (h : Tokens s) (hc : Conservation s) (ho : Ordered s) (p : FilePtr) :
    s.saveQueue.sent.count p ≤ (s.built p).save.toNat := by
  by_cases hp : p ∈ s.saveQueue.sent
  · rw [h.save_wanted p (Or.inl hp)]
    exact ho.count_le_one ((List.sublist_append_left _ _).trans hc.save_counted) p
  · simp [List.count_eq_zero_of_not_mem hp]

theorem Tokens.refs_pos (h : Tokens s) (hp : p ∈ s.counted) : 0 < (s.built p).consumers :=
  h.wanted p (Or.inl hp)

/-- Every reap message, taken or pending, is paid for by one announced consumer. -/
theorem Tokens.released_le (h : Tokens s) (hc : Conservation s) (ho : Ordered s)
    (p : FilePtr) (hr : 0 < (s.built p).consumers) :
    s.released.count p + s.reap.entering.count p + s.reapQueue.queue.count p ≤
      (s.built p).consumers := by
  obtain ⟨e₁, e₂, e₃, e₄, e₅, e₆, e₇, e₈⟩ := hc.flow p
  have honce := download_once hc ho p
  have hparse := h.parse_le hc ho p
  have hsave := h.save_le hc ho p
  unfold File.consumers at *
  omega

theorem Tokens.live_of_lt (h : Tokens s) (hp : p ∈ s.counted)
    (hlt : s.released.count p < (s.built p).consumers) : Live s p := by
  refine (h.settled p hp).resolve_left fun hu => ?_
  have hd := h.disposed p
  rw [exhausted_of_ne hlt.ne] at hd
  exact (List.count_eq_zero.mp hd) (List.mem_append_left _ hu)

theorem early_counted (hc : Conservation s) (hp : p ∈ s.download.early) : p ∈ s.counted :=
  hc.parse_counted.subset (List.mem_append_right _ hp)

theorem undecided_counted (hc : Conservation s) (hp : p ∈ s.download.undecided) :
    p ∈ s.counted :=
  hc.save_counted.subset (List.mem_append_right _ hp)

theorem Tokens.early_live (h : Tokens s) (hc : Conservation s) (ho : Ordered s)
    (hp : p ∈ s.download.early) (hu : p ∈ s.download.undecided) : Live s p := by
  have hcount := early_counted hc hp
  apply h.live_of_lt hcount
  have hr := h.refs_pos hcount
  obtain ⟨e₁, e₂, e₃, e₄, e₅, e₆, e₇, e₈⟩ := hc.flow p
  have honce := download_once hc ho p
  have hearly := List.count_pos_iff.mpr hp
  have hundecided := List.count_pos_iff.mpr hu
  omega

theorem entering_counted (hc : Conservation s) (hp : p ∈ s.reapQueue.sent) :
    p ∈ s.counted := by
  have hpos := List.count_pos_iff.mpr hp
  rw [hc.reap_count] at hpos
  obtain ⟨e₁, e₂, e₃, e₄, e₅, e₆, e₇, e₈⟩ := hc.flow p
  exact List.count_pos_iff.mp (by omega)

theorem released_counted (hc : Conservation s) (hp : 0 < s.released.count p) :
    p ∈ s.counted := by
  apply entering_counted hc
  apply (Channel.received_prefix_sent _).subset
  rw [hc.reap.reap_eq]
  exact List.mem_append_left _ (List.count_pos_iff.mp hp)

theorem Tokens.release_lt (h : Tokens s) (hc : Conservation s) (ho : Ordered s)
    (hr : s.reap = .release p) : s.released.count p < (s.built p).consumers ∧ p ∈ s.counted := by
  have hp : p ∈ s.counted := by
    apply entering_counted hc
    apply (Channel.received_prefix_sent _).subset
    simp [hc.reap.reap_eq, hr]
  have := h.released_le hc ho p (h.refs_pos hp)
  simp only [hr, ReapPc.entering, List.count_singleton_self] at this
  exact ⟨by omega, hp⟩

theorem Tokens.memory_update (h : Tokens s) (f : File) (hs : f.save = (s.files p).save)
    (hp : f.parse = (s.files p).parse) (hr : f.refCount = (s.files p).refCount)
    (q : FilePtr) (hl : Live s q) :
    (setFile s p f q).save = (s.built q).save ∧ (setFile s p f q).parse = (s.built q).parse ∧
      (setFile s p f q).refCount + s.released.count q = (s.built q).consumers := by
  by_cases hq : q = p
  · subst hq
    simpa [setFile, hs, hp, hr] using h.memory q hl
  · simpa [setFile, Function.update_of_ne hq] using h.memory q hl

theorem Tokens.gone_nodup (h : Tokens s) : (s.uncounted ++ s.reap.leaving).Nodup := by
  rw [List.nodup_iff_count_le_one]
  intro q
  rw [h.disposed]
  exact exhausted_le_one _ _

theorem Tokens.gone_released (h : Tokens s) (hp : p ∈ s.uncounted ++ s.reap.leaving) :
    0 < (s.built p).consumers ∧ s.released.count p = (s.built p).consumers := by
  have hd := h.disposed p
  have := List.count_pos_iff.mpr hp
  exact exhausted_pos_iff.mp (by rwa [← hd])

theorem Tokens.uncounted_nodup (h : Tokens s) : s.uncounted.Nodup :=
  h.gone_nodup.sublist (List.sublist_append_left _ _)

theorem Tokens.gone_counted (h : Tokens s) (hc : Conservation s)
    (hp : p ∈ s.uncounted ++ s.reap.leaving) : p ∈ s.counted := by
  obtain ⟨hpos, hr⟩ := h.gone_released hp
  exact released_counted hc (by omega)

/-- With a pending count of zero, every counted file has been disposed of. -/
theorem Tokens.all_settled (h : Tokens s) (hc : Conservation s) (hz : s.pendingFiles = 0)
    (hp : p ∈ s.counted) : p ∈ s.uncounted := by
  have hsub : s.uncounted ⊆ s.counted :=
    fun q hq => h.gone_counted hc (List.mem_append_left _ hq)
  have hlen : s.counted.length ≤ s.uncounted.length := by
    have := h.pending
    omega
  exact ((h.uncounted_nodup.subperm hsub).perm_of_length_le hlen).mem_iff.mpr hp

theorem release_eq_zero {n r k : ℕ} (hm : n + k = r) (hk : k < r) :
    decrement n + (k + 1) = r ∧ (decrement n = 0 ↔ k + 1 = r) := by
  rw [decrement]
  split_ifs <;> omega

theorem tokens_receiveAcquisition (h : Tokens s) (hc : Conservation s) (ho : Ordered s)
    {acq : Acquisition} {uid gid : ℕ} (hr : s.poll = .receive) :
    Tokens (next s (.receiveAcquisition acq uid gid)) := by
  have hold : ∀ p ∈ s.counted, p.block ≠ s.block + 1 := by
    intro p hp
    have := ho.bounded p hp
    simp only [Before, position, hr] at this
    omega
  have hb : ∀ p ∈ s.counted,
      (next s (.receiveAcquisition acq uid gid)).built p = s.built p := by
    intro p hp
    simp [next, hold p hp]
  have hz : s.pendingFiles = 0 := h.at_zero (Or.inr (Or.inl hr))
  have hrel : ∀ p, p.block = s.block + 1 → s.released.count p = 0 := by
    intro p hp
    by_contra hn
    exact hold p (released_counted hc (Nat.pos_of_ne_zero hn)) hp
  constructor
  · intro p
    simp only [next, File.consumers]
    split_ifs
    · rfl
    · exact h.built_refs p
  · rintro p ⟨-, hp, -⟩
    have hp : p.block = s.block + 1 := hp
    simp [next, File.consumers, hp, hrel p hp, buildFile]
  · intro p hp
    have hcount : p ∈ s.counted := by
      rcases hp with hp | hp
      · exact hc.parse_counted.subset (List.mem_append_left _ hp)
      · have hp : s.download = .sendParse p := hp
        exact early_counted hc (by simp [hp])
    rw [hb p hcount]
    exact h.parse_wanted p hp
  · intro p hp
    have hcount : p ∈ s.counted := by
      rcases hp with hp | hp
      · exact hc.save_counted.subset (List.mem_append_left _ hp)
      · have hp : s.download = .sendSave p := hp
        exact undecided_counted hc (by simp [hp])
    rw [hb p hcount]
    exact h.save_wanted p hp
  · intro p hp
    rw [hb p (hc.downloaded_counted.subset (List.mem_append_left _ hp))]
    exact h.parse_done p hp
  · intro p hp
    rw [hb p (hc.downloaded_counted.subset (List.mem_append_left _ hp))]
    exact h.save_done p hp
  · rintro p (hp | ⟨hp, -⟩)
    · simpa only [File.consumers, hb p hp] using h.refs_pos hp
    · simp [next] at hp
  · intro p
    by_cases hp : p.block = s.block + 1
    · have hd := h.disposed p
      rw [hrel p hp, exhausted_zero] at hd
      change (s.uncounted ++ s.reap.leaving).count p = exhausted _ (s.released.count p)
      rw [hd, hrel p hp, exhausted_zero]
    · simpa [next, hp] using h.disposed p
  · intro p hp
    exact Or.inl (h.all_settled hc hz hp)
  · exact h.pending
  · exact fun _ => hz

theorem Tokens.movePoll (h : Tokens s) (hlist : s.poll ≠ .receive) (pc : PollPc) (i : ℕ)
    (hpc : pc ≠ .receive ∧ pc ≠ .reset)
    (hcount : pc = .count → 0 < (s.built ⟨s.block, i⟩).consumers)
    (hfree : pc = .free → s.pendingFiles = 0) : Tokens { s with poll := pc, i := i } :=
  { h with
    memory := fun p hp => h.memory p ⟨hlist, hp.2⟩
    wanted := by
      rintro p (hp | ⟨hp, rfl⟩)
      · exact h.refs_pos hp
      · exact hcount hp
    settled := fun p hp => (h.settled p hp).imp id fun hl => ⟨hpc.1, hl.2⟩
    at_zero := by
      rintro (hp | hp | hp)
      · exact hfree hp
      · exact absurd hp hpc.1
      · exact absurd hp hpc.2 }

/-- downloadTask goes on, with a message that is wanted or past one that is not. -/
theorem Tokens.moveDownload (h : Tokens s) (pc : DownloadPc)
    (hparse : ∀ p, pc = .sendParse p → (s.built p).parse = true)
    (hsave : ∀ p, pc = .sendSave p → (s.built p).save = true)
    (hearly : ∀ p ∈ s.download.early, (s.built p).parse = true → p ∈ pc.early)
    (hundecided : ∀ p ∈ s.download.undecided, (s.built p).save = true → p ∈ pc.undecided) :
    Tokens { s with download := pc } :=
  { h with
    parse_wanted := by
      rintro p (hp | hp)
      · exact h.parse_wanted p (Or.inl hp)
      · exact hparse p hp
    save_wanted := by
      rintro p (hp | hp)
      · exact h.save_wanted p (Or.inl hp)
      · exact hsave p hp
    parse_done := fun p hp hw => (h.parse_done p hp hw).imp id fun he => hearly p he hw
    save_done := fun p hp hw => (h.save_done p hp hw).imp id fun he => hundecided p he hw }

/-- A release takes one from the count, and the last one starts the disposal. -/
theorem tokens_release (h : Tokens s) (hc : Conservation s) (ho : Ordered s)
    (hr : s.reap = .release p) : Tokens (next s (.release p)) := by
  obtain ⟨hlt, hp⟩ := h.release_lt hc ho hr
  obtain ⟨hs, hq, hm⟩ := h.memory p (h.live_of_lt hp hlt)
  obtain ⟨hm, hz⟩ := release_eq_zero hm hlt
  have hu : ∀ q, s.uncounted.count q =
      exhausted (s.built q).consumers (s.released.count q) := by
    simpa [hr] using h.disposed
  exact { h with
    memory := by
      intro q hl
      by_cases hqp : q = p
      · subst hqp
        simpa [next, setFile, List.count_append] using ⟨hs, hq, hm⟩
      · have := h.memory q hl
        simpa [next, setFile, Function.update_of_ne hqp, List.count_append,
          List.count_singleton, Ne.symm hqp] using this
    disposed := by
      intro q
      by_cases hqp : q = p
      · subst hqp
        have hold := hu q
        rw [exhausted_of_ne hlt.ne] at hold
        simp only [next, List.count_append, List.count_singleton_self, hold]
        split_ifs with hzero
        · rw [hz.mp hzero, exhausted_self (h.refs_pos hp)]
          simp
        · rw [exhausted_of_ne (fun hk => hzero (hz.mpr hk))]
          simp
      · have : List.count q [p] = 0 := by simp [Ne.symm hqp]
        simp only [next, List.count_append, this, Nat.add_zero, ← hu q]
        split_ifs <;> simp [Ne.symm hqp] }

theorem tokens_step (h : Tokens s) (hc : Conservation s) (ho : Ordered s)
    (he : Enabled s e) (hl : ReadsLive s e) : Tokens (next s e) := by
  cases e with
  | submit | stop => exact { h with }
  | overwrite contents =>
    exact { h with
      memory := by
        intro p hp
        have hp : Live s p := hp
        simpa [next, hp] using h.memory p hp }
  | receiveAcquisition acq uid gid => exact tokens_receiveAcquisition h hc ho he.1
  | resetPending =>
    have hr : s.poll = .reset := he
    have hmoved := h.movePoll (by simp [hr]) .polling 0 (by simp) (by simp) (by simp)
    exact { hmoved with
      pending := by
        have := h.pending
        have := h.at_zero (Or.inr (Or.inr hr))
        simp only [next]
        omega
      at_zero := by simp [next] }
  | waitFile found =>
    have hcur : Live s (curFile s) := ⟨by simp [he.1], rfl, he.2.1⟩
    simp only [next]
    split_ifs with hf hw
    · obtain ⟨hs, hp, -⟩ := h.memory _ hcur
      rw [hs, hp] at hw
      exact h.movePoll (by simp [he.1]) _ s.i (by simp) (fun _ => consumers_pos hw) (by simp)
    all_goals exact { h with wanted := by simpa [he.1] using fun p hp => h.refs_pos hp }
  | leaveLoop => exact h.movePoll (by simp [he.1]) _ s.i (by simp) (by simp) (by simp)
  | count =>
    have hr : s.poll = .count := he
    have hcur : Live s (curFile s) := ⟨by simp [hr], rfl, ho.guard (Or.inl hr)⟩
    have hmoved := h.movePoll (by simp [hr]) .send s.i (by simp) (by simp) (by simp)
    exact { hmoved with
      wanted := by
        rintro p (hp | ⟨hp, -⟩)
        · rcases List.mem_append.mp hp with hp | hp
          · exact h.refs_pos hp
          · exact h.wanted p (Or.inr ⟨hr, List.mem_singleton.mp hp⟩)
        · simp [next] at hp
      settled := by
        intro p hp
        rcases List.mem_append.mp hp with hp | hp
        · exact hmoved.settled p hp
        · rw [List.mem_singleton.mp hp]
          exact Or.inr ⟨by simp [next], hcur.2⟩
      pending := by
        have := h.pending
        simp only [next, List.length_append, List.length_singleton]
        push_cast
        omega
      at_zero := by simp [next] }
  | sendDownload =>
    have hmoved := h.movePoll (by simp [he.1]) .polling (s.i + 1) (by simp) (by simp)
      (by simp)
    exact { hmoved with }
  | readPending =>
    have hr : s.poll = .draining := he
    simp only [next]
    split_ifs with hz
    · exact h.movePoll (by simp [hr]) _ s.i (by simp) (by simp) fun _ => hz
    · exact h
  | free =>
    have hz := h.at_zero (Or.inl he)
    exact { h with
      memory := fun p hp => absurd rfl hp.1
      wanted := by simpa [next] using fun p hp => h.refs_pos hp
      settled := fun p hp => Or.inl (h.all_settled hc hz hp)
      at_zero := fun _ => hz }
  | receiveDownload p =>
    have hmoved := h.moveDownload (.getFile p) (by simp) (by simp) (by simp [he.1])
      (by simp [he.1])
    exact { hmoved with }
  | getFile p result =>
    have hr : s.download = .getFile p := he
    cases result with
    | none =>
      have hmoved := h.moveDownload (.sendFailed p) (by simp) (by simp) (by simp [hr])
        (by simp [hr])
      exact { hmoved with memory := h.memory_update _ rfl rfl rfl }
    | some data =>
      have hmoved := h.moveDownload (.testParse p) (by simp) (by simp) (by simp [hr])
        (by simp [hr])
      exact { hmoved with
        memory := h.memory_update _ rfl rfl rfl
        parse_done := by
          intro q hq hw
          rcases List.mem_append.mp hq with hq | hq
          · exact hmoved.parse_done q hq hw
          · exact Or.inr hq
        save_done := by
          intro q hq hw
          rcases List.mem_append.mp hq with hq | hq
          · exact hmoved.save_done q hq hw
          · exact Or.inr hq }
  | testParse p =>
    have hr : s.download = .testParse p := he
    obtain ⟨-, hp, -⟩ := h.memory p (h.early_live hc ho (by simp [hr]) (by simp [hr]))
    simp only [next]
    rw [hp]
    split_ifs with hf
    · apply h.moveDownload
      · rintro q ⟨⟩
        exact hf
      all_goals simp [hr]
    · apply h.moveDownload
      · simp
      · simp
      · simpa [hr] using hf
      · simp [hr]
  | sendParse p =>
    exact { h with
      parse_wanted := by
        rintro q (hq | hq)
        · simp only [next, Channel.sent_send, List.mem_append, List.mem_singleton] at hq
          rcases hq with hq | rfl
          · exact h.parse_wanted q (Or.inl hq)
          · exact h.parse_wanted q (Or.inr he.1)
        · simp [next] at hq
      save_wanted := by simpa [next, he.1] using h.save_wanted
      parse_done := by
        intro q hq hw
        have := h.parse_done q hq hw
        simpa [next, he.1] using this
      save_done := by simpa [next, he.1] using h.save_done }
  | testSave p =>
    have hr : s.download = .testSave p := he
    obtain ⟨hs, -, -⟩ := h.memory p hl
    simp only [next]
    rw [hs]
    split_ifs with hf
    · apply h.moveDownload
      · simp
      · rintro q ⟨⟩
        exact hf
      all_goals simp [hr]
    · apply h.moveDownload
      · simp
      · simp
      · simp [hr]
      · simpa [hr] using hf
  | sendSave p =>
    exact { h with
      parse_wanted := by simpa [next, he.1] using h.parse_wanted
      save_wanted := by
        rintro q (hq | hq)
        · simp only [next, Channel.sent_send, List.mem_append, List.mem_singleton] at hq
          rcases hq with hq | rfl
          · exact h.save_wanted q (Or.inl hq)
          · exact h.save_wanted q (Or.inr he.1)
        · simp [next] at hq
      parse_done := by simpa [next, he.1] using h.parse_done
      save_done := by
        intro q hq hw
        have := h.save_done q hq hw
        simpa [next, he.1] using this }
  | sendFailed p =>
    have hmoved := h.moveDownload .receive (by simp) (by simp) (by simp [he.1])
      (by simp [he.1])
    exact { hmoved with }
  | receiveParse p =>
    exact { h with
      parse_wanted := by simpa [next] using h.parse_wanted
      parse_done := by simpa [next] using h.parse_done }
  | parseFile | sendParsed => exact { h with }
  | receiveSave p =>
    exact { h with
      save_wanted := by simpa [next] using h.save_wanted
      save_done := by simpa [next] using h.save_done }
  | openFile p ok =>
    cases ok with
    | true => exact { h with }
    | false => exact { h with memory := h.memory_update _ rfl rfl rfl }
  | write p total result =>
    cases result with
    | none => exact { h with memory := h.memory_update _ rfl rfl rfl }
    | some n => exact { h with }
  | closeFile | sendSaved => exact { h with }
  | receiveReap p => exact { h with disposed := by simpa [next, he.1] using h.disposed }
  | release p => exact tokens_release h hc ho he
  | testRemove p =>
    have hr : s.reap = .testRemove p := he
    simp only [next]
    split_ifs <;> exact { h with disposed := by simpa [hr] using h.disposed }
  | deleteFile p =>
    have hr : s.reap = .deleteFile p := he
    exact { h with disposed := by simpa [next, hr] using h.disposed }
  | freeData p =>
    have hr : s.reap = .freeData p := he
    simp only [next]
    split_ifs
    · exact { h with
        memory := h.memory_update _ rfl rfl rfl
        disposed := by simpa [hr] using h.disposed }
    · exact { h with disposed := by simpa [hr] using h.disposed }
  | uncount p =>
    have hr : s.reap = .uncount p := he
    have hg : p ∈ s.uncounted ++ s.reap.leaving := by simp [hr]
    -- a file still to be uncounted keeps the pending count away from zero
    have hnz : s.pendingFiles ≠ 0 := by
      intro hz
      have hu := h.all_settled hc hz (h.gone_counted hc hg)
      exact (List.nodup_append.mp h.gone_nodup).2.2 p hu p (by simp [hr]) rfl
    exact { h with
      disposed := by simpa [next, hr] using h.disposed
      settled := fun q hq => (h.settled q hq).imp (List.mem_append_left _) id
      pending := by
        have := h.pending
        simp only [next, List.length_append, List.length_singleton]
        push_cast
        omega
      at_zero := fun hq => absurd (h.at_zero hq) hnz }

theorem reaches_tokens (h : Reaches system ReadsLive s) : Tokens s := by
  refine h.invariant_of (I := Tokens) (J := fun s => Conservation s ∧ Ordered s)
    (fun _ hr => ⟨reaches_conservation hr, reaches_ordered hr⟩) ?_
    fun _ _ hk ht he hl => tokens_step ht hk.1 hk.2 he hl
  rintro _ rfl
  exact tokens_initial

end FileWriter
