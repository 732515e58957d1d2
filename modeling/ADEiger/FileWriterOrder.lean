import ADEiger.FileWriterHistory
import Mathlib.Data.List.Nodup

/-! The list order of pollTask and its consequences for the deliveries.
Counted files are numbered upwards within and across acquisitions. Every later stage
handles a sublist of them, so nothing is delivered twice or out of order. -/
namespace FileWriter

open TransitionSystem

variable {s : State} {e : Event} {p q : FilePtr}

/-- Order of acquisition, then order in the list of the acquisition. -/
def Before (p q : FilePtr) : Prop :=
  p.block < q.block ∨ (p.block = q.block ∧ p.idx < q.idx)

instance (p q : FilePtr) : Decidable (Before p q) := inferInstanceAs (Decidable (_ ∨ _ ∧ _))

theorem before_irrefl (p : FilePtr) : ¬ Before p p := by simp [Before]

theorem before_trans {r : FilePtr} (h : Before p q) (k : Before q r) : Before p r := by
  unfold Before at *
  omega

/-- The first file that pollTask has not counted yet. -/
def position (s : State) : FilePtr :=
  match s.poll with
  | .reset => ⟨s.block, 0⟩
  | .send => ⟨s.block, s.i + 1⟩
  | _ => ⟨s.block, s.i⟩

structure Ordered (s : State) : Prop where
  increasing : s.counted.Pairwise Before
  bounded : ∀ p ∈ s.counted, Before p (position s)
  in_list : ∀ p ∈ s.counted, p.block = s.block → p.idx < s.totalFiles
  guard : s.poll = .count ∨ s.poll = .send → s.i < s.totalFiles

theorem ordered_initial : Ordered initial := by
  constructor <;> simp [initial]

/-- A step that counts nothing and does not move the position back keeps the order. -/
theorem Ordered.advance {t : State} (h : Ordered s) (hc : t.counted = s.counted)
    (hb : t.block = s.block) (ht : t.totalFiles = s.totalFiles)
    (hp : position t = position s ∨ Before (position s) (position t))
    (hg : t.poll = .count ∨ t.poll = .send → t.i < t.totalFiles) : Ordered t where
  increasing := by rw [hc]; exact h.increasing
  bounded p hp' := by
    have hb := h.bounded p (hc ▸ hp')
    rcases hp with hp | hp
    · rwa [hp]
    · exact before_trans hb hp
  in_list p hp' he := by rw [ht]; exact h.in_list p (hc ▸ hp') (hb ▸ he)
  guard := hg

theorem ordered_step (h : Ordered s) (he : Enabled s e) : Ordered (next s e) := by
  cases e with
  | receiveAcquisition acq uid gid =>
    have hb : ∀ p ∈ s.counted, p.block < s.block + 1 := by
      intro p hp
      have := h.bounded p hp
      simp only [Before, position, he.1] at this
      omega
    exact {
      increasing := h.increasing
      bounded := fun p hp => Or.inl (hb p hp)
      in_list := fun p hp hq => absurd hq (hb p hp).ne
      guard := by simp [next] }
  | resetPending =>
    have hr : s.poll = .reset := he
    exact h.advance rfl rfl rfl (Or.inl (by simp [next, position, hr])) (by simp [next])
  | waitFile found =>
    simp only [next]
    split_ifs
    · exact h.advance rfl rfl rfl (Or.inl (by simp [position, he.1])) (fun _ => he.2.1)
    all_goals refine h.advance rfl rfl rfl ?_ (by simp [he.1])
    · exact Or.inr (Or.inr (by simp [position, he.1]))
    · exact Or.inr (Or.inr (by simp [position, he.1]))
    · exact Or.inl (by simp [position, he.1])
    · exact Or.inl rfl
  | leaveLoop =>
    exact h.advance rfl rfl rfl (Or.inl (by simp [next, position, he.1])) (by simp [next])
  | count =>
    have hr : s.poll = .count := he
    have hb : ∀ p ∈ s.counted, Before p (curFile s) := by
      simpa [position, hr, curFile] using h.bounded
    have hcur : Before (curFile s) ⟨s.block, s.i + 1⟩ := by simp [Before, curFile]
    constructor
    · simpa [next, List.pairwise_append] using ⟨h.increasing, hb⟩
    · intro p hp
      rcases List.mem_append.mp hp with hp | hp
      · exact before_trans (hb p hp) hcur
      · rw [List.mem_singleton.mp hp]
        exact hcur
    · intro p hp hq
      rcases List.mem_append.mp hp with hp | hp
      · exact h.in_list p hp hq
      · rw [List.mem_singleton.mp hp]
        exact h.guard (Or.inl he)
    · exact fun _ => h.guard (Or.inl he)
  | sendDownload =>
    exact h.advance rfl rfl rfl (Or.inl (by simp [next, position, he.1])) (by simp [next])
  | readPending =>
    have hr : s.poll = .draining := he
    simp only [next]
    split_ifs
    · exact h.advance rfl rfl rfl (Or.inl (by simp [position, hr])) (by simp)
    · exact h
  | free =>
    have hr : s.poll = .free := he
    exact h.advance rfl rfl rfl (Or.inl (by simp [next, position, hr])) (by simp [next])
  | getFile p result => cases result <;> exact { h with }
  | openFile p ok => cases ok <;> exact { h with }
  | write p total result => cases result <;> exact { h with }
  | freeData p => simp only [next]; split_ifs <;> exact { h with }
  | _ => exact { h with }

theorem reaches_ordered {C : State → Event → Prop} (h : Reaches system C s) : Ordered s := by
  refine h.invariant (I := Ordered) ?_ fun _ _ ho he _ => ordered_step ho he
  rintro _ rfl
  exact ordered_initial

theorem built_next (hp : p.block ≤ s.block) : (next s e).built p = s.built p := by
  cases e with
  | receiveAcquisition acq uid gid => exact if_neg (by omega)
  | waitFile found => simp only [next]; split_ifs <;> rfl
  | readPending => simp only [next]; split_ifs <;> rfl
  | getFile p result => cases result <;> rfl
  | openFile p ok => cases ok <;> rfl
  | write p total result => cases result <;> rfl
  | freeData p => simp only [next]; split_ifs <;> rfl
  | _ => rfl

theorem Ordered.block_le (h : Ordered s) (hp : p ∈ s.counted) : p.block ≤ s.block := by
  have hb := h.bounded p hp
  unfold Before position at hb
  split at hb <;> dsimp only at hb <;> omega

theorem built_stable (h : Ordered s) (hp : p ∈ s.counted) :
    (next s e).built p = s.built p := built_next (h.block_le hp)

theorem failed_next (hp : p ∈ (next s e).failed) : p ∈ s.failed ∨ e = .getFile p none := by
  cases e with
  | getFile q result =>
    cases result with
    | none =>
      rcases List.mem_append.mp hp with hp | hp
      · exact Or.inl hp
      · exact Or.inr (by rw [List.mem_singleton.mp hp])
    | some data => exact Or.inl hp
  | waitFile found => simp only [next] at hp; split_ifs at hp <;> exact Or.inl hp
  | readPending => simp only [next] at hp; split_ifs at hp <;> exact Or.inl hp
  | openFile q ok => cases ok <;> exact Or.inl hp
  | write q total result => cases result <;> exact Or.inl hp
  | freeData q => simp only [next] at hp; split_ifs at hp <;> exact Or.inl hp
  | _ => exact Or.inl hp

theorem nodup_of_increasing {l : List FilePtr} (h : l.Pairwise Before) : l.Nodup := by
  apply h.imp
  intro a b hab heq
  exact before_irrefl b (heq ▸ hab)

/-- The stages of the pipeline as sublists of the files that pollTask counted. -/
theorem Conservation.sent_counted (h : Conservation s) :
    s.downloadQueue.sent.Sublist s.counted := by
  rw [h.counted_eq]
  exact List.sublist_append_left _ _

theorem Conservation.downloaded_counted (h : Conservation s) :
    (s.downloaded ++ s.download.getting).Sublist s.counted :=
  (h.download.downloaded_sub.trans (Channel.received_prefix_sent _).sublist).trans
    h.sent_counted

theorem Conservation.parse_counted (h : Conservation s) :
    (s.parseQueue.sent ++ s.download.early).Sublist s.counted :=
  (h.download.parse_sub.trans (List.sublist_append_left _ _)).trans h.downloaded_counted

theorem Conservation.save_counted (h : Conservation s) :
    (s.saveQueue.sent ++ s.download.undecided).Sublist s.counted :=
  (h.download.save_sub.trans (List.sublist_append_left _ _)).trans h.downloaded_counted

theorem Ordered.of_sublist (h : Ordered s) {l : List FilePtr} (hl : l.Sublist s.counted) :
    l.Pairwise Before := h.increasing.sublist hl

theorem Ordered.count_le_one (h : Ordered s) {l : List FilePtr} (hl : l.Sublist s.counted)
    (p : FilePtr) : l.count p ≤ 1 :=
  List.nodup_iff_count_le_one.mp (nodup_of_increasing (h.of_sublist hl)) p

/-- A pointer that was received twice would have been counted twice. -/
theorem Ordered.received_le_one (h : Ordered s) (hc : Conservation s) (p : FilePtr) :
    s.downloadQueue.received.count p ≤ 1 :=
  h.count_le_one ((Channel.received_prefix_sent _).sublist.trans hc.sent_counted) p

end FileWriter
