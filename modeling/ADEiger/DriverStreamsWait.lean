import ADEiger.DriverStreams
import ADEiger.Inevitable
import Mathlib.Data.Prod.Lex

/-! The end of a series.
Once the detector has sent all of a series, its end is in the socket and streamTask on its way to
it; controlTask, which waits for streamTask then, does not wait for ever. -/
namespace DriverStreams

open TransitionSystem
open StreamApi (Version Part Err getHeader waitFrame skip Follows Kind)

variable {v : Version} {d : Driver.State} {s : StreamSeries.State} {a : Event}
  {x : Driver.State × StreamSeries.State} {m : Part} {e : StreamSeries.Event}

/-- getFrame builds the array that it is asked for. -/
def Builds : StreamSeries.Event → Prop
  | .getShape _ ok | .getThreshold _ _ ok => ok = true
  | _ => True

instance (e : StreamSeries.Event) : Decidable (Builds e) := by
  unfold Builds
  split <;> infer_instance

/-- The part can be read where it is the end of a series or the shape of an image. -/
def Readable (v : Version) (m : Part) : Prop :=
  (m.kind = .seriesEnd → waitFrame v m = .success) ∧ (m.kind = .shape → m.code = 0)

instance (v : Version) (m : Part) : Decidable (Readable v m) :=
  inferInstanceAs (Decidable (_ ∧ _))

def Sends (v : Version) : StreamSeries.Event → Prop
  | .send m => Readable v m
  | _ => True

instance (v : Version) (e : StreamSeries.Event) : Decidable (Sends v e) := by
  unfold Sends
  split <;> infer_instance

/-- What the detector sends can be read, and no getFrame fails. -/
def Succeeds (v : Version) (_ : StreamSeries.State) (e : StreamSeries.Event) : Prop :=
  Sends v e ∧ Builds e

instance (v : Version) (s : StreamSeries.State) (e : StreamSeries.Event) :
    Decidable (Succeeds v s e) := inferInstanceAs (Decidable (_ ∧ _))

/-- The header parts that follow. -/
def headerLeft : Kind → ℕ
  | .header detail => detail.skip
  | .headerPart n => n
  | _ => 0

/-- The last part that streamTask took is the end of the series that was armed. -/
def AtEnd (s : StreamSeries.State) : Prop :=
  s.received.kind = .seriesEnd ∧ s.received.series = s.armed

/-- What streamTask took last when it is at `pc`. -/
def Placed (v : Version) (s : StreamSeries.State) : StreamSeries.StreamPc → Prop
  | .waiting | .finish => True
  | .header => ¬ AtEnd s ∧ (v = .stream → s.received.series < s.armed)
  | .skip n => v = .stream ∧ n < headerLeft s.received.kind
  | .frame | .threshold _ _ => ¬ AtEnd s
  | .shape => v = .stream ∧ ∃ n, s.received.kind = .image n
  | .data _ => v = .stream ∧ s.received.kind = .shape
  | .times _ _ => v = .stream ∧ s.received.kind = .data
  | .undefined => False

/-- streamTask is on its way to the end of the series that was armed. -/
structure Reading (v : Version) (s : StreamSeries.State) : Prop where
  queue : ∀ m ∈ s.queue, Readable v m
  placed : Placed v s s.stream

/-- streamTask has a part to take before it is at the end. -/
def takes : StreamSeries.StreamPc → Bool
  | .waiting | .finish => false
  | _ => true

theorem not_atEnd (hk : s.received.kind ≠ .seriesEnd) : ¬ AtEnd s := fun h => hk h.1

theorem not_end_of_headerLeft {k : Kind} {n : ℕ} (h : n < headerLeft k) : k ≠ .seriesEnd := by
  rintro rfl
  exact Nat.not_lt_zero n h

theorem Placed.not_atEnd {pc : StreamSeries.StreamPc} (h : Placed v s pc) (ht : takes pc = true) :
    ¬ AtEnd s := by
  cases pc with
  | waiting => cases ht
  | finish => cases ht
  | header => exact h.1
  | skip n => exact DriverStreams.not_atEnd (not_end_of_headerLeft h.2)
  | frame => exact h
  | threshold p n => exact h
  | shape =>
    obtain ⟨-, n, hk⟩ := h
    exact DriverStreams.not_atEnd (by rw [hk]; exact fun hc => by cases hc)
  | data p => exact DriverStreams.not_atEnd (by rw [h.2]; exact fun hc => by cases hc)
  | times p q => exact DriverStreams.not_atEnd (by rw [h.2]; exact fun hc => by cases hc)
  | undefined => exact absurd h id

theorem placed_thresholdLoop (n : ℕ) (h : ¬ AtEnd s) :
    Placed v s (StreamSeries.thresholdLoop m n) := by
  cases n <;> exact h

theorem placed_skipLoop {n : ℕ} (hv : n ≠ 0 → v = .stream) (hle : n ≤ headerLeft s.received.kind)
    (h : ¬ AtEnd s) : Placed v s (StreamSeries.skipLoop n) := by
  cases n with
  | zero => exact h
  | succ n => exact ⟨hv (Nat.succ_ne_zero n), hle⟩

theorem ofInt_eq_success {n : ℕ} (h : Err.ofInt n = .success) : n = 0 := by
  rcases n with _ | _ | _ | _ | n
  · rfl
  all_goals cases h

theorem header_of_success (h : getHeader v m = .success) : ∃ detail, m.kind = .header detail := by
  cases v with
  | stream =>
    simp only [getHeader, StreamApi.StreamAPI.getHeader] at h
    split_ifs at h
    split at h
    · exact ⟨_, by assumption⟩
    · cases h
  | stream2 =>
    simp only [getHeader, StreamApi.Stream2API.getHeader] at h
    split_ifs at h with hcode
    · exact absurd (ofInt_eq_success h) hcode
    · split at h
      · exact ⟨_, by assumption⟩
      · cases h

/-- What waitFrame takes is an image or the end of the series, and it was parsed. -/
theorem frame_of_success (h : waitFrame v m = .success) :
    m.code = 0 ∧ ((∃ n, m.kind = .image n) ∨ m.kind = .seriesEnd) := by
  cases v with
  | stream =>
    simp only [waitFrame, StreamApi.StreamAPI.waitFrame] at h
    split_ifs at h with hcode
    refine ⟨not_not.mp hcode, ?_⟩
    split at h
    · exact .inl ⟨_, by assumption⟩
    · exact .inr (by assumption)
    · cases h
  | stream2 =>
    simp only [waitFrame, StreamApi.Stream2API.waitFrame] at h
    split_ifs at h with hcode
    · exact absurd (ofInt_eq_success h) hcode
    · refine ⟨not_not.mp hcode, ?_⟩
      split at h
      · exact .inl ⟨_, by assumption⟩
      · exact .inr (by assumption)
      · cases h

/-- The parts that the wait for the header drops. -/
theorem header_goes_on (h : getHeader v m = .wrongHtype ∨ getHeader v m = .timeout) :
    (v = .stream → m.kind.isHeader = false) ∧ (v = .stream2 → m.code ≠ 0) := by
  cases v with
  | stream =>
    refine ⟨fun _ => ?_, fun hv => by cases hv⟩
    simp only [getHeader, StreamApi.StreamAPI.getHeader] at h
    split_ifs at h
    · rcases h with h | h <;> cases h
    · cases hkind : m.kind with
      | header detail =>
        rw [hkind] at h
        rcases h with h | h <;> cases h
      | _ => rfl
  | stream2 =>
    refine ⟨fun hv => (by cases hv), fun _ hcode => ?_⟩
    simp only [getHeader, StreamApi.Stream2API.getHeader, if_neg (not_not.mpr hcode)] at h
    split at h <;> rcases h with h | h <;> cases h

/-- A part that is no header belongs to the series of the part before. -/
theorem series_of_not_header {p : Part} (h : Follows v p m) (hk : m.kind.isHeader = false) :
    m.series = p.series := by
  rw [Follows] at h
  split_ifs at h
  · rw [hk] at h
    cases h.2
  · exact h.1

theorem precedes_of_follows {p : Part} (h : Follows v p m) (hk : p.kind ≠ .seriesEnd) :
    p.kind.precedes v m.kind = true := by
  rw [Follows, if_neg hk] at h
  exact h.2

theorem headerPart_of_follows {p : Part} (h : Follows .stream p m)
    (hleft : 0 < headerLeft p.kind) :
    ∃ n, m.kind = .headerPart n ∧ headerLeft p.kind = n + 1 := by
  have hprecedes := precedes_of_follows h (not_end_of_headerLeft hleft)
  have hnext : ∀ {n : ℕ}, 0 < n → m.kind.nextHeaderPart n = true →
      ∃ k, m.kind = .headerPart k ∧ n = k + 1 := by
    intro n hn hk
    obtain ⟨n, rfl⟩ := Nat.exists_eq_succ_of_ne_zero hn.ne'
    exact ⟨n, of_decide_eq_true hk, rfl⟩
  cases hkind : p.kind with
  | header detail =>
    rw [hkind] at hprecedes hleft
    exact hnext hleft hprecedes
  | headerPart n =>
    rw [hkind] at hprecedes hleft
    exact hnext hleft hprecedes
  | _ =>
    rw [hkind] at hleft
    exact absurd hleft (Nat.lt_irrefl 0)

theorem Reading.header (h : Reading v s) (hl : StreamSeries.Law v s)
    (he : StreamSeries.Enabled v s (.getHeader m)) :
    Reading v (StreamSeries.next v s (.getHeader m)) := by
  obtain ⟨hpc, hq⟩ := he
  obtain ⟨hfollows, -, -⟩ := hl.next_part hq
  have hmem : m ∈ s.queue := List.mem_of_mem_head? hq
  have hplaced := h.placed
  rw [hpc] at hplaced
  have hends : ∀ p ∈ s.queue.tail, Readable v p :=
    fun p hp => h.queue p (List.mem_of_mem_tail hp)
  have hwait : getHeader v m = .wrongHtype ∨ getHeader v m = .timeout →
      Reading v (s.receive m) := by
    intro hresult
    obtain ⟨hstream, hstream2⟩ := header_goes_on hresult
    have hseries : v = .stream → m.series < s.armed := by
      intro hv
      rw [series_of_not_header hfollows (hstream hv)]
      exact hplaced.2 hv
    refine ⟨hends, ?_⟩
    rw [show (s.receive m).stream = .header from hpc]
    refine ⟨?_, hseries⟩
    rintro ⟨hk, harmed⟩
    cases v with
    | stream =>
      have hlt := hseries rfl
      rw [show m.series = s.armed from harmed] at hlt
      exact Nat.lt_irrefl _ hlt
    | stream2 => exact hstream2 rfl (frame_of_success ((h.queue m hmem).1 hk)).1
  simp only [StreamSeries.next]
  cases hresult : getHeader v m with
  | success =>
    obtain ⟨detail, hkind⟩ := header_of_success hresult
    refine ⟨hends, placed_skipLoop (fun hne => ?_) ?_ (not_atEnd ?_)⟩
    · cases v with
      | stream => rfl
      | stream2 => exact absurd rfl hne
    · change skip v m.kind ≤ headerLeft m.kind
      rw [hkind]
      cases v with
      | stream => exact Nat.le_refl _
      | stream2 => exact Nat.zero_le _
    · change m.kind ≠ .seriesEnd
      rw [hkind]
      exact fun hc => by cases hc
  | wrongHtype => exact hwait (.inl hresult)
  | timeout => exact hwait (.inr hresult)
  | error | unknown => exact ⟨hends, trivial⟩

theorem Reading.skip {n : ℕ} {p : Option Part} (h : Reading v s) (hl : StreamSeries.Law v s)
    (he : StreamSeries.Enabled v s (.skip n p)) :
    Reading v (StreamSeries.next v s (.skip n p)) := by
  obtain ⟨hpc, hq⟩ := he
  have hplaced := h.placed
  rw [hpc] at hplaced
  obtain ⟨rfl, hlt⟩ := hplaced
  cases p with
  | none =>
    exact ⟨h.queue, placed_skipLoop (fun _ => rfl) hlt.le (not_atEnd (not_end_of_headerLeft hlt))⟩
  | some m =>
    have hhead : s.queue.head? = some m := hq.resolve_left fun hc => by cases hc
    obtain ⟨hfollows, -, -⟩ := hl.next_part hhead
    obtain ⟨k, hkind, hleft⟩ := headerPart_of_follows hfollows (Nat.zero_lt_of_lt hlt)
    have hreceived :
        (StreamSeries.next .stream s (.skip n (some m))).received.kind = .headerPart k := hkind
    refine ⟨fun p hp => h.queue p (List.mem_of_mem_tail hp),
      placed_skipLoop (fun _ => rfl) ?_ (not_atEnd ?_)⟩
    · rw [hreceived]
      change n ≤ k
      omega
    · rw [hreceived]
      exact fun hc => by cases hc

theorem Reading.frame (h : Reading v s) (he : StreamSeries.Enabled v s (.waitFrame m)) :
    Reading v (StreamSeries.next v s (.waitFrame m)) := by
  obtain ⟨hpc, hq⟩ := he
  have hmem : m ∈ s.queue := List.mem_of_mem_head? hq
  have hends : ∀ p ∈ s.queue.tail, Readable v p :=
    fun p hp => h.queue p (List.mem_of_mem_tail hp)
  simp only [StreamSeries.next]
  cases hresult : waitFrame v m with
  | success =>
    refine ⟨hends, ?_⟩
    change Placed v ((s.receive m).goto (StreamSeries.afterWaitFrame v m))
      (StreamSeries.afterWaitFrame v m)
    rcases (frame_of_success hresult).2 with ⟨n, hkind⟩ | hkind
    · cases v with
      | stream =>
        have hafter : StreamSeries.afterWaitFrame .stream m = .shape := by
          simp only [StreamSeries.afterWaitFrame, hkind]
        rw [hafter]
        exact ⟨rfl, n, hkind⟩
      | stream2 =>
        have hafter : StreamSeries.afterWaitFrame .stream2 m = StreamSeries.thresholdLoop m n := by
          simp only [StreamSeries.afterWaitFrame, hkind]
        rw [hafter]
        refine placed_thresholdLoop n (not_atEnd ?_)
        change m.kind ≠ .seriesEnd
        rw [hkind]
        exact fun hc => by cases hc
    · have hafter : StreamSeries.afterWaitFrame v m = .finish := by
        simp only [StreamSeries.afterWaitFrame, hkind]
      rw [hafter]
      trivial
  | timeout =>
    refine ⟨hends, ?_⟩
    rw [show (s.receive m).stream = .frame from hpc]
    rintro ⟨hk, -⟩
    have hsuccess := (h.queue m hmem).1 hk
    rw [hresult] at hsuccess
    cases hsuccess
  | wrongHtype | error | unknown => exact ⟨hends, trivial⟩

/-- What streamTask takes of an image of the first version. -/
theorem next_of_image {p : Part} (h : Follows .stream p m) :
    ((∃ n, p.kind = .image n) → m.kind = .shape) ∧ (p.kind = .shape → m.kind = .data) ∧
      (p.kind = .data → m.kind = .times) := by
  refine ⟨?_, h.data, fun hk => ?_⟩
  · rintro ⟨n, hk⟩
    have hprecedes := precedes_of_follows h (by rw [hk]; exact fun hc => by cases hc)
    rw [hk] at hprecedes
    exact of_decide_eq_true hprecedes
  · have hprecedes := precedes_of_follows h (by rw [hk]; exact fun hc => by cases hc)
    rw [hk] at hprecedes
    exact of_decide_eq_true hprecedes

theorem reading_step (h : Reading v s) (hl : StreamSeries.Law v s) (he : StreamSeries.Enabled v s e)
    (hc : Succeeds v s e) : Reading v (StreamSeries.next v s e) := by
  have hplaced := h.placed
  have hends : ∀ p ∈ s.queue.tail, Readable v p :=
    fun p hp => h.queue p (List.mem_of_mem_tail hp)
  have hkind : ∀ {k : Kind} {t : StreamSeries.State}, t.received.kind = k → k ≠ .seriesEnd →
      ¬ AtEnd t := fun hk hne => not_atEnd (hk ▸ hne)
  cases e with
  | arm sequenceId =>
    have hlt : s.received.series < sequenceId :=
      Nat.lt_of_le_of_lt (hl.wire.series_le.trans hl.armed) he.2
    exact ⟨h.queue, fun hend => Nat.ne_of_lt hlt hend.2, fun _ => hlt⟩
  | send m =>
    refine ⟨fun p hp => ?_, hplaced⟩
    rcases List.mem_append.mp hp with hp | hp
    · exact h.queue p hp
    · obtain rfl := List.mem_singleton.mp hp
      exact hc.1
  | headerTimeout => exact h
  | headerFailed => exact ⟨h.queue, trivial⟩
  | getHeader m => exact h.header hl he
  | skip n p => exact h.skip hl he
  | waitFrame m => exact h.frame he
  | getShape m ok =>
    obtain ⟨hpc, hq, -⟩ := he
    rw [hpc] at hplaced
    obtain ⟨rfl, himage⟩ := hplaced
    have hshape := (next_of_image (hl.next_part hq).1).1 himage
    obtain rfl : ok = true := hc.2
    exact ⟨hends, rfl, hshape⟩
  | getData shape m =>
    obtain ⟨hpc, hq⟩ := he
    rw [hpc] at hplaced
    obtain ⟨rfl, hshape⟩ := hplaced
    exact ⟨hends, rfl, (next_of_image (hl.next_part hq).1).2.1 hshape⟩
  | getTimes shape data m =>
    obtain ⟨hpc, hq⟩ := he
    rw [hpc] at hplaced
    obtain ⟨rfl, hdata⟩ := hplaced
    have htimes := (next_of_image (hl.next_part hq).1).2.2 hdata
    exact ⟨hends, hkind (t := s.receive m) htimes fun hc => by cases hc⟩
  | getThreshold image n ok =>
    rw [show s.stream = .threshold image n from he] at hplaced
    obtain rfl : ok = true := hc.2
    exact ⟨h.queue, placed_thresholdLoop n hplaced⟩
  | finish => exact ⟨h.queue, trivial⟩

/-- streamTask goes on, or controlTask hears of its end. -/
def Advances (_ : Driver.State × StreamSeries.State) : Event → Prop
  | .stream (.send _) _ => False
  | .stream e _ => Builds e
  | .driver .wakeStream | .driver .checkReceiver | .driver (.callGetHeader _)
  | .driver (.callWaitFrame _) | .driver .streamDoneWait => True
  | _ => False

/-- What the detector, the clients and the other tasks do meanwhile. -/
def Elsewhere (v : Version) (x : Driver.State × StreamSeries.State) (a : Event) : Prop :=
  KeepsStream v x a ∧ (∀ e ∈ (coupling v).right x a, Builds e) ∧ ¬ Advances x a

/-- The clients stay with the stream, what the detector sends can be read, and no getFrame
fails. -/
def EndsSeries (v : Version) (x : Driver.State × StreamSeries.State) (a : Event) : Prop :=
  KeepsStream v x a ∧ ∀ e ∈ (coupling v).right x a, Succeeds v x.2 e

instance (v : Version) (x : Driver.State × StreamSeries.State) (a : Event) :
    Decidable (EndsSeries v x a) := inferInstanceAs (Decidable (_ ∧ _))

/-- controlTask waits for streamTask, and the detector has sent all of the series. -/
structure Finishing (v : Version) (d : Driver.State) (s : StreamSeries.State) : Prop where
  law : Law v d s
  series : StreamSeries.Law v s
  reading : Reading v s
  control : d.control = .waitStream
  sent : s.sent.kind = .seriesEnd ∧ s.sent.series = s.armed

/-- Until it is at the end streamTask has a part to take. -/
theorem Finishing.part (h : Finishing v d s) (ht : takes s.stream = true) :
    ∃ m, s.queue.head? = some m := by
  cases hqueue : s.queue with
  | nil =>
    have hwire := h.series.wire
    rw [hqueue] at hwire
    have hreceived : s.received = s.sent := by
      generalize s.received = p at hwire
      cases hwire
      rfl
    refine absurd ?_ (h.reading.placed.not_atEnd ht)
    rw [AtEnd, hreceived]
    exact h.sent
  | cons m tail => exact ⟨m, rfl⟩

/-- The steps that streamTask has before it returns from a call. -/
def calls : Driver.StreamPc → ℕ
  | .waiting => 3
  | .woken => 2
  | .getHeader _ | .waitFrame _ => 1
  | _ => 0

/-- The steps that streamTask has before it takes a part from the socket. -/
def rank (d : Driver.State) : StreamSeries.StreamPc → ℕ
  | .waiting => 0
  | .finish => 1
  | .header | .frame => 2 + calls d.stream
  | .skip n | .threshold _ n => n + 4
  | .shape | .data _ | .times _ _ => 4
  | .undefined => 0

/-- First the socket is emptied. -/
def work (x : Driver.State × StreamSeries.State) : ℕ × ℕ := (x.2.queue.length, rank x.1 x.2.stream)

/-- The loops over header parts and thresholds end with the next frame. -/
theorem rank_loop {t : Driver.State} (loop : ℕ → StreamSeries.StreamPc) {n : ℕ}
    (hzero : loop 0 = .frame) (hsucc : ∀ k, rank t (loop (k + 1)) = k + 4)
    (ht : n = 0 → calls t.stream = 1) : rank t (loop n) < n + 4 := by
  cases n with
  | zero =>
    rw [hzero, rank, ht rfl]
    exact Nat.lt_succ_self 3
  | succ n =>
    rw [hsucc]
    exact Nat.lt_succ_self (n + 4)

theorem length_tail_lt (hq : s.queue.head? = some m) : s.queue.tail.length < s.queue.length := by
  cases hqueue : s.queue with
  | nil =>
    rw [hqueue] at hq
    cases hq
  | cons p tail => exact Nat.lt_succ_self tail.length

theorem Finishing.defined (h : Finishing v d s) : s.stream ≠ .undefined := by
  intro hpc
  have hplaced := h.reading.placed
  rw [hpc] at hplaced
  exact hplaced

/-- A step of streamTask with the socket brings the end nearer. -/
theorem Finishing.less {o : Option ℕ} (h : Finishing v d s) (hs : StreamSeries.Enabled v s e)
    (hbuilds : Builds e) (hsend : ∀ m, e ≠ .send m) (harm : ∀ n, e ≠ .arm n) :
    Prod.Lex (· < ·) (· < ·)
      (work ((driverStep v (.stream e o)).elim d (Driver.next d), StreamSeries.next v s e))
      (work (d, s)) := by
  have htake : ∀ {p : Part} {t : Driver.State} {u : StreamSeries.State}, u.queue = s.queue.tail →
      s.queue.head? = some p → Prod.Lex (· < ·) (· < ·) (work (t, u)) (work (d, s)) := by
    intro p t u hqueue hq
    refine .left _ _ ?_
    change u.queue.length < s.queue.length
    rw [hqueue]
    exact length_tail_lt hq
  have hstay : ∀ {t : Driver.State} {u : StreamSeries.State}, u.queue = s.queue →
      rank t u.stream < rank d s.stream →
        Prod.Lex (· < ·) (· < ·) (work (t, u)) (work (d, s)) := by
    intro t u hqueue hlt
    rw [work, work, hqueue]
    exact .right _ hlt
  cases e with
  | arm n => exact absurd rfl (harm n)
  | send m => exact absurd rfl (hsend m)
  | headerTimeout =>
    obtain ⟨hpc, hnil⟩ := hs
    obtain ⟨m, hq⟩ := h.part (by rw [hpc]; rfl)
    rw [hnil] at hq
    cases hq
  | headerFailed =>
    refine hstay rfl ?_
    rw [show s.stream = .header from hs]
    exact Nat.lt_add_right _ (Nat.lt_succ_self 1)
  | getHeader m =>
    refine htake ?_ hs.2
    simp only [StreamSeries.next]
    cases getHeader v m <;> rfl
  | skip n p =>
    cases p with
    | none =>
      refine hstay rfl ?_
      rw [hs.1]
      refine rank_loop StreamSeries.skipLoop rfl (fun _ => rfl) ?_
      rintro rfl
      rfl
    | some m => exact htake rfl (hs.2.resolve_left fun hc => by cases hc)
  | waitFrame m =>
    refine htake ?_ hs.2
    simp only [StreamSeries.next]
    cases waitFrame v m <;> rfl
  | getShape m ok =>
    obtain rfl : ok = true := hbuilds
    exact htake rfl hs.2.1
  | getData shape m => exact htake rfl hs.2
  | getTimes shape data m => exact htake rfl hs.2
  | getThreshold image n ok =>
    obtain rfl : ok = true := hbuilds
    refine hstay rfl ?_
    rw [show s.stream = .threshold image n from hs]
    refine rank_loop (StreamSeries.thresholdLoop image) rfl (fun _ => rfl) ?_
    rintro rfl
    rfl
  | finish =>
    refine hstay rfl ?_
    rw [show s.stream = .finish from hs]
    exact Nat.zero_lt_one

/-- streamTask takes part `m` at its point of the series. -/
theorem enabled_stream {o : Option ℕ} (hs : StreamSeries.Enabled v s e)
    (hallowed : Allowed v d (.stream e o))
    (hd : ∀ e' ∈ driverStep v (.stream e o), Driver.Enabled d e') (hsend : ∀ m, e ≠ .send m)
    (hbuilds : Builds e) : ∃ a, (system v).Enabled (d, s) a ∧ Advances (d, s) a := by
  refine ⟨.stream e o, ⟨hallowed, hd, ?_⟩, ?_⟩
  · intro e' he'
    cases he'
    exact hs
  · cases e with
    | send m => exact absurd rfl (hsend m)
    | _ => exact hbuilds

theorem enabled_driver {e : Driver.Event}
    (he : Driver.Enabled d e) (hallowed : Allowed v d (.driver e))
    (ha : Advances (d, s) (.driver e)) :
    ∃ a, (system v).Enabled (d, s) a ∧ Advances (d, s) a := by
  refine ⟨.driver e, ⟨hallowed, ?_, fun e' he' => by cases he'⟩, ha⟩
  intro e' he'
  cases he'
  exact he

theorem Finishing.progress (h : Finishing v d s) :
    ∃ a, (system v).Enabled (d, s) a ∧ Advances (d, s) a := by
  have htogether := h.law.together
  have hunlocked : d.control.locked = false := by rw [h.control]; rfl
  cases hpc : s.stream with
  | waiting =>
    have hdone := (h.law.ending h.control).mpr hpc
    exact enabled_driver (e := .streamDoneWait) ⟨h.control, hdone⟩ trivial trivial
  | header =>
    rw [hpc] at htogether
    rcases htogether with ⟨hstream, hevent⟩ | hstream | hstream | ⟨o, hstream⟩
    · exact enabled_driver (e := .wakeStream) ⟨hstream, hevent⟩ trivial trivial
    · exact enabled_driver (e := .checkReceiver) ⟨hstream, hunlocked⟩ trivial trivial
    · exact enabled_driver (e := .callGetHeader (number v)) hstream trivial trivial
    · obtain ⟨m, hq⟩ := h.part (by rw [hpc]; rfl)
      refine enabled_stream (e := .getHeader m) (o := o) ⟨hpc, hq⟩ hstream (fun e' he' => ?_)
        (fun _ hc => by cases hc) trivial
      simp only [driverStep, Option.mem_def] at he'
      split_ifs at he'
      obtain rfl := Option.some.inj he'
      exact ⟨hstream, hunlocked⟩
  | skip n =>
    rw [hpc] at htogether
    obtain ⟨o, hstream⟩ := htogether
    obtain ⟨m, hq⟩ := h.part (by rw [hpc]; rfl)
    refine enabled_stream (e := .skip n (some m)) (o := o) ⟨hpc, .inr hq⟩ hstream
      (fun e' he' => ?_) (fun _ hc => by cases hc) trivial
    cases n with
    | zero =>
      cases he'
      exact ⟨hstream, hunlocked⟩
    | succ n => cases he'
  | frame =>
    rw [hpc] at htogether
    rcases htogether with hstream | ⟨o, hstream⟩
    · exact enabled_driver (e := .callWaitFrame (number v)) hstream trivial trivial
    · obtain ⟨m, hq⟩ := h.part (by rw [hpc]; rfl)
      refine enabled_stream (e := .waitFrame m) (o := o) ⟨hpc, hq⟩ trivial (fun e' he' => ?_)
        (fun _ hc => by cases hc) trivial
      cases he'
      exact ⟨hstream, hunlocked⟩
  | shape =>
    rw [hpc] at htogether
    obtain ⟨m, hq⟩ := h.part (by rw [hpc]; rfl)
    have hplaced := h.reading.placed
    rw [hpc] at hplaced
    obtain ⟨rfl, himage⟩ := hplaced
    have hkind := (next_of_image (h.series.next_part hq).1).1 himage
    have hcode := (h.reading.queue m (List.mem_of_mem_head? hq)).2 hkind
    exact enabled_stream (e := .getShape m true) (o := none) ⟨hpc, hq, fun _ => ⟨hcode, hkind⟩⟩
      trivial (fun e' he' => by cases he') (fun _ hc => by cases hc) rfl
  | data p =>
    obtain ⟨m, hq⟩ := h.part (by rw [hpc]; rfl)
    exact enabled_stream (e := .getData p m) (o := none) ⟨hpc, hq⟩ trivial
      (fun e' he' => by cases he') (fun _ hc => by cases hc) trivial
  | times p q =>
    rw [hpc] at htogether
    obtain ⟨m, hq⟩ := h.part (by rw [hpc]; rfl)
    refine enabled_stream (e := .getTimes p q m) (o := none) ⟨hpc, hq⟩ trivial
      (fun e' he' => ?_) (fun _ hc => by cases hc) trivial
    cases he'
    exact htogether
  | threshold p n =>
    rw [hpc] at htogether
    refine enabled_stream (e := .getThreshold p n true) (o := none) hpc trivial
      (fun e' he' => ?_) (fun _ hc => by cases hc) rfl
    cases he'
    exact htogether
  | finish =>
    rw [hpc] at htogether
    refine enabled_stream (e := .finish) (o := none) hpc trivial (fun e' he' => ?_)
      (fun _ hc => by cases hc) trivial
    cases he'
    exact htogether
  | undefined => exact absurd hpc h.defined

/-- The series does not change while controlTask waits, but for what streamTask takes of it. -/
theorem sent_next (hs : StreamSeries.Enabled v s e) (hsend : ∀ m, e ≠ .send m)
    (harm : ∀ n, e ≠ .arm n) : (StreamSeries.next v s e).sent = s.sent ∧
      (StreamSeries.next v s e).armed = s.armed := by
  cases e with
  | arm n => exact absurd rfl (harm n)
  | send m => exact absurd rfl (hsend m)
  | getHeader m => simp only [StreamSeries.next]; cases getHeader v m <;> exact ⟨rfl, rfl⟩
  | skip n p => cases p <;> exact ⟨rfl, rfl⟩
  | waitFrame m => simp only [StreamSeries.next]; cases waitFrame v m <;> exact ⟨rfl, rfl⟩
  | getShape m ok | getThreshold image n ok => cases ok <;> exact ⟨rfl, rfl⟩
  | _ => exact ⟨rfl, rfl⟩

/-- Nothing is sent behind the end of the series. -/
theorem Finishing.not_send (h : Finishing v d s) (hs : StreamSeries.Enabled v s e) :
    ∀ m, e ≠ .send m := by
  rintro m rfl
  obtain ⟨hfollows, hle⟩ := hs
  rw [Follows, if_pos h.sent.1] at hfollows
  have hlt := hfollows.1
  rw [h.sent.2] at hlt
  exact Nat.not_lt_of_le hle hlt

theorem calls_control {o : Option ℕ} {e' : Driver.Event}
    (h : driverStep v (.stream e o) = some e') : e'.control = none := by
  cases e with
  | getHeader m =>
    simp only [driverStep] at h
    split_ifs at h
    obtain rfl := Option.some.inj h
    rfl
  | skip n m => cases n <;> cases h; rfl
  | getShape m ok => cases ok <;> cases h; rfl
  | _ => cases h <;> rfl

theorem Finishing.stream {o : Option ℕ} (h : Finishing v d s)
    (he : (system v).Enabled (d, s) (.stream e o)) (hbuilds : Builds e) :
    Finishing v ((driverStep v (.stream e o)).elim d (Driver.next d))
      (StreamSeries.next v s e) := by
  obtain ⟨hallowed, hleft, hright⟩ := he
  have hs : StreamSeries.Enabled v s e := hright e rfl
  have hsend := h.not_send hs
  have harm : ∀ n, e ≠ .arm n := by
    rintro n rfl
    exact hallowed
  obtain ⟨hsent, harmed⟩ := sent_next hs hsend harm
  have hends : Succeeds v s e := by
    cases e with
    | send m => exact absurd rfl (hsend m)
    | _ => exact ⟨trivial, hbuilds⟩
  refine ⟨h.law.stream hs hallowed hleft, StreamSeries.law_step h.series hs,
    reading_step h.reading h.series hs hends, ?_, ?_⟩
  · cases hstep : driverStep v (.stream e o) with
    | none => exact h.control
    | some e' => exact (Driver.control_stays (calls_control hstep)).trans h.control
  · rw [hsent, harmed]
    exact h.sent

theorem Finishing.driver {e : Driver.Event} (h : Finishing v d s)
    (he : (system v).Enabled (d, s) (.driver e)) (hkeeps : KeepsStream v (d, s) (.driver e))
    (hne : e ≠ .streamDoneWait) : Finishing v (Driver.next d e) s := by
  obtain ⟨hallowed, hleft, -⟩ := he
  have hd : Driver.Enabled d e := hleft e rfl
  refine ⟨h.law.driver hd (own_of_allowed h.law.source hallowed) hkeeps, h.series, h.reading, ?_,
    h.sent⟩
  cases hcontrol : e.control with
  | none => exact (Driver.control_stays hcontrol).trans h.control
  | some c =>
    obtain rfl : c = .waitStream := (Driver.control_of_enabled hd hcontrol).symm.trans h.control
    cases e <;> first | exact absurd rfl hne | cases hcontrol

/-- streamTask goes into a call, for a header or for a frame. -/
theorem rank_driver {e : Driver.Event} (h : Finishing v d s) (he : Driver.Enabled d e)
    (ha : Advances (d, s) (.driver e)) (hne : e ≠ .streamDoneWait) :
    rank (Driver.next d e) s.stream < rank d s.stream := by
  have hl := h.law
  have htogether := hl.together
  have hcall : ∀ {t : Driver.State}, calls t.stream < calls d.stream →
      s.stream = .header ∨ s.stream = .frame → rank t s.stream < rank d s.stream := by
    intro t hlt hpc
    rcases hpc with hpc | hpc <;> rw [hpc] <;> exact Nat.add_lt_add_left hlt 2
  cases e with
  | wakeStream =>
    obtain ⟨hstream, hevent⟩ := he
    refine hcall ?_ ?_
    · rw [hstream]
      exact Nat.lt_succ_self 2
    · cases hpc : s.stream <;> simp [hpc, Together, hstream, hevent] at htogether ⊢
  | checkReceiver =>
    have hstream : d.stream = .woken := he.1
    refine hcall ?_ ?_
    · simp only [Driver.next, if_neg (hl.source.finds hl.handshake hstream).1, hstream]
      exact Nat.lt_succ_self 1
    · cases hpc : s.stream <;> simp [hpc, Together, hstream] at htogether ⊢
  | callGetHeader n =>
    have hstream : d.stream = .getHeader n := he
    refine hcall ?_ ?_
    · rw [hstream]
      exact Nat.zero_lt_one
    · cases hpc : s.stream <;> simp [hpc, Together, hstream] at htogether ⊢
  | callWaitFrame n =>
    have hstream : d.stream = .waitFrame n := he
    refine hcall ?_ ?_
    · rw [hstream]
      exact Nat.zero_lt_one
    · cases hpc : s.stream with
      | undefined => exact absurd hpc h.defined
      | _ => simp [hpc, Together, hstream] at htogether ⊢
  | streamDoneWait => exact absurd rfl hne
  | _ => exact absurd ha id

theorem Advances.keeps (ha : Advances x a) : KeepsStream v x a := by
  cases a with
  | arm sequenceId => exact absurd ha id
  | driver e => cases e <;> first | exact trivial | exact absurd ha id
  | stream e o => exact trivial

theorem Advances.builds {o : Option ℕ} (ha : Advances x (.stream e o)) : Builds e := by
  cases e with
  | send m => trivial
  | _ => exact ha

theorem Finishing.step (h : Finishing v d s) (he : (system v).Enabled (d, s) a)
    (ha : Advances (d, s) a) :
    ((system v).next (d, s) a).1.control ≠ .waitStream ∨
      Finishing v ((system v).next (d, s) a).1 ((system v).next (d, s) a).2 ∧
        Prod.Lex (· < ·) (· < ·) (work ((system v).next (d, s) a)) (work (d, s)) := by
  cases a with
  | arm sequenceId => exact absurd ha id
  | driver e =>
    rw [next_eq rfl rfl]
    by_cases hne : e = .streamDoneWait
    · subst hne
      exact .inl fun hc => by cases hc
    · refine .inr ⟨h.driver he ha.keeps hne, .right _ ?_⟩
      exact rank_driver h (he.2.1 e rfl) ha hne
  | stream e o =>
    rw [next_eq rfl rfl]
    have hs : StreamSeries.Enabled v s e := he.2.2 e rfl
    refine .inr ⟨h.stream he ha.builds, h.less hs ha.builds (h.not_send hs) ?_⟩
    rintro n rfl
    exact he.1

theorem Finishing.between (h : Finishing v d s) (he : (system v).Enabled (d, s) a)
    (hn : Elsewhere v (d, s) a) :
    Finishing v ((system v).next (d, s) a).1 ((system v).next (d, s) a).2 ∧
      work ((system v).next (d, s) a) = work (d, s) := by
  obtain ⟨hkeeps, hbuilds, hna⟩ := hn
  cases a with
  | arm sequenceId =>
    have hd : Driver.Enabled d (.arm true) := he.2.1 _ rfl
    have hc := hd.1.symm.trans h.control
    cases hc
  | driver e =>
    rw [next_eq rfl rfl]
    have hne : e ≠ .streamDoneWait := by
      rintro rfl
      exact hna trivial
    refine ⟨h.driver he hkeeps hne, ?_⟩
    have hstream : (Driver.next d e).stream = d.stream := by
      have hown := own_of_allowed h.law.source he.1
      rcases hown with hapart | rfl | rfl | ⟨n, rfl⟩ | ⟨n, rfl⟩ | ⟨ok, rfl⟩
      · exact (apart_next hapart).1
      · exact absurd trivial hna
      · exact absurd trivial hna
      · exact absurd trivial hna
      · exact absurd trivial hna
      · exact (start_next d ok).1
    have hrank : ∀ pc, rank (Driver.next d e) pc = rank d pc := by
      intro pc
      cases pc <;> simp only [rank, hstream]
    exact Prod.ext rfl (hrank s.stream)
  | stream e o =>
    have hs : StreamSeries.Enabled v s e := he.2.2 e rfl
    cases e with
    | send m => exact absurd rfl (h.not_send hs m)
    | _ => exact absurd (hbuilds _ rfl) hna

theorem reaches_reading (h : Reaches (system v) (EndsSeries v) x) :
    StreamSeries.Law v x.2 ∧ Reading v x.2 := by
  have hright : Reaches (StreamSeries.system v) (Succeeds v) x.2 :=
    h.right fun y a e hc he => hc.2 e he
  refine ⟨StreamSeries.reaches_law hright, ?_⟩
  refine hright.invariant_of (J := StreamSeries.Law v) (I := Reading v)
    (fun s hs => StreamSeries.reaches_law hs) ?_ fun s e hl hr he hc => reading_step hr hl he hc
  rintro s rfl
  exact ⟨fun m hm => (by cases hm), trivial⟩

/-- When the detector has sent the end of the series, controlTask comes to the end of its wait for
streamTask, whatever the clients do meanwhile, as long as no getFrame fails. -/
theorem stream_wait_ends (h : Reaches (system v) (EndsSeries v) x)
    (hwait : x.1.control = .waitStream)
    (hsent : x.2.sent.kind = .seriesEnd ∧ x.2.sent.series = x.2.armed) :
    InevitableAmid (system v) (Elsewhere v) Advances (fun x => x.1.control ≠ .waitStream) x := by
  have hlaw := reaches_law (fun _ _ hc => hc.1) h
  obtain ⟨hseries, hreading⟩ := reaches_reading h
  have hless : WellFounded (Prod.Lex (· < ·) (· < · : ℕ → ℕ → Prop)) :=
    WellFounded.prod_lex Nat.lt_wfRel.wf Nat.lt_wfRel.wf
  refine InevitableAmid.of_variant (I := fun x => Finishing v x.1 x.2) hless work ?_ ?_ ?_
    ⟨hlaw, hseries, hreading, hwait, hsent⟩
  · intro x a hx _ he hn
    obtain ⟨hx', hwork⟩ := hx.between he hn
    exact ⟨hx', not_not.mpr hx'.control, hwork⟩
  · exact fun x hx _ => hx.progress
  · exact fun x a hx _ he ha => hx.step he ha

/-- The detector has sent a series of one image and is idle again, and streamTask has not begun. -/
def traceWaiting : List Event :=
  [.driver (.writeDataSource .stream true),
   .driver (.writeSettings ⟨false, true, false, false, false, .exts, 1⟩), .driver (.writeAcquire 1),
   .driver .wake, .driver (.start true), .arm 1] ++
  (StreamSeries.sendSeries 1).map (.stream · none) ++
  [.driver (.fetchState (some "idle")), .driver .disarm]

theorem stream_wait_ends_waiting : InevitableAmid (system .stream) (Elsewhere .stream) Advances
    (fun x => x.1.control ≠ .waitStream) (runTrace (system .stream) initial traceWaiting) :=
  stream_wait_ends (ValidTrace.reaches (by decide +kernel) (.start (start_initial .stream)))
    (by decide +kernel) (by decide +kernel)

end DriverStreams
