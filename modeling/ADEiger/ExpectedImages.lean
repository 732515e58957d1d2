import ADEiger.TransitionSystem
import Mathlib.Data.Finset.Prod
import Mathlib.Tactic.Linarith

/-! The end of controlTask's wait loop by the image counter.
controlTask compares ADNumImagesCounter with the number of images it expects. streamTask and
parseTask count the arrays they publish, one for each threshold of each image. The detector
stays busy and nobody stops it, so the counter alone decides. -/
namespace ExpectedImages

open TransitionSystem

inductive Source where
  | stream | fileWriter
  deriving DecidableEq, Repr

/-- One acquisition: what controlTask latched, and the thresholds of every image. -/
structure Acquisition where
  numImages : ℤ
  numTriggers : ℤ
  thresholds : ℕ
  source : Source
  deriving DecidableEq, Repr

/-- `int expectedImages = numImages * numTriggers;` -/
def Acquisition.expectedImages (a : Acquisition) : ℤ :=
  Int.bmod (a.numImages * a.numTriggers) (2 ^ 32)

/-- The images that the detector takes. -/
def Acquisition.images (a : Acquisition) : ℕ := (a.numImages * a.numTriggers).toNat

inductive ControlPc where
  | triggering | fetchState | waitStop | disarm
  deriving DecidableEq, Repr

/-- streamTask in its threshold loop, or parseTask in the image and threshold loops of one
file; `remaining` images of the file follow the current one. -/
inductive ProducerPc where
  | idle
  | nextImage (remaining : ℕ)
  | publish (remaining j : ℕ)
  | count (remaining j : ℕ)
  deriving DecidableEq, Repr

/-- `parsed` is parseH5File's local `numImagesCounter`, `image` the number of images that the
producer is done with, and `published` a history. -/
structure State where
  numImagesCounter : ℤ
  control : ControlPc
  producer : ProducerPc
  parsed : ℤ
  image : ℕ
  published : List (ℕ × ℕ)
  deriving DecidableEq, Repr

def initial : State := ⟨0, .triggering, .idle, 0, 0, []⟩

/-- A file that cannot be read is skipped, and so is the rest of an image in which a
threshold cannot be read. -/
inductive Event where
  | enterLoop
  | fetchState
  | waitStop
  | frame
  | openFile (n : ℕ)
  | skipFile (n : ℕ)
  | nextImage (remaining : ℕ)
  | publish (remaining j : ℕ)
  | readError (remaining j : ℕ)
  | count (remaining j : ℕ)
  deriving DecidableEq, Repr

/-- streamTask holds the driver lock throughout its threshold loop, parseTask does not. -/
def Locked (a : Acquisition) (s : State) : Prop := a.source = .stream ∧ s.producer ≠ .idle

instance (a : Acquisition) (s : State) : Decidable (Locked a s) :=
  inferInstanceAs (Decidable (_ ∧ _))

def Enabled (a : Acquisition) (s : State) : Event → Prop
  | .enterLoop => s.control = .triggering
  | .fetchState => s.control = .fetchState ∧ ¬ Locked a s
  | .waitStop => s.control = .waitStop
  | .frame => a.source = .stream ∧ s.producer = .idle ∧ s.image < a.images
  | .openFile n | .skipFile n =>
    a.source = .fileWriter ∧ s.producer = .idle ∧ s.image + n ≤ a.images
  | .nextImage r => s.producer = .nextImage (r + 1)
  | .publish r j => s.producer = .publish r j
  | .readError r j => a.source = .fileWriter ∧ s.producer = .publish r j
  | .count r j => s.producer = .count r j

instance (a : Acquisition) (s : State) : (e : Event) → Decidable (Enabled a s e) := by
  rintro ⟨⟩ <;> simp only [Enabled] <;> infer_instance

/-- The head of the image loop. -/
def afterImage (remaining : ℕ) : ProducerPc :=
  if remaining = 0 then .idle else .nextImage remaining

def next (a : Acquisition) (s : State) : Event → State
  | .enterLoop => { s with control := .fetchState }
  | .fetchState =>
    { s with control := if a.expectedImages ≤ s.numImagesCounter then .disarm else .waitStop }
  | .waitStop => { s with control := .fetchState }
  | .frame => { s with producer := .publish 0 0 }
  | .openFile n => { s with parsed := s.numImagesCounter, producer := afterImage n }
  | .skipFile n => { s with image := s.image + n }
  | .nextImage r => { s with producer := .publish r 0 }
  | .publish r j => { s with published := s.published ++ [(s.image, j)], producer := .count r j }
  | .readError r _ => { s with image := s.image + 1, producer := afterImage r }
  | .count r j =>
    let n := (if a.source = .stream then s.numImagesCounter else s.parsed) + 1
    if j + 1 < a.thresholds then
      { s with numImagesCounter := n, parsed := n, producer := .publish r (j + 1) }
    else
      { s with numImagesCounter := n, parsed := n, image := s.image + 1
               producer := afterImage r }

def system (a : Acquisition) : System State Event where
  Start s := s = initial
  Enabled := Enabled a
  next := next a

instance (a : Acquisition) (s : State) (e : Event) : Decidable ((system a).Enabled s e) :=
  inferInstanceAs (Decidable (Enabled a s e))

/-- Every image is published with all of its thresholds. -/
def AllPublished (a : Acquisition) (s : State) : Prop :=
  ∀ i < a.images, ∀ j < a.thresholds, (i, j) ∈ s.published

instance (a : Acquisition) (s : State) : Decidable (AllPublished a s) :=
  inferInstanceAs (Decidable (∀ i < _, _))

/-- controlTask does not disarm the detector before that. -/
def NeverDisarmsEarly (a : Acquisition) : Prop :=
  ∀ s, Reachable (system a) s → s.control = .disarm → AllPublished a s

variable {a : Acquisition} {s : State} {e : Event}

/-- Images that the producer has still taken on. -/
def ProducerPc.remaining : ProducerPc → ℕ
  | .idle => 0
  | .nextImage r => r
  | .publish r _ | .count r _ => r + 1

/-- Thresholds of the current image that are published already. -/
def ProducerPc.current : ProducerPc → ℕ
  | .publish _ j => j
  | .count _ j => j + 1
  | _ => 0

/-- An array is published that the counter does not show yet. -/
def ProducerPc.uncounted : ProducerPc → ℤ
  | .count _ _ => 1
  | _ => 0

section Producer

variable (r j : ℕ)

@[simp] theorem remaining_idle : ProducerPc.idle.remaining = 0 := rfl
@[simp] theorem remaining_nextImage : (ProducerPc.nextImage r).remaining = r := rfl
@[simp] theorem remaining_publish : (ProducerPc.publish r j).remaining = r + 1 := rfl
@[simp] theorem remaining_count : (ProducerPc.count r j).remaining = r + 1 := rfl
@[simp] theorem current_idle : ProducerPc.idle.current = 0 := rfl
@[simp] theorem current_nextImage : (ProducerPc.nextImage r).current = 0 := rfl
@[simp] theorem current_publish : (ProducerPc.publish r j).current = j := rfl
@[simp] theorem current_count : (ProducerPc.count r j).current = j + 1 := rfl
@[simp] theorem uncounted_idle : ProducerPc.idle.uncounted = 0 := rfl
@[simp] theorem uncounted_nextImage : (ProducerPc.nextImage r).uncounted = 0 := rfl
@[simp] theorem uncounted_publish : (ProducerPc.publish r j).uncounted = 0 := rfl
@[simp] theorem uncounted_count : (ProducerPc.count r j).uncounted = 1 := rfl

theorem afterImage_cases :
    (r = 0 ∧ afterImage r = .idle) ∨ (r ≠ 0 ∧ afterImage r = .nextImage r) := by
  unfold afterImage
  split_ifs with h
  · exact Or.inl ⟨h, rfl⟩
  · exact Or.inr ⟨h, rfl⟩

@[simp] theorem remaining_afterImage : (afterImage r).remaining = r := by
  rcases afterImage_cases r with ⟨h, hr⟩ | ⟨-, hr⟩
  · rw [hr, h]
    rfl
  · rw [hr]
    rfl

@[simp] theorem current_afterImage : (afterImage r).current = 0 := by
  rcases afterImage_cases r with ⟨-, hr⟩ | ⟨-, hr⟩ <;> simp [hr]

@[simp] theorem uncounted_afterImage : (afterImage r).uncounted = 0 := by
  rcases afterImage_cases r with ⟨-, hr⟩ | ⟨-, hr⟩ <;> simp [hr]

theorem afterImage_ne (q j : ℕ) :
    ¬ (afterImage r = .publish q j ∨ afterImage r = .count q j) := by
  rcases afterImage_cases r with ⟨-, hr⟩ | ⟨-, hr⟩ <;> simp [hr]

end Producer

structure Invariant (a : Acquisition) (s : State) : Prop where
  counted : s.numImagesCounter + s.producer.uncounted = s.published.length
  parsed : a.source = .fileWriter → s.producer ≠ .idle → s.parsed = s.numImagesCounter
  bounded : s.image + s.producer.remaining ≤ a.images
  threshold : ∀ r j, s.producer = .publish r j ∨ s.producer = .count r j → j < a.thresholds
  published : ∀ p ∈ s.published, p.2 < a.thresholds ∧
    (p.1 < s.image ∨ (p.1 = s.image ∧ p.2 < s.producer.current))
  nodup : s.published.Nodup
  whole : a.source = .stream →
    s.published.length = a.thresholds * s.image + s.producer.current

theorem invariant_initial (a : Acquisition) : Invariant a initial := by
  constructor <;> simp [initial]

theorem Invariant.control (h : Invariant a s) (c : ControlPc) :
    Invariant a { s with control := c } := { h with }

theorem Invariant.advance (h : Invariant a s) {t : State} (hp : t.published = s.published)
    (hc : t.numImagesCounter + t.producer.uncounted = s.numImagesCounter + s.producer.uncounted)
    (hparsed : a.source = .fileWriter → t.producer ≠ .idle → t.parsed = t.numImagesCounter)
    (hb : t.image + t.producer.remaining ≤ a.images)
    (ht : ∀ r j, t.producer = .publish r j ∨ t.producer = .count r j → j < a.thresholds)
    (hi : s.image < t.image ∨ (t.image = s.image ∧ s.producer.current ≤ t.producer.current))
    (hw : a.source = .stream →
      t.published.length = a.thresholds * t.image + t.producer.current) : Invariant a t where
  counted := by rw [hc, hp, h.counted]
  parsed := hparsed
  bounded := hb
  threshold := ht
  published p hm := by
    obtain ⟨hlt, hq⟩ := h.published p (hp ▸ hm)
    exact ⟨hlt, by omega⟩
  nodup := hp ▸ h.nodup
  whole := hw

theorem invariant_step (hT : 1 ≤ a.thresholds) (h : Invariant a s) (he : Enabled a s e) :
    Invariant a (next a s e) := by
  cases e with
  | enterLoop | fetchState | waitStop => exact h.control _
  | frame =>
    obtain ⟨hs, hp, hi⟩ := he
    have hw := h.whole hs
    have hc := h.counted
    rw [hp] at hw hc
    refine h.advance rfl (by simp [next, hp]) (by simp [hs])
      (show s.image + 1 ≤ a.images from hi) ?_ (Or.inr ⟨rfl, by simp [hp]⟩)
      (fun _ => hw)
    rintro r j (hq | hq)
    · rw [← (ProducerPc.publish.inj hq).2]
      exact hT
    · simp [next] at hq
  | openFile n =>
    obtain ⟨hs, hp, hi⟩ := he
    exact h.advance rfl (by simp [next, hp]) (fun _ _ => rfl)
      (by simpa [next] using hi) (fun r j hq => absurd hq (afterImage_ne n r j))
      (Or.inr ⟨rfl, by simp [hp]⟩) (by simp [hs])
  | skipFile n =>
    obtain ⟨hs, hp, hi⟩ := he
    refine h.advance rfl rfl (by simp [next, hp]) (by simpa [next, hp] using hi)
      (by simp [next, hp]) ?_ (by simp [hs])
    simp only [next, hp]
    omega
  | nextImage r =>
    have hp : s.producer = .nextImage (r + 1) := he
    have hb := h.bounded
    rw [hp] at hb
    refine h.advance rfl (by simp [next, hp]) (fun hs _ => h.parsed hs (by simp [hp])) hb ?_
      (Or.inr ⟨rfl, by simp [hp]⟩) ?_
    · rintro q j (hq | hq)
      · rw [← (ProducerPc.publish.inj hq).2]
        exact hT
      · simp [next] at hq
    · intro hs
      simpa [next, hp] using h.whole hs
  | publish r j =>
    have hp : s.producer = .publish r j := he
    have hj := h.threshold r j (Or.inl hp)
    have hnew : (s.image, j) ∉ s.published := by
      intro hm
      have := (h.published _ hm).2
      simp [hp] at this
    exact {
      counted := by
        have := h.counted
        simp only [hp, uncounted_publish] at this
        simp only [next, uncounted_count, List.length_append, List.length_singleton]
        push_cast
        omega
      parsed := fun hs _ => h.parsed hs (by simp [hp])
      bounded := by simpa [next, hp] using h.bounded
      threshold := by
        rintro q k (hq | hq)
        · simp [next] at hq
        · rw [← (ProducerPc.count.inj hq).2]
          exact hj
      published := by
        intro p hm
        rcases List.mem_append.mp hm with hm | hm
        · have := h.published p hm
          simp only [hp, current_publish] at this
          simp only [next, current_count]
          omega
        · rw [List.mem_singleton.mp hm]
          exact ⟨hj, Or.inr ⟨rfl, Nat.lt_succ_self j⟩⟩
      nodup := by
        simp only [next, List.nodup_append, List.nodup_singleton, true_and]
        refine ⟨h.nodup, fun p hm q hq => ?_⟩
        rw [List.mem_singleton.mp hq]
        rintro rfl
        exact hnew hm
      whole := by
        intro hs
        have := h.whole hs
        simp only [hp, current_publish] at this
        simp [next, this, Nat.add_assoc] }
  | readError r j =>
    obtain ⟨hs, hp⟩ := he
    refine h.advance rfl (by simp [next, hp]) (fun hs _ => h.parsed hs (by simp [hp])) ?_
      (fun q k hq => absurd hq (afterImage_ne r q k)) (Or.inl (Nat.lt_succ_self _)) (by simp [hs])
    have := h.bounded
    simp only [hp, remaining_publish] at this
    simp only [next, remaining_afterImage]
    omega
  | count r j =>
    have hp : s.producer = .count r j := he
    have hj := h.threshold r j (Or.inr hp)
    have hb := h.bounded
    have hc := h.counted
    simp only [hp, remaining_count, uncounted_count] at hb hc
    -- whichever copy of the counter is taken, it shows what was published before
    have hn : (if a.source = .stream then s.numImagesCounter else s.parsed) =
        s.numImagesCounter := by
      split_ifs with hs
      · rfl
      · have hs : a.source = .fileWriter := by
          cases h' : a.source <;> simp_all
        exact h.parsed hs (by simp [hp])
    simp only [next, hn]
    split_ifs with hlast
    · refine h.advance rfl (by simp [hp]) (fun _ _ => rfl) (by simpa using hb) ?_
        (Or.inr ⟨rfl, by simp [hp]⟩) fun hs => by simpa [hp] using h.whole hs
      rintro q k (hq | hq)
      · rw [← (ProducerPc.publish.inj hq).2]
        exact hlast
      · simp at hq
    · refine h.advance rfl (by simp [hp]) (fun _ _ => rfl) (by simp; omega)
        (fun q k hq => absurd hq (afterImage_ne r q k)) (Or.inl (Nat.lt_succ_self _)) fun hs => ?_
      have hw := h.whole hs
      simp only [hp, current_count] at hw
      have : a.thresholds = j + 1 := by omega
      simp only [current_afterImage, hw, this]
      exact (Nat.mul_succ _ _).symm

theorem reachable_invariant (hT : 1 ≤ a.thresholds) (h : Reachable (system a) s) :
    Invariant a s := by
  refine Reaches.invariant (I := Invariant a) ?_ (fun _ _ hi he _ => invariant_step hT hi he) h
  rintro _ rfl
  exact invariant_initial a

theorem Invariant.all_published (h : Invariant a s)
    (hlen : a.images * a.thresholds ≤ s.published.length) : AllPublished a s := by
  have hsub : s.published.toFinset ⊆ Finset.range a.images ×ˢ Finset.range a.thresholds := by
    intro p hp
    obtain ⟨ht, hi⟩ := h.published p (List.mem_toFinset.mp hp)
    have hb := h.bounded
    have hc : 0 < s.producer.current → 0 < s.producer.remaining := by
      cases s.producer <;> simp
    rw [Finset.mem_product, Finset.mem_range, Finset.mem_range]
    exact ⟨by omega, ht⟩
  have heq := Finset.eq_of_subset_of_card_le hsub (by
    rw [Finset.card_product, Finset.card_range, Finset.card_range,
      List.toFinset_card_of_nodup h.nodup]
    exact hlen)
  intro i hi j hj
  rw [← List.mem_toFinset, heq, Finset.mem_product, Finset.mem_range, Finset.mem_range]
  exact ⟨hi, hj⟩

/-- The acquisitions that one count for each threshold does not end too early. -/
def CountsImages (a : Acquisition) : Prop :=
  a.thresholds = 1 ∨ a.numImages * a.numTriggers ≤ 0 ∨
    (a.source = .stream ∧ a.numImages * a.numTriggers = 1)

/-- The product fits in `int`. -/
def Fits (a : Acquisition) : Prop :=
  -2 ^ 31 ≤ a.numImages * a.numTriggers ∧ a.numImages * a.numTriggers < 2 ^ 31

instance (a : Acquisition) : Decidable (Fits a) := inferInstanceAs (Decidable (_ ∧ _))

theorem expectedImages_eq (h : Fits a) : a.expectedImages = a.numImages * a.numTriggers :=
  Int.bmod_eq_of_le (by simpa using h.1) (by simpa using h.2)

/-- When controlTask finds the counter high enough, all arrays are out. -/
theorem Invariant.reached (h : Invariant a s) (hf : Fits a)
    (hc : CountsImages a) (hl : ¬ Locked a s)
    (hr : a.expectedImages ≤ s.numImagesCounter) : AllPublished a s := by
  rw [expectedImages_eq hf] at hr
  have hcount := h.counted
  have hu : 0 ≤ s.producer.uncounted := by cases s.producer <;> simp
  rcases hc with hc | hc | ⟨hs, hc⟩
  · apply h.all_published
    rw [hc, Nat.mul_one, Acquisition.images]
    omega
  · intro i hi
    rw [Acquisition.images] at hi
    omega
  · have hp : s.producer = .idle := by
      by_contra hn
      exact hl ⟨hs, hn⟩
    have hw := h.whole hs
    rw [hp, current_idle, Nat.add_zero] at hw
    have hi : 1 ≤ s.image := by
      by_contra hn
      have : s.image = 0 := by omega
      simp only [this, Nat.mul_zero, hp, uncounted_idle] at hw hcount
      omega
    apply h.all_published
    have : a.images = 1 := by rw [Acquisition.images, hc]; rfl
    rw [this, Nat.one_mul, hw]
    exact Nat.le_mul_of_pos_right _ hi

theorem allPublished_next (h : AllPublished a s) : AllPublished a (next a s e) := by
  intro i hi j hj
  have hm := h i hi j hj
  cases e with
  | publish r k => exact List.mem_append_left _ hm
  | count r k => simp only [next]; split_ifs <;> exact hm
  | _ => exact hm

theorem never_early_of_counts (hT : 1 ≤ a.thresholds) (hf : Fits a) (hc : CountsImages a) :
    NeverDisarmsEarly a := by
  intro s h
  refine Reaches.invariant_of (I := fun s => s.control = .disarm → AllPublished a s)
    (fun _ => reachable_invariant hT) ?_ ?_ h
  · rintro _ rfl hd
    simp [initial] at hd
  · intro s e hi ih he _ hd
    cases e with
    | fetchState =>
      by_cases hr : a.expectedImages ≤ s.numImagesCounter
      · exact allPublished_next (hi.reached hf hc he.2 hr)
      · simp [system, next, hr] at hd
    | enterLoop | waitStop => simp [system, next] at hd
    | count r j =>
      refine allPublished_next (ih ?_)
      simp only [system, next] at hd
      split_ifs at hd <;> exact hd
    | _ => exact allPublished_next (ih hd)

/-- controlTask is still triggering, and the producer has come as far as `pc` and `n`. -/
structure Produced (a : Acquisition) (s : State) (image n : ℕ) (pc : ProducerPc) : Prop where
  reachable : Reachable (system a) s
  control : s.control = .triggering
  producer : s.producer = pc
  image : s.image = image
  counter : s.numImagesCounter = n

theorem reachable_next (h : Reachable (system a) s) (e : Event) (he : Enabled a s e) :
    Reachable (system a) (next a s e) := .step h he trivial

theorem Produced.array (hT : 1 ≤ a.thresholds) {m n j : ℕ}
    (h : Produced a s m n (.publish 0 j)) :
    ∃ t, if j + 1 < a.thresholds then Produced a t m (n + 1) (.publish 0 (j + 1))
      else Produced a t (m + 1) (n + 1) .idle := by
  have hn : (if a.source = .stream then s.numImagesCounter else s.parsed) = n := by
    split_ifs with hs
    · exact h.counter
    · have hs : a.source = .fileWriter := by
        cases h' : a.source <;> simp_all
      rw [(reachable_invariant hT h.reachable).parsed hs (by simp [h.producer]), h.counter]
  have h₁ := reachable_next h.reachable (.publish 0 j) h.producer
  have h₂ := reachable_next h₁ (.count 0 j) rfl
  refine ⟨next a (next a s (.publish 0 j)) (.count 0 j), ?_⟩
  split_ifs with hlast
  · exact ⟨h₂, by simp [next, hlast, h.control], by simp [next, hlast],
      by simp [next, hlast, h.image], by simp [next, hlast, hn]⟩
  · exact ⟨h₂, by simp [next, hlast, h.control], by simp [next, hlast, afterImage],
      by simp [next, hlast, h.image], by simp [next, hlast, hn]⟩

theorem Produced.image_done (hT : 1 ≤ a.thresholds) {k m n j : ℕ} (hk : j + k + 1 = a.thresholds)
    (h : Produced a s m n (.publish 0 j)) :
    ∃ t, Produced a t (m + 1) (n + k + 1) .idle := by
  induction k generalizing s n j with
  | zero =>
    obtain ⟨t, ht⟩ := h.array hT
    rw [if_neg (by omega)] at ht
    exact ⟨t, ht⟩
  | succ k ih =>
    obtain ⟨t, ht⟩ := h.array hT
    rw [if_pos (by omega)] at ht
    obtain ⟨u, hu⟩ := ih (by omega) ht
    exact ⟨u, by rwa [show n + (k + 1) + 1 = n + 1 + k + 1 by omega]⟩

theorem Produced.image_begun {m n : ℕ} (h : Produced a s m n .idle) (hm : m < a.images) :
    ∃ t, Produced a t m n (.publish 0 0) := by
  cases hs : a.source with
  | stream =>
    have h₁ := reachable_next h.reachable .frame ⟨hs, h.producer, h.image.symm ▸ hm⟩
    exact ⟨_, h₁, h.control, rfl, h.image, h.counter⟩
  | fileWriter =>
    have h₁ := reachable_next h.reachable (.openFile 1) ⟨hs, h.producer, h.image.symm ▸ hm⟩
    have h₂ := reachable_next h₁ (.nextImage 0) rfl
    exact ⟨_, h₂, h.control, rfl, h.image, h.counter⟩

theorem produced_images (hT : 1 ≤ a.thresholds) {m : ℕ} (hm : m ≤ a.images) :
    ∃ s, Produced a s m (a.thresholds * m) .idle := by
  induction m with
  | zero => exact ⟨initial, .start rfl, rfl, rfl, rfl, by simp [initial]⟩
  | succ m ih =>
    obtain ⟨s, hs⟩ := ih (by omega)
    obtain ⟨t, ht⟩ := hs.image_begun (by omega)
    obtain ⟨u, hu⟩ := ht.image_done hT (k := a.thresholds - 1) (by omega)
    refine ⟨u, ?_⟩
    rwa [Nat.mul_succ, show a.thresholds * m + a.thresholds =
      a.thresholds * m + (a.thresholds - 1) + 1 by omega]

/-- controlTask disarms the detector as soon as it sees the counter that high. -/
theorem Produced.early (hT : 1 ≤ a.thresholds) {m n : ℕ} {pc : ProducerPc}
    (h : Produced a s m n pc) (hm : m < a.images) (hj : pc.current < a.thresholds)
    (hl : ¬ Locked a s) (hn : a.expectedImages ≤ n) : ¬ NeverDisarmsEarly a := by
  intro hall
  have h₁ := reachable_next h.reachable .enterLoop h.control
  have h₂ := reachable_next h₁ .fetchState ⟨rfl, hl⟩
  have hpub := hall _ h₂ (by simp [next, h.counter, hn]) m hm pc.current hj
  obtain ⟨-, hi⟩ := (reachable_invariant hT h.reachable).published _ hpub
  rw [h.image, h.producer] at hi
  omega

/-- The wait loop ends too early for every other acquisition. -/
theorem early_of_not_counts (hT : 1 ≤ a.thresholds) (hf : Fits a) (hc : ¬ CountsImages a) :
    ¬ NeverDisarmsEarly a := by
  simp only [CountsImages, not_or, not_and] at hc
  obtain ⟨h₁, h₀, hs⟩ := hc
  have hN : a.expectedImages = a.images := by
    rw [expectedImages_eq hf, Acquisition.images]
    omega
  have hpos : 0 < a.images := by
    rw [Acquisition.images]
    omega
  by_cases h2 : 2 ≤ a.images
  · -- all images but the last make up for it with their further thresholds
    obtain ⟨s, h⟩ := produced_images hT (Nat.sub_le a.images 1)
    refine h.early hT (by omega) hT (fun hl => hl.2 h.producer) ?_
    have : 2 * (a.images - 1) ≤ a.thresholds * (a.images - 1) :=
      Nat.mul_le_mul_right _ (by omega)
    rw [hN]
    omega
  · -- the first threshold of a single image already counts as the image
    have h1 : a.images = 1 := by omega
    have hfw : a.source ≠ .stream := fun h => hs h (by
      rw [← expectedImages_eq hf, hN, h1]
      rfl)
    obtain ⟨s, h⟩ := produced_images hT (Nat.zero_le a.images)
    obtain ⟨t, ht⟩ := h.image_begun hpos
    obtain ⟨u, hu⟩ := ht.array hT
    rw [if_pos (by omega)] at hu
    refine hu.early hT hpos (by rw [current_publish]; omega) (fun hl => hfw hl.1) ?_
    rw [hN, h1]
    simp

/-- The wait loop waits for all images exactly when each of them counts once, when there are
none, or when the stream delivers a single one. -/
theorem never_early_iff (hT : 1 ≤ a.thresholds) (hf : Fits a) :
    NeverDisarmsEarly a ↔ CountsImages a :=
  ⟨fun h => by_contra fun hc => early_of_not_counts hT hf hc h, never_early_of_counts hT hf⟩

theorem never_early_one_threshold : NeverDisarmsEarly ⟨10, 2, 1, .fileWriter⟩ :=
  (never_early_iff (by decide) (by decide)).mpr (Or.inl rfl)

/-- Two images of two thresholds: the counter stands at two after the first image. -/
theorem disarms_early_two_thresholds :
    ¬ ∀ a : Acquisition, 1 ≤ a.thresholds → Fits a → NeverDisarmsEarly a := by
  intro h
  have ht := h ⟨2, 1, 2, .stream⟩ (by decide) (by decide) _
    (reachable_trace rfl
      [.frame, .publish 0 0, .count 0 0, .publish 0 1, .count 0 1, .enterLoop, .fetchState]
      (by decide +kernel)) (by decide +kernel)
  exact absurd ht (by decide +kernel)

end ExpectedImages
