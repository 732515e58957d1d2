import ADEiger.DriverStart

/-! NumImages around an acquisition.
In the modes that take one image for each trigger controlTask puts 1 before it arms the detector,
and what was there before at the end. -/
namespace Driver

open TransitionSystem

variable {s : State} {e : Event} {v : ℤ}

/-- controlTask has taken a start, and NumImages is `v`. -/
def startingWith (v : ℤ) : System State Event :=
  { system with Start := fun s => s.control = .woken ∧ s.numImages = v }

instance (v : ℤ) (s : State) (e : Event) : Decidable ((startingWith v).Enabled s e) :=
  inferInstanceAs (Decidable (Enabled s e))

/-- No client writes NumImages, and what restores it succeeds. -/
def Undisturbed (s : State) : Event → Prop
  | .writeNumImages _ => False
  | .finish putOk => s.latched.savedNumImages ≠ s.latched.numImages → putOk = true
  | _ => True

/-- The detector fails to arm only while NumImages is what it was before. -/
def ArmsOrKept (s : State) : Event → Prop
  | .arm false => s.numImages = s.latched.savedNumImages
  | _ => True

def Restores (s : State) (e : Event) : Prop := Undisturbed s e ∧ ArmsOrKept s e

instance (s : State) : (e : Event) → Decidable (Undisturbed s e) := by
  rintro ⟨⟩ <;> simp only [Undisturbed] <;> infer_instance

instance (s : State) : (e : Event) → Decidable (ArmsOrKept s e)
  | .arm false => inferInstanceAs (Decidable (_ = _))
  | .arm true => isTrue trivial
  | .wake | .start _ | .manualWait _ | .testTrigger | .trigger | .fetchState _ | .waitStop _
  | .relock | .disarm | .fetchFWState _ | .pollDoneWait | .streamDoneWait | .finish _
  | .wakeStream | .checkReceiver | .callGetHeader _ | .getHeader _ _ _ | .callWaitFrame _
  | .waitFrame _ _ _ | .getFrame _ _ | .finishStream | .pollDone | .parsed _ | .writeAcquire _
  | .finishStop _ | .writeTrigger | .writeDataSource _ _ | .writeStreamVersion _ _
  | .writeNumImages _ | .writeSettings _ => isTrue trivial

instance (s : State) (e : Event) : Decidable (Restores s e) := inferInstanceAs (Decidable (_ ∧ _))

/-- Between two acquisitions NumImages is `v`; during one `v` is saved, and NumImages is `v` unless
another number was put. -/
structure ImagesKept (v : ℤ) (s : State) : Prop where
  idle : s.control.started = false → s.numImages = v
  saved : s.control.started = true → s.latched.savedNumImages = v
  put : s.control.started = true → s.latched.numImages = v → s.numImages = v

/-- The fields that NumImages is kept in. -/
def State.images (s : State) : ℤ × Latched := (s.numImages, s.latched)

theorem ImagesKept.of_same {t : State} (h : ImagesKept v s) (himages : t.images = s.images)
    (hcontrol : t.control = s.control ∨ s.control.started = t.control.started) :
    ImagesKept v t := by
  obtain ⟨hnum, hlatched⟩ := Prod.mk.inj himages
  have hstarted : t.control.started = s.control.started := by
    rcases hcontrol with hc | hc
    · rw [hc]
    · exact hc.symm
  constructor
  · intro hidle
    exact hnum.trans (h.idle (hstarted ▸ hidle))
  · intro hs
    rw [hlatched]
    exact h.saved (hstarted ▸ hs)
  · intro hs himg
    rw [hlatched] at himg
    exact hnum.trans (h.put (hstarted ▸ hs) himg)

theorem testTrigger_images (s : State) : s.testTrigger.images = s.images := by
  rcases testTrigger_cases s with ht | ⟨-, ht | ht⟩ <;> rw [ht] <;> rfl

theorem switchReceivers_images (s : State) (enabled : Bool) :
    (s.switchReceivers enabled).images = s.images := by
  simp only [State.switchReceivers]
  split_ifs <;> rfl

theorem images_next (hsilent : e.silent = true) (hwrite : Undisturbed s e) :
    (next s e).images = s.images := by
  cases e with
  | arm ok =>
    cases ok with
    | false => cases hsilent
    | true =>
      simp only [next]
      split_ifs
      · exact testTrigger_images _
      · rfl
  | testTrigger => exact testTrigger_images s
  | trigger => exact testTrigger_images { s with triggers := s.triggers + 1 }
  | writeDataSource value enabled => exact switchReceivers_images _ enabled
  | writeStreamVersion value enabled => exact switchReceivers_images _ enabled
  | writeNumImages value => exact absurd hwrite id
  | manualWait fired => cases fired <;> rfl
  | waitStop fired => cases fired <;> rfl
  | fetchState reported =>
    simp only [next]
    split_ifs <;> rfl
  | fetchFWState reported =>
    simp only [next]
    split_ifs <;> rfl
  | waitFrame v o result => rcases result with (_ | n) | _ | _ <;> rfl
  | wake => cases hsilent
  | start putOk => cases hsilent
  | finish putOk => cases hsilent
  | writeAcquire value => cases hsilent
  | finishStop k => cases hsilent
  | _ => rfl

theorem imagesKept_step (h : ImagesKept v s) (he : Enabled s e) (hc : Restores s e) :
    ImagesKept v (next s e) := by
  obtain ⟨hundisturbed, harms⟩ := hc
  cases hsilent : e.silent with
  | true =>
    apply h.of_same (images_next hsilent hundisturbed)
    exact (sameReport_next he hsilent).control.imp_right fun ⟨hs, ht⟩ => hs.trans ht.symm
  | false =>
    cases e with
    | wake => exact h.of_same rfl (.inr (by rw [he.1]; rfl))
    | start putOk =>
      have hidle : s.numImages = v := h.idle (by rw [he.1]; rfl)
      simp only [next]
      split_ifs with herror hput
      · exact ⟨fun _ => hidle, by simp [ControlPc.started], by simp [ControlPc.started]⟩
      · have hone : s.settings.triggerMode.oneImage = true := by
          rw [Bool.and_eq_true] at hput
          exact hput.1
        refine ⟨by simp [ControlPc.started], fun _ => hidle, fun _ hnum => ?_⟩
        have hlatch : s.latch.numImages = 1 := if_pos hone
        exact hlatch.symm.trans hnum
      · exact ⟨by simp [ControlPc.started], fun _ => hidle, fun _ _ => hidle⟩
    | arm ok =>
      cases ok with
      | true => cases hsilent
      | false =>
        have hsaved : s.latched.savedNumImages = v := h.saved (by rw [he.1]; rfl)
        exact ⟨fun _ => Eq.trans harms hsaved, by simp [next, ControlPc.started],
          by simp [next, ControlPc.started]⟩
    | finish putOk =>
      have hstarted : s.control.started = true := by rw [he.1]; rfl
      have hrestored : (if s.latched.savedNumImages ≠ s.latched.numImages ∧ putOk = true then
          s.latched.savedNumImages else s.numImages) = v := by
        by_cases hne : s.latched.savedNumImages ≠ s.latched.numImages
        · rw [if_pos ⟨hne, hundisturbed hne⟩]
          exact h.saved hstarted
        · rw [if_neg fun hboth => hne hboth.1]
          exact h.put hstarted ((not_not.mp hne).symm.trans (h.saved hstarted))
      simp only [next]
      cases s.adStatus with
      | acquire =>
        dsimp only
        by_cases hmode : s.latched.triggerMode = .continuous
        · rw [if_pos hmode]
          exact ⟨fun _ => hrestored, by simp [ControlPc.started], by simp [ControlPc.started]⟩
        · rw [if_neg hmode]
          exact ⟨fun _ => hrestored, by simp [ControlPc.started], by simp [ControlPc.started]⟩
      | _ => exact ⟨fun _ => hrestored, by simp [ControlPc.started], by simp [ControlPc.started]⟩
    | writeAcquire value =>
      simp only [next]
      split_ifs <;> exact h.of_same rfl (.inl rfl)
    | finishStop k => exact h.of_same rfl (.inl rfl)
    | _ => cases hsilent

/-- Back at its wait for the next start, controlTask has left NumImages as it was. -/
theorem images_restored (v : ℤ) (s : State) (h : Reaches (startingWith v) Restores s)
    (hwaiting : s.control = .waiting) : s.numImages = v := by
  have hkept : ImagesKept v s := by
    refine h.invariant (I := ImagesKept v) ?_ fun _ _ hk he hc => imagesKept_step hk he hc
    rintro s ⟨hwoken, hnum⟩
    have hidle : s.control.started = false := by rw [hwoken]; rfl
    refine ⟨fun _ => hnum, fun hs => ?_, fun hs => ?_⟩
    · exact absurd (hs.symm.trans hidle) (by simp)
    · exact absurd (hs.symm.trans hidle) (by simp)
  exact hkept.idle (by rw [hwaiting]; rfl)

/-- Internal Enable with five images for each trigger. -/
def fiveImages : State :=
  { initial with control := .woken
                 adStatus := .acquire
                 adAcquire := 1
                 numImages := 5
                 settings := { initial.settings with triggerMode := .inte } }

theorem images_restored_inte : (runTrace (startingWith 5) fiveImages
    [.start true, .arm true, .trigger, .fetchState (some "idle"), .disarm, .finish true]).numImages
      = 5 :=
  images_restored 5 _ (ValidTrace.reaches (by decide +kernel) (.start ⟨rfl, rfl⟩))
    (by decide +kernel)

/-- The detector fails to arm, and 1 stays. -/
theorem failed_arm_keeps_one : ¬ ∀ (v : ℤ) (s : State), Reaches (startingWith v) Undisturbed s →
    s.control = .waiting → s.numImages = v := by
  intro h
  have hvalid : ValidTrace (startingWith 5) Undisturbed fiveImages [.start true, .arm false] := by
    decide +kernel
  have hnum := h 5 _ (hvalid.reaches (.start ⟨rfl, rfl⟩)) (by decide +kernel)
  exact absurd hnum (by decide +kernel)

end Driver
