import ADEiger.TransitionSystem

/-! What the steps of a transition system lead to, whichever of them are taken. -/
namespace TransitionSystem

variable {σ ε α : Type*} {S : System σ ε} {C N : σ → ε → Prop} {I P : σ → Prop}

/-- Whatever steps with `C` are taken, a state with `P` is reached, and until then there is such a
step to take. -/
inductive Inevitable (S : System σ ε) (C : σ → ε → Prop) (P : σ → Prop) : σ → Prop where
  | now {s} : P s → Inevitable S C P s
  | later {s} : (∃ e, S.Enabled s e ∧ C s e) →
      (∀ e, S.Enabled s e → C s e → Inevitable S C P (S.next s e)) → Inevitable S C P s

/-- An invariant under which the system can always go on, with a variant that every step brings
down. -/
theorem Inevitable.of_variant {r : α → α → Prop} (hr : WellFounded r) (f : σ → α)
    (progress : ∀ s, I s → ¬ P s → ∃ e, S.Enabled s e ∧ C s e)
    (step : ∀ s e, I s → ¬ P s → S.Enabled s e → C s e →
      P (S.next s e) ∨ I (S.next s e) ∧ r (f (S.next s e)) (f s)) {s : σ} (h : I s) :
    Inevitable S C P s := by
  generalize hx : f s = x
  induction x using hr.induction generalizing s with
  | _ x ih =>
    subst hx
    by_cases hp : P s
    · exact .now hp
    · refine .later (progress s h hp) fun e he hc => ?_
      rcases step s e h hp he hc with hnow | ⟨hi, hlt⟩
      · exact .now hnow
      · exact ih _ hlt hi rfl

/-- The states that steps with `N` lead to from `s`. -/
inductive Between (S : System σ ε) (N : σ → ε → Prop) (s : σ) : σ → Prop where
  | refl : Between S N s s
  | step {t e} : Between S N s t → S.Enabled t e → N t e → Between S N s (S.next t e)

/-- The same where steps with `N`, which bring nothing forward, may come in between in any
number. -/
inductive InevitableAmid (S : System σ ε) (N C : σ → ε → Prop) (P : σ → Prop) : σ → Prop where
  | now {s} : P s → InevitableAmid S N C P s
  | later {s} : (∀ t, Between S N s t → ∃ e, S.Enabled t e ∧ C t e) →
      (∀ t e, Between S N s t → S.Enabled t e → C t e → InevitableAmid S N C P (S.next t e)) →
      InevitableAmid S N C P s

/-- The steps in between keep the invariant and the variant, and do not reach the goal. -/
theorem InevitableAmid.of_variant {r : α → α → Prop} (hr : WellFounded r) (f : σ → α)
    (between : ∀ s e, I s → ¬ P s → S.Enabled s e → N s e →
      I (S.next s e) ∧ ¬ P (S.next s e) ∧ f (S.next s e) = f s)
    (progress : ∀ s, I s → ¬ P s → ∃ e, S.Enabled s e ∧ C s e)
    (step : ∀ s e, I s → ¬ P s → S.Enabled s e → C s e →
      P (S.next s e) ∨ I (S.next s e) ∧ r (f (S.next s e)) (f s)) {s : σ} (h : I s) :
    InevitableAmid S N C P s := by
  have kept : ∀ {s}, I s → ¬ P s → ∀ t, Between S N s t → I t ∧ ¬ P t ∧ f t = f s := by
    intro s h hp t ht
    induction ht with
    | refl => exact ⟨h, hp, rfl⟩
    | step _ he hn ih =>
      obtain ⟨hi, hp', heq⟩ := ih
      obtain ⟨hi', hp'', heq'⟩ := between _ _ hi hp' he hn
      exact ⟨hi', hp'', heq'.trans heq⟩
  generalize hx : f s = x
  induction x using hr.induction generalizing s with
  | _ x ih =>
    subst hx
    by_cases hp : P s
    · exact .now hp
    · refine .later (fun t ht => ?_) fun t e ht he hc => ?_
      · obtain ⟨hi, hp', -⟩ := kept h hp t ht
        exact progress t hi hp'
      · obtain ⟨hi, hp', heq⟩ := kept h hp t ht
        rcases step t e hi hp' he hc with hnow | ⟨hi', hlt⟩
        · exact .now hnow
        · exact ih _ (heq ▸ hlt) hi' rfl

end TransitionSystem
