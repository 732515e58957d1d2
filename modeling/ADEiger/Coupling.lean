import ADEiger.TransitionSystem

/-! Two transition systems that take some of their steps together.
A step of the whole is one of either system or of both at once; which it is may depend on where
they are. -/
namespace TransitionSystem

variable {σ τ ε δ α : Type*}

/-- What a step of the whole is on either side, and when it can be taken apart from them. -/
structure Coupling (σ τ ε δ α : Type*) where
  left : σ × τ → α → Option ε
  right : σ × τ → α → Option δ
  Allowed : σ × τ → α → Prop

def System.coupled (S : System σ ε) (T : System τ δ) (K : Coupling σ τ ε δ α) :
    System (σ × τ) α where
  Start x := S.Start x.1 ∧ T.Start x.2
  Enabled x a := K.Allowed x a ∧ (∀ e ∈ K.left x a, S.Enabled x.1 e) ∧
    ∀ d ∈ K.right x a, T.Enabled x.2 d
  next x a := ((K.left x a).elim x.1 (S.next x.1), (K.right x a).elim x.2 (T.next x.2))

variable {S : System σ ε} {T : System τ δ} {K : Coupling σ τ ε δ α} {C : σ × τ → α → Prop}
  {x : σ × τ}

theorem System.coupled_next {a : α} {l : Option ε} {r : Option δ} (hl : K.left x a = l)
    (hr : K.right x a = r) :
    (S.coupled T K).next x a = (l.elim x.1 (S.next x.1), r.elim x.2 (T.next x.2)) := by
  subst hl hr
  rfl

/-- A run of the whole is one of the left system, with steps left out that are none of its own. -/
theorem Reaches.left {D : σ → ε → Prop} (h : Reaches (S.coupled T K) C x)
    (steps : ∀ x a e, C x a → K.left x a = some e → D x.1 e) : Reaches S D x.1 := by
  induction h with
  | start hs => exact .start hs.1
  | @step x a _ he hc ih =>
    change Reaches S D ((K.left x a).elim x.1 (S.next x.1))
    cases hleft : K.left x a with
    | none => exact ih
    | some e => exact .step ih (he.2.1 e hleft) (steps x a e hc hleft)

theorem Reaches.right {D : τ → δ → Prop} (h : Reaches (S.coupled T K) C x)
    (steps : ∀ x a d, C x a → K.right x a = some d → D x.2 d) : Reaches T D x.2 := by
  induction h with
  | start hs => exact .start hs.2
  | @step x a _ he hc ih =>
    change Reaches T D ((K.right x a).elim x.2 (T.next x.2))
    cases hright : K.right x a with
    | none => exact ih
    | some d => exact .step ih (he.2.2 d hright) (steps x a d hc hright)

instance [∀ s e, Decidable (S.Enabled s e)] [∀ t d, Decidable (T.Enabled t d)]
    [∀ x a, Decidable (K.Allowed x a)] (x : σ × τ) (a : α) :
    Decidable ((S.coupled T K).Enabled x a) :=
  inferInstanceAs (Decidable (_ ∧ _ ∧ _))

end TransitionSystem
