import Mathlib.Logic.Basic

/-! Guarded transition systems and their runs.
A side condition on the steps of a run is a parameter, so that one invariant rule
serves unrestricted runs and runs that avoid a given kind of step. -/
namespace TransitionSystem

structure System (σ ε : Type*) where
  Start : σ → Prop
  Enabled : σ → ε → Prop
  next : σ → ε → σ

variable {σ ε : Type*} {S : System σ ε} {C D : σ → ε → Prop} {I : σ → Prop}

/-- States at the end of a run whose steps all satisfy `C`. -/
inductive Reaches (S : System σ ε) (C : σ → ε → Prop) : σ → Prop where
  | start {s} : S.Start s → Reaches S C s
  | step {s e} : Reaches S C s → S.Enabled s e → C s e → Reaches S C (S.next s e)

/-- No condition on the steps. -/
def AnyStep (_ : σ) (_ : ε) : Prop := True

def Reachable (S : System σ ε) : σ → Prop := Reaches S AnyStep

theorem Reaches.invariant (start : ∀ s, S.Start s → I s)
    (step : ∀ s e, I s → S.Enabled s e → C s e → I (S.next s e)) {s : σ}
    (h : Reaches S C s) : I s := by
  induction h with
  | start hs => exact start _ hs
  | step _ he hc ih => exact step _ _ ih he hc

/-- An invariant proved already may be used at every step of a new one. -/
theorem Reaches.invariant_of {J : σ → Prop} (known : ∀ s, Reaches S C s → J s)
    (start : ∀ s, S.Start s → I s)
    (step : ∀ s e, J s → I s → S.Enabled s e → C s e → I (S.next s e)) {s : σ}
    (h : Reaches S C s) : I s := by
  induction h with
  | start hs => exact start _ hs
  | step hr he hc ih => exact step _ _ (known _ hr) ih he hc

theorem Reaches.mono (imp : ∀ s e, C s e → D s e) {s : σ} (h : Reaches S C s) :
    Reaches S D s := by
  induction h with
  | start hs => exact .start hs
  | step _ he hc ih => exact .step ih he (imp _ _ hc)

/-- The system together with a history of its steps, which no step reads. -/
def System.withHistory {η : Type*} (S : System σ ε) (h₀ : η) (record : σ → ε → η → η) :
    System (σ × η) ε where
  Start x := S.Start x.1 ∧ x.2 = h₀
  Enabled x := S.Enabled x.1
  next x e := (S.next x.1 e, record x.1 e x.2)

theorem Reaches.forget {η : Type*} {h₀ : η} {record : σ → ε → η → η} {C : σ × η → ε → Prop}
    {x : σ × η} (h : Reaches (S.withHistory h₀ record) C x) : Reaches S AnyStep x.1 := by
  induction h with
  | start hs => exact .start hs.1
  | step _ he _ ih => exact .step ih he trivial

instance {η : Type*} (h₀ : η) (record : σ → ε → η → η) [∀ s e, Decidable (S.Enabled s e)]
    (x : σ × η) (e : ε) : Decidable ((S.withHistory h₀ record).Enabled x e) :=
  inferInstanceAs (Decidable (S.Enabled x.1 e))

def runTrace (S : System σ ε) (s : σ) : List ε → σ
  | [] => s
  | e :: es => runTrace S (S.next s e) es

def ValidTrace (S : System σ ε) (C : σ → ε → Prop) (s : σ) : List ε → Prop
  | [] => True
  | e :: es => S.Enabled s e ∧ C s e ∧ ValidTrace S C (S.next s e) es

def decideTrace [∀ s e, Decidable (S.Enabled s e)] [∀ s e, Decidable (C s e)] (s : σ) :
    (es : List ε) → Decidable (ValidTrace S C s es)
  | [] => isTrue trivial
  | e :: es =>
    have := decideTrace (S.next s e) es
    inferInstanceAs (Decidable (_ ∧ _ ∧ _))

instance [∀ s e, Decidable (S.Enabled s e)] [∀ s e, Decidable (C s e)] (s : σ) (es : List ε) :
    Decidable (ValidTrace S C s es) := decideTrace s es

instance (s : σ) (e : ε) : Decidable (AnyStep s e) := isTrue trivial

theorem ValidTrace.reaches {s : σ} {es : List ε} (h : ValidTrace S C s es)
    (hs : Reaches S C s) : Reaches S C (runTrace S s es) := by
  induction es generalizing s with
  | nil => exact hs
  | cons e es ih => exact ih h.2.2 (.step hs h.1 h.2.1)

theorem reachable_trace {s : σ} (hs : S.Start s) (es : List ε) (h : ValidTrace S AnyStep s es) :
    Reachable S (runTrace S s es) :=
  h.reaches (.start hs)

end TransitionSystem
