import ADEiger.TransitionSystem

/-! Automata that watch what the steps of a transition system put out.
A relation between the states of both that every step keeps shows that the automaton accepts the
whole output of every run. -/
namespace TransitionSystem

variable {σ ε φ κ : Type*} {S : System σ ε} {C : σ × List κ → ε → Prop} {R : σ → φ → Prop}

structure Monitor (φ κ : Type*) where
  start : φ
  step : φ → κ → Option φ

def Monitor.runFrom (M : Monitor φ κ) (q : φ) : List κ → Option φ
  | [] => some q
  | k :: ks => (M.step q k).bind fun q => M.runFrom q ks

def Monitor.run (M : Monitor φ κ) (ks : List κ) : Option φ := M.runFrom M.start ks

theorem Monitor.runFrom_append (M : Monitor φ κ) (q : φ) (ks ls : List κ) :
    M.runFrom q (ks ++ ls) = (M.runFrom q ks).bind fun q => M.runFrom q ls := by
  induction ks generalizing q with
  | nil => rfl
  | cons k ks ih =>
    rw [List.cons_append, Monitor.runFrom, Monitor.runFrom, Option.bind_assoc]
    exact congrArg _ (funext ih)

/-- The system with what its steps put out. -/
def System.withOutput (S : System σ ε) (out : σ → ε → List κ) : System (σ × List κ) ε :=
  S.withHistory [] fun s e ks => ks ++ out s e

instance (out : σ → ε → List κ) [∀ s e, Decidable (S.Enabled s e)] (x : σ × List κ) (e : ε) :
    Decidable ((S.withOutput out).Enabled x e) :=
  inferInstanceAs (Decidable (S.Enabled x.1 e))

theorem Reaches.watched {out : σ → ε → List κ} (M : Monitor φ κ)
    (start : ∀ s, S.Start s → R s M.start)
    (step : ∀ s e q, R s q → S.Enabled s e →
      ∃ q', M.runFrom q (out s e) = some q' ∧ R (S.next s e) q')
    {x : σ × List κ} (h : Reaches (S.withOutput out) C x) :
    ∃ q, M.run x.2 = some q ∧ R x.1 q := by
  refine h.invariant (I := fun x => ∃ q, M.run x.2 = some q ∧ R x.1 q) ?_ ?_
  · rintro ⟨s, ks⟩ ⟨hs, rfl⟩
    exact ⟨M.start, rfl, start s hs⟩
  · rintro ⟨s, ks⟩ e ⟨q, hq, hr⟩ he -
    obtain ⟨q', hq', hr'⟩ := step s e q hr he
    refine ⟨q', ?_, hr'⟩
    show M.runFrom M.start (ks ++ out s e) = some q'
    rw [M.runFrom_append, show M.runFrom M.start ks = some q from hq]
    exact hq'

end TransitionSystem
