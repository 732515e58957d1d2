import Mathlib.Data.List.Basic
import Mathlib.Data.Nat.Notation

/-! Loops whose body can fail.
A body that brings a measure down each time is repeated until the condition is false; the
measure is the fuel, and with it the loop satisfies its own equation. -/
namespace Loop

variable {σ τ α ε : Type} {cond : σ → Bool} {body : σ → Except ε σ} {stuck : ε} {μ : σ → ℕ}

theorem bind_ok {x : Except ε σ} {f : σ → Except ε τ} {t : τ} (h : x >>= f = .ok t) :
    ∃ s, x = .ok s ∧ f s = .ok t := by
  cases x with
  | error e => cases h
  | ok s => exact ⟨s, rfl, h⟩

theorem ok_bind (s : σ) (f : σ → Except ε τ) : (Except.ok s >>= f) = f s := rfl

/-- What holds of neither step holds of no error of both. -/
theorem bind_ne {x : Except ε σ} {f : σ → Except ε τ} {e : ε} (hx : x ≠ .error e)
    (hf : ∀ s, x = .ok s → f s ≠ .error e) : x >>= f ≠ .error e := by
  cases x with
  | error e' => exact fun h => hx (congrArg Except.error (Except.error.inj h))
  | ok s => exact hf s rfl

theorem guard_ok {p : Prop} [Decidable p] {e : ε} {x : Except ε σ} {s : σ}
    (h : (if p then .error e else x) = .ok s) : ¬ p ∧ x = .ok s := by
  by_cases hp : p
  · rw [if_pos hp] at h
    cases h
  · rw [if_neg hp] at h
    exact ⟨hp, h⟩

section While

def rounds (cond : σ → Bool) (body : σ → Except ε σ) (stuck : ε) : ℕ → σ → Except ε σ
  | 0, _ => .error stuck
  | n + 1, s => if cond s then body s >>= rounds cond body stuck n else .ok s

/-- `while (cond) body`. -/
def whileLoop (cond : σ → Bool) (body : σ → Except ε σ) (stuck : ε) (μ : σ → ℕ) (s : σ) :
    Except ε σ :=
  rounds cond body stuck (μ s + 1) s

/-- The states in which the loop is run are those of `I`. -/
structure Decreasing (I : σ → Prop) (cond : σ → Bool) (body : σ → Except ε σ) (μ : σ → ℕ) :
    Prop where
  keeps : ∀ s s', I s → cond s = true → body s = .ok s' → I s'
  decreases : ∀ s s', I s → cond s = true → body s = .ok s' → μ s' < μ s

variable {I : σ → Prop}

theorem rounds_enough (hd : Decreasing I cond body μ) {n m : ℕ} {s : σ} (hs : I s)
    (hn : μ s < n) (hm : μ s < m) :
    rounds cond body stuck n s = rounds cond body stuck m s := by
  induction n generalizing m s with
  | zero => exact absurd hn (Nat.not_lt_zero _)
  | succ n ih =>
    obtain ⟨m, rfl⟩ := Nat.exists_eq_succ_of_ne_zero (Nat.ne_zero_of_lt hm)
    simp only [rounds]
    by_cases hc : cond s = true
    · rw [if_pos hc, if_pos hc]
      cases hb : body s with
      | error e => rfl
      | ok s' =>
        have hlt := hd.decreases s s' hs hc hb
        exact ih (hd.keeps s s' hs hc hb) (Nat.lt_of_lt_of_le hlt (Nat.le_of_lt_succ hn))
          (Nat.lt_of_lt_of_le hlt (Nat.le_of_lt_succ hm))
    · rw [if_neg hc, if_neg hc]

theorem whileLoop_eq (hd : Decreasing I cond body μ) {s : σ} (hs : I s) :
    whileLoop cond body stuck μ s =
      if cond s then body s >>= whileLoop cond body stuck μ else .ok s := by
  rw [whileLoop, rounds]
  by_cases hc : cond s = true
  · rw [if_pos hc, if_pos hc]
    cases hb : body s with
    | error e => rfl
    | ok s' =>
      exact rounds_enough hd (hd.keeps s s' hs hc hb) (hd.decreases s s' hs hc hb)
        (Nat.lt_succ_self _)
  · rw [if_neg hc, if_neg hc]

theorem rounds_invariant {P : σ → Prop}
    (step : ∀ s s', P s → cond s = true → body s = .ok s' → P s') {n : ℕ} {s s' : σ}
    (hs : P s) (h : rounds cond body stuck n s = .ok s') : P s' ∧ cond s' = false := by
  induction n generalizing s with
  | zero => cases h
  | succ n ih =>
    rw [rounds] at h
    by_cases hc : cond s = true
    · rw [if_pos hc] at h
      obtain ⟨t, hb, ht⟩ := bind_ok h
      exact ih (step s t hs hc hb) ht
    · rw [if_neg hc] at h
      obtain rfl := Except.ok.inj h
      exact ⟨hs, by simpa using hc⟩

theorem rounds_error (hd : Decreasing I cond body μ) {n : ℕ} {s : σ} {e : ε} (hs : I s)
    (hn : μ s < n) (h : rounds cond body stuck n s = .error e) :
    ∃ t, I t ∧ cond t = true ∧ body t = .error e := by
  induction n generalizing s with
  | zero => exact absurd hn (Nat.not_lt_zero _)
  | succ n ih =>
    rw [rounds] at h
    by_cases hc : cond s = true
    · rw [if_pos hc] at h
      cases hb : body s with
      | error e' =>
        rw [hb] at h
        obtain rfl := Except.error.inj h
        exact ⟨s, hs, hc, hb⟩
      | ok s' =>
        rw [hb] at h
        have hlt := hd.decreases s s' hs hc hb
        exact ih (hd.keeps s s' hs hc hb) (Nat.lt_of_lt_of_le hlt (Nat.le_of_lt_succ hn)) h
    · rw [if_neg hc] at h
      cases h

/-- The loop does not stop for want of fuel: an error is one of the body. -/
theorem whileLoop_error (hd : Decreasing I cond body μ) {s : σ} {e : ε} (hs : I s)
    (h : whileLoop cond body stuck μ s = .error e) : ∃ t, I t ∧ cond t = true ∧ body t = .error e :=
  rounds_error hd hs (Nat.lt_succ_self _) h

theorem whileLoop_invariant {P : σ → Prop}
    (step : ∀ s s', P s → cond s = true → body s = .ok s' → P s') {s s' : σ}
    (hs : P s) (h : whileLoop cond body stuck μ s = .ok s') : P s' ∧ cond s' = false :=
  rounds_invariant step hs h

/-- The states in which the condition is looked at. -/
inductive Reached (cond : σ → Bool) (body : σ → Except ε σ) (s : σ) : σ → Prop where
  | start : Reached cond body s s
  | step {t u} : Reached cond body s t → cond t = true → body t = .ok u → Reached cond body s u

theorem Reached.invariant {P : σ → Prop}
    (step : ∀ s s', P s → cond s = true → body s = .ok s' → P s') {s s' : σ} (hs : P s)
    (h : Reached cond body s s') : P s' := by
  induction h with
  | start => exact hs
  | step _ hc hb ih => exact step _ _ ih hc hb

theorem whileLoop_reached {s s' : σ} (h : whileLoop cond body stuck μ s = .ok s') :
    Reached cond body s s' ∧ cond s' = false :=
  whileLoop_invariant (fun _ _ hs hc hb => hs.step hc hb) .start h

theorem whileLoop_error_reached (hd : Decreasing I cond body μ) {s : σ} {e : ε} (hs : I s)
    (h : whileLoop cond body stuck μ s = .error e) :
    ∃ t, Reached cond body s t ∧ cond t = true ∧ body t = .error e := by
  have hd' : Decreasing (fun t => I t ∧ Reached cond body s t) cond body μ :=
    ⟨fun t u ht hc hb => ⟨hd.keeps t u ht.1 hc hb, ht.2.step hc hb⟩,
      fun t u ht hc hb => hd.decreases t u ht.1 hc hb⟩
  obtain ⟨t, ht, hc, hb⟩ := whileLoop_error hd' ⟨hs, .start⟩ h
  exact ⟨t, ht.2, hc, hb⟩

end While

section Repeat

/-- `n` values, each read from where the one before ended. -/
def readMany (read : σ → Except ε (α × σ)) : ℕ → σ → Except ε (List α × σ)
  | 0, s => .ok ([], s)
  | n + 1, s => do
    let (a, s) ← read s
    let (as, s) ← readMany read n s
    .ok (a :: as, s)

variable {read : σ → Except ε (α × σ)}

/-- With what holds of the states in between. -/
theorem readMany_keeps {I : σ → Prop} {P : α → Prop}
    (step : ∀ s a s', I s → read s = .ok (a, s') → P a ∧ I s') {n : ℕ} {s s' : σ} {as : List α}
    (hs : I s) (h : readMany read n s = .ok (as, s')) : as.length = n ∧ ∀ a ∈ as, P a := by
  induction n generalizing s s' as with
  | zero =>
    obtain ⟨rfl, -⟩ := Prod.mk.inj (Except.ok.inj h)
    exact ⟨rfl, List.forall_mem_nil _⟩
  | succ n ih =>
    rw [readMany] at h
    obtain ⟨⟨a, mid⟩, ha, h⟩ := bind_ok h
    obtain ⟨⟨more, last⟩, hmore, h⟩ := bind_ok h
    obtain ⟨rfl, -⟩ := Prod.mk.inj (Except.ok.inj h)
    obtain ⟨hP, hmid⟩ := step _ _ _ hs ha
    obtain ⟨hlen, hall⟩ := ih hmid hmore
    exact ⟨congrArg Nat.succ hlen, List.forall_mem_cons.mpr ⟨hP, hall⟩⟩

theorem readMany_spec {P : α → Prop} (step : ∀ s a s', read s = .ok (a, s') → P a) {n : ℕ}
    {s s' : σ} {as : List α} (h : readMany read n s = .ok (as, s')) :
    as.length = n ∧ ∀ a ∈ as, P a :=
  readMany_keeps (I := fun _ => True) (fun s a s' _ h => ⟨step s a s' h, trivial⟩) trivial h

end Repeat

end Loop
