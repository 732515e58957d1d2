import Mathlib.Data.List.Basic

/-! A kept-alive connection whose peer answers its requests in order.
Every byte on its way back carries the request it answers, so what a reader gets can be
compared with what it asked for. -/

structure Connection (ρ β : Type*) where
  outstanding : List ρ
  unread : List (ρ × β)
  ended : Bool
  deriving DecidableEq, Repr

namespace Connection

variable {ρ β : Type*} {c : Connection ρ β} {r : ρ}

def fresh : Connection ρ β := ⟨[], [], false⟩

def transmit (c : Connection ρ β) (r : ρ) : Connection ρ β :=
  { c with outstanding := c.outstanding ++ [r] }

/-- The peer sends one byte of its answer to the oldest request; the answer may end there. -/
def answer (c : Connection ρ β) (b : β) (last : Bool) : Connection ρ β :=
  match c.outstanding with
  | [] => c
  | r :: rs =>
    if c.ended then c
    else { c with outstanding := bif last then rs else r :: rs, unread := c.unread ++ [(r, b)] }

/-- The peer closes its end: no further byte will be sent. -/
def shut (c : Connection ρ β) : Connection ρ β := { c with ended := true }

def read (c : Connection ρ β) (n : ℕ) : Connection ρ β := { c with unread := c.unread.drop n }

/-- Nothing is left to read, now or later. -/
def Drained (c : Connection ρ β) : Prop :=
  c.unread = [] ∧ (c.outstanding = [] ∨ c.ended = true)

/-- Whatever can be read, now or later, answers `r`. -/
def Serves (c : Connection ρ β) (r : ρ) : Prop :=
  (∀ b ∈ c.unread, b.1 = r) ∧ ((∀ q ∈ c.outstanding, q = r) ∨ c.ended = true)

instance (c : Connection ρ β) : Decidable c.Drained :=
  decidable_of_iff (c.unread.isEmpty = true ∧ (c.outstanding.isEmpty = true ∨ c.ended = true))
    (by simp [Drained])

theorem drained_fresh : (fresh : Connection ρ β).Drained := ⟨rfl, Or.inl rfl⟩

theorem Drained.transmit (h : c.Drained) (r : ρ) : (c.transmit r).Serves r := by
  obtain ⟨hu, ho⟩ := h
  refine ⟨by simp [Connection.transmit, hu], ho.imp (fun ho => ?_) id⟩
  simp [Connection.transmit, ho]

theorem Drained.answer (h : c.Drained) (b : β) (last : Bool) : (c.answer b last).Drained := by
  obtain ⟨hu, ho⟩ := h
  unfold Connection.answer
  split
  · exact ⟨hu, ho⟩
  · next r rs heq =>
    have he : c.ended = true := ho.resolve_left (by simp [heq])
    rw [if_pos he]
    exact ⟨hu, Or.inr he⟩

theorem Drained.shut (h : c.Drained) : c.shut.Drained := ⟨h.1, Or.inr rfl⟩

theorem Serves.answer (h : c.Serves r) (b : β) (last : Bool) : (c.answer b last).Serves r := by
  obtain ⟨hu, ho⟩ := h
  unfold Connection.answer
  split
  · exact ⟨hu, ho⟩
  · next q rs heq =>
    split_ifs with he
    · exact ⟨hu, Or.inr he⟩
    · have hq := ho.resolve_right he
      rw [heq] at hq
      refine ⟨?_, Or.inl fun x hx => ?_⟩
      · intro x hx
        rcases List.mem_append.mp hx with hx | hx
        · exact hu x hx
        · rw [List.mem_singleton.mp hx]
          exact hq q List.mem_cons_self
      · cases last with
        | true => exact hq x (List.mem_cons_of_mem _ hx)
        | false => exact hq x hx

theorem Serves.shut (h : c.Serves r) : c.shut.Serves r := ⟨h.1, Or.inr rfl⟩

theorem Serves.read (h : c.Serves r) (n : ℕ) : (c.read n).Serves r :=
  ⟨fun b hb => h.1 b (List.mem_of_mem_drop hb), h.2⟩

/-- What is read from a connection that serves `r` answers `r`. -/
theorem Serves.taken (h : c.Serves r) (n : ℕ) : ∀ b ∈ c.unread.take n, b.1 = r :=
  fun b hb => h.1 b (List.mem_of_mem_take hb)

/-- Whoever could rely on `c` can rely on `d`. -/
structure Keeps (c d : Connection ρ β) : Prop where
  drained : c.Drained → d.Drained
  serves : ∀ r, c.Serves r → d.Serves r

theorem Keeps.refl (c : Connection ρ β) : c.Keeps c := ⟨id, fun _ => id⟩

theorem keeps_answer (c : Connection ρ β) (b : β) (last : Bool) : c.Keeps (c.answer b last) :=
  ⟨fun h => h.answer b last, fun _ h => h.answer b last⟩

theorem keeps_shut (c : Connection ρ β) : c.Keeps c.shut :=
  ⟨Drained.shut, fun _ => Serves.shut⟩

end Connection
