import Mathlib.Data.List.Basic
import Mathlib.Data.List.Count

/-! A FIFO message channel that remembers what was taken out of it.
What was ever sent is what was received followed by what is still queued, so the
order and the multiplicity of messages need no invariant of their own. -/

structure Channel (α : Type*) where
  received : List α
  queue : List α
  deriving DecidableEq, Repr

namespace Channel

variable {α : Type*}

def empty : Channel α := ⟨[], []⟩

def sent (c : Channel α) : List α := c.received ++ c.queue

def send (c : Channel α) (a : α) : Channel α := { c with queue := c.queue ++ [a] }

/-- Take the oldest message out of the queue. -/
def receive (c : Channel α) : Channel α :=
  ⟨c.received ++ c.queue.head?.toList, c.queue.tail⟩

@[simp] theorem sent_empty : (empty : Channel α).sent = [] := rfl
@[simp] theorem received_empty : (empty : Channel α).received = [] := rfl
@[simp] theorem queue_empty : (empty : Channel α).queue = [] := rfl

@[simp] theorem sent_send (c : Channel α) (a : α) : (c.send a).sent = c.sent ++ [a] := by
  simp [sent, send]

@[simp] theorem received_send (c : Channel α) (a : α) :
    (c.send a).received = c.received := rfl

@[simp] theorem sent_receive (c : Channel α) : c.receive.sent = c.sent := by
  cases h : c.queue <;> simp [sent, receive, h]

theorem received_receive {c : Channel α} {a : α} (h : c.queue.head? = some a) :
    c.receive.received = c.received ++ [a] := by
  simp [receive, h]

theorem received_prefix_sent (c : Channel α) : c.received <+: c.sent :=
  List.prefix_append _ _

theorem mem_queue_of_head {c : Channel α} {a : α} (h : c.queue.head? = some a) :
    a ∈ c.queue := List.mem_of_mem_head? h

theorem count_sent [BEq α] (c : Channel α) (a : α) :
    c.sent.count a = c.received.count a + c.queue.count a :=
  List.count_append

end Channel
