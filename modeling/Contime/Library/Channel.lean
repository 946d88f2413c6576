import Mathlib.Order.Basic

/-! A bounded channel: one first-in first-out queue that all receivers share, so that every
message is taken at most once. The structure carries the bound, so no send can overfill it.
-/

universe u

/-- The messages that wait in a channel. -/
structure Channel (α : Type u) (capacity : Nat) where
  queue : List α
  withinCapacity : queue.length ≤ capacity

namespace Channel
variable {α : Type u} {capacity : Nat}

/-- A channel in which nothing waits. -/
def empty : Channel α capacity := ⟨[], Nat.zero_le _⟩

/-- Send without waiting: a full channel drops the message and answers `false`. -/
def trySend (channel : Channel α capacity) (message : α) : Channel α capacity × Bool :=
  if room : channel.queue.length < capacity then
    (⟨channel.queue ++ [message], by rw [List.length_append, List.length_singleton]; exact room⟩,
      true)
  else (channel, false)

/-- Take the message that waits longest, if any. -/
def tryRecv (channel : Channel α capacity) : Channel α capacity × Option α :=
  match channel with
  | ⟨[], _⟩ => (channel, none)
  | ⟨message :: rest, within⟩ => (⟨rest, Nat.le_of_succ_le within⟩, some message)

variable {channel : Channel α capacity} {message : α}

/-- With room for it, a message joins the queue at its end. -/
theorem trySend_queue (room : channel.queue.length < capacity)
    : (channel.trySend message).1.queue = channel.queue ++ [message] := by
  rw [trySend, dif_pos room]

/-- A send adds at most one message. -/
theorem trySend_length_le
    : (channel.trySend message).1.queue.length ≤ channel.queue.length + 1 := by
  by_cases room : channel.queue.length < capacity
  · simp [trySend_queue room]
  · rw [trySend, dif_neg room]
    exact Nat.le_succ _

/-- A receive takes the front of the queue, and nothing when there is none. -/
theorem tryRecv_spec (channel : Channel α capacity)
    : (channel.tryRecv = (channel, none) ∧ channel.queue = [])
      ∨ ∃ rest message,
          channel.tryRecv = (rest, some message) ∧ channel.queue = message :: rest.queue := by
  obtain ⟨queue, within⟩ := channel
  cases queue with
  | nil => exact Or.inl ⟨rfl, rfl⟩
  | cons message rest => exact Or.inr ⟨_, message, rfl, rfl⟩

end Channel
