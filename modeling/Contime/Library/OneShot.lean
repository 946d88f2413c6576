/-! A channel for one message, with one sender. A message that was sent stays receivable when
the sender is gone. Without one to receive, the channel is empty as long as the sender is there
and disconnected from then on, whether the message was taken or never sent.
-/

universe u

inductive TryRecvError where
  | empty
  | disconnected
  deriving DecidableEq, Repr

inductive RecvError where
  | disconnected
  deriving DecidableEq, Repr

/-- The channel with what its sender did. Nothing is there to receive before it was sent. -/
structure OneShot (α : Type u) where
  message : Option α
  sent : Bool
  dropped : Bool
  unsent : sent = false → message = none

namespace OneShot
variable {α : Type u}

def new : OneShot α := ⟨none, false, false, fun _ => rfl⟩

/-- The sender sends its message, once, as long as it is there. -/
def send (channel : OneShot α) (message : α) : OneShot α :=
  if channel.sent || channel.dropped then channel
  else { message := some message, sent := true, dropped := false, unsent := nofun }

/-- The sender is dropped. -/
def dropSender (channel : OneShot α) : OneShot α := { channel with dropped := true }

/-- Receive without waiting. -/
def tryRecv (channel : OneShot α) : Except TryRecvError α × OneShot α :=
  match channel.message with
  | some message => (.ok message, { channel with message := none, unsent := fun _ => rfl })
  | none => (.error (if channel.dropped then .disconnected else .empty), channel)

/-- Receive; `none` as long as the receiver has to wait. -/
def recv (channel : OneShot α) : Option (Except RecvError α × OneShot α) :=
  match channel.tryRecv with
  | (.ok message, taken) => some (.ok message, taken)
  | (.error .empty, _) => none
  | (.error .disconnected, _) => some (.error .disconnected, channel)

/-- The sender is gone and never sent. -/
def Broken (channel : OneShot α) : Prop := channel.dropped = true ∧ channel.sent = false

instance (channel : OneShot α) : Decidable channel.Broken :=
  inferInstanceAs (Decidable (_ ∧ _))

/-- The message was sent and received. -/
def Taken (channel : OneShot α) : Prop := channel.sent = true ∧ channel.message = none

variable {channel : OneShot α}

/-- A message that waits was sent. -/
theorem sent_of_message {message : α} (waiting : channel.message = some message)
    : channel.sent = true := by
  cases sent : channel.sent with
  | true => rfl
  | false =>
      rw [channel.unsent sent] at waiting
      cases waiting

/-- A receive takes the message; without one it tells whether the sender is gone. -/
theorem tryRecv_cases (channel : OneShot α)
    : (∃ message taken,
        channel.tryRecv = (.ok message, taken)
        ∧ channel.message = some message
        ∧ taken.message = none
        ∧ taken.sent = channel.sent
        ∧ taken.dropped = channel.dropped)
      ∨ (channel.tryRecv = (.error .disconnected, channel)
        ∧ channel.message = none
        ∧ channel.dropped = true)
      ∨ (channel.tryRecv = (.error .empty, channel)
        ∧ channel.message = none
        ∧ channel.dropped = false) := by
  unfold tryRecv
  cases channel.message with
  | some message => exact Or.inl ⟨message, _, rfl, rfl, rfl, rfl, rfl⟩
  | none =>
      cases gone : channel.dropped with
      | true => exact Or.inr (Or.inl ⟨rfl, rfl, rfl⟩)
      | false => exact Or.inr (Or.inr ⟨rfl, rfl, rfl⟩)

/-- A blocking receive waits exactly while nothing is there and the sender is. -/
theorem recv_cases (channel : OneShot α)
    : (∃ message taken,
        channel.recv = some (.ok message, taken)
        ∧ channel.message = some message
        ∧ taken.message = none
        ∧ taken.sent = channel.sent
        ∧ taken.dropped = channel.dropped)
      ∨ (channel.recv = some (.error .disconnected, channel)
        ∧ channel.message = none
        ∧ channel.dropped = true)
      ∨ (channel.recv = none ∧ channel.message = none ∧ channel.dropped = false) := by
  unfold recv
  rcases channel.tryRecv_cases with
    ⟨message, taken, takes, waiting, nothing, sent, dropped⟩ | ⟨fails, none, gone⟩
      | ⟨fails, none, there⟩
  · rw [takes]
    exact Or.inl ⟨message, taken, rfl, waiting, nothing, sent, dropped⟩
  · rw [fails]
    exact Or.inr (Or.inl ⟨rfl, none, gone⟩)
  · rw [fails]
    exact Or.inr (Or.inr ⟨rfl, none, there⟩)

/-- What a step of the sender keeps: a message that was sent and not taken yet stays there, and
a sender that is gone does nothing.
-/
structure SenderStep (before after : OneShot α) : Prop where
  sent : before.sent = true → after.sent = true
  dropped : before.dropped = true → after.dropped = true
  waiting
    : (before.sent = true → before.message ≠ none)
      → after.sent = true → after.message ≠ none
  broken : before.Broken → after.Broken

theorem SenderStep.refl (channel : OneShot α) : SenderStep channel channel :=
  ⟨id, id, id, id⟩

theorem senderStep_send (channel : OneShot α) (message : α)
    : SenderStep channel (channel.send message) := by
  rw [send]
  split
  next => exact .refl channel
  next free =>
    obtain ⟨unsent, there⟩ : channel.sent = false ∧ channel.dropped = false := by
      simpa using free
    refine ⟨fun _ => rfl, fun gone => ?_, fun _ _ => nofun, fun ⟨gone, _⟩ => ?_⟩
    · rw [there] at gone
      cases gone
    · rw [there] at gone
      cases gone

/-- A message is sent by the first send, while the sender is there. -/
theorem sent_send (channel : OneShot α) (message : α)
    : (channel.send message).sent = (channel.sent || !channel.dropped) := by
  rw [send]
  cases sent : channel.sent <;> cases dropped : channel.dropped <;> simp [sent]

@[simp] theorem dropped_send (channel : OneShot α) (message : α)
    : (channel.send message).dropped = channel.dropped := by
  rw [send]
  cases sent : channel.sent <;> cases dropped : channel.dropped <;> simp [dropped]

theorem SenderStep.trans {first second third : OneShot α} (earlier : SenderStep first second)
    (later : SenderStep second third)
    : SenderStep first third :=
  ⟨later.sent ∘ earlier.sent, later.dropped ∘ earlier.dropped, later.waiting ∘ earlier.waiting,
    later.broken ∘ earlier.broken⟩

theorem senderStep_dropSender (channel : OneShot α)
    : SenderStep channel channel.dropSender :=
  ⟨id, fun _ => rfl, id, fun ⟨_, unsent⟩ => ⟨rfl, unsent⟩⟩

/-- A sender takes no message. -/
theorem taken_send (channel : OneShot α) (message : α)
    : (channel.send message).Taken ↔ channel.Taken := by
  rw [send]
  split
  next => exact .rfl
  next free =>
    obtain ⟨unsent, _⟩ : channel.sent = false ∧ channel.dropped = false := by simpa using free
    exact iff_of_false (fun taken => nomatch taken.2) (by simp [Taken, unsent])

end OneShot
