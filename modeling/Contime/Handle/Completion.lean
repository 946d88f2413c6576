import Contime.Model.Handles
import Mathlib.Data.Fintype.Card

/-! What the handles of events, snapshots and advances report. A receiver leaves the handle
only with its reply, so that polls neither lose a reply nor wait for one twice.
-/

namespace Contime

open OneShot

variable {replyCount : Nat}

-----------------------------------------------------------------------------------------
-- The receivers that a handle still has
-----------------------------------------------------------------------------------------

/-- Every worker has sent its reply. -/
def Replied (channels : Fin replyCount → OneShot Unit) : Prop :=
  ∀ rx, (channels rx).sent = true

/-- Some worker stopped before it could send its reply. -/
def WorkerDropped (channels : Fin replyCount → OneShot Unit) : Prop :=
  ∃ rx, (channels rx).Broken

/-- Every worker has sent its reply or stopped. -/
def Settled (channels : Fin replyCount → OneShot Unit) : Prop :=
  ∀ rx, (channels rx).sent = true ∨ (channels rx).dropped = true

/-- The receivers of a handle: a reply that was sent waits at its receiver, or the receiver is
gone.
-/
structure Awaits (channels : Fin replyCount → OneShot Unit) (rxs : List (Fin replyCount))
    : Prop where
  distinct : rxs.Nodup
  waiting : ∀ rx ∈ rxs, (channels rx).sent = true → (channels rx).message ≠ none
  removed : ∀ rx, rx ∉ rxs → (channels rx).sent = true

/-- What a poll may report about the workers. -/
structure Reports (result : Except HandleError (Option Unit))
    (channels : Fin replyCount → OneShot Unit)
    : Prop where
  completed : result = .ok (some ()) ↔ Replied channels
  dropped : result = .error .workerDropped ↔ WorkerDropped channels
  pending : result = .ok none ↔ ¬Replied channels ∧ ¬WorkerDropped channels

/-- The senders of the channels did the same. -/
def SameSenders (first second : Fin replyCount → OneShot Unit) : Prop :=
  ∀ rx, (first rx).sent = (second rx).sent ∧ (first rx).dropped = (second rx).dropped

variable {channels after : Fin replyCount → OneShot Unit} {rxs : List (Fin replyCount)}

theorem WorkerDropped.not_replied (dropped : WorkerDropped channels) : ¬Replied channels := by
  obtain ⟨rx, _, unsent⟩ := dropped
  intro replied
  rw [replied rx] at unsent
  cases unsent

theorem SameSenders.refl (channels : Fin replyCount → OneShot Unit)
    : SameSenders channels channels :=
  fun _ => ⟨rfl, rfl⟩

theorem SameSenders.trans {last : Fin replyCount → OneShot Unit}
    (second : SameSenders last after) (first : SameSenders after channels)
    : SameSenders last channels :=
  fun rx => ⟨(second rx).1.trans (first rx).1, (second rx).2.trans (first rx).2⟩

theorem SameSenders.replied (same : SameSenders after channels)
    : Replied after ↔ Replied channels :=
  forall_congr' fun rx => by rw [(same rx).1]

theorem SameSenders.workerDropped (same : SameSenders after channels)
    : WorkerDropped after ↔ WorkerDropped channels :=
  exists_congr fun rx => by rw [Broken, Broken, (same rx).1, (same rx).2]

theorem Reports.of_sameSenders {result : Except HandleError (Option Unit)}
    (reports : Reports result after) (same : SameSenders after channels)
    : Reports result channels := by
  obtain ⟨completed, dropped, pending⟩ := reports
  rw [same.replied] at completed pending
  rw [same.workerDropped] at dropped pending
  exact ⟨completed, dropped, pending⟩

/-- With every reply received, the poll reports completion. -/
theorem Reports.of_replied (replied : Replied channels) : Reports (.ok (some ())) channels := by
  have none : ¬WorkerDropped channels := fun dropped => dropped.not_replied replied
  exact ⟨by simp [replied], by simp [none], by simp [replied]⟩

theorem Reports.of_dropped (dropped : WorkerDropped channels)
    : Reports (.error .workerDropped) channels :=
  ⟨by simp [dropped.not_replied], by simp [dropped], by simp [dropped]⟩

theorem Reports.of_pending (unreplied : ¬Replied channels) (none : ¬WorkerDropped channels)
    : Reports (.ok .none) channels :=
  ⟨by simp [unreplied], by simp [none], by simp [unreplied, none]⟩

/-- At first every receiver is there and nothing was sent. -/
theorem awaits_new : Awaits (fun _ => .new) (List.finRange replyCount) where
  distinct := List.nodup_finRange replyCount
  waiting _ _ sent := by cases sent
  removed rx missing := absurd (List.mem_finRange rx) missing

/-- A handle never has more receivers than there are replies. -/
theorem Awaits.length_le (awaits : Awaits channels rxs) : rxs.length ≤ replyCount := by
  simpa using awaits.distinct.length_le_card

/-- Where a receiver of the handle finds nothing, nothing was sent. -/
theorem Awaits.unsent {rx : Fin replyCount} (awaits : Awaits channels rxs) (member : rx ∈ rxs)
    (nothing : (channels rx).message = none)
    : (channels rx).sent = false :=
  Bool.eq_false_iff.mpr fun sent => awaits.waiting rx member sent nothing

/-- The receiver of a reply that was received is removed. -/
theorem Awaits.receive {rx : Fin replyCount} {rest : List (Fin replyCount)}
    {taken : OneShot Unit} (awaits : Awaits channels rxs) (removes : (rx :: rest).Perm rxs)
    (sent : (channels rx).sent = true) (sameSent : taken.sent = (channels rx).sent)
    : Awaits (Function.update channels rx taken) rest := by
  obtain ⟨fresh, distinct⟩ := List.nodup_cons.mp (removes.nodup_iff.mpr awaits.distinct)
  refine ⟨distinct, ?_, ?_⟩
  · intro other member
    have ne : other ≠ rx := by
      intro same
      exact fresh (same ▸ member)
    rw [Function.update_of_ne ne]
    exact awaits.waiting other (removes.mem_iff.mp (.tail _ member))
  · intro other missing
    by_cases same : other = rx
    · rw [same, Function.update_self, sameSent, sent]
    · rw [Function.update_of_ne same]
      apply awaits.removed
      intro member
      cases removes.mem_iff.mpr member with
      | head => exact same rfl
      | tail _ member => exact missing member

/-- A receive leaves what the senders did. -/
theorem sameSenders_update {rx : Fin replyCount} {taken : OneShot Unit}
    (sent : taken.sent = (channels rx).sent) (dropped : taken.dropped = (channels rx).dropped)
    : SameSenders (Function.update channels rx taken) channels := by
  apply (Function.forall_update_iff channels fun other channel =>
    channel.sent = (channels other).sent ∧ channel.dropped = (channels other).dropped).mpr
  exact ⟨⟨sent, dropped⟩, fun _ _ => ⟨rfl, rfl⟩⟩

-----------------------------------------------------------------------------------------
-- A poll
-----------------------------------------------------------------------------------------

/-- From any index on, the loop keeps the receivers of missing replies and reports as the
workers stand, provided that the receivers before the index still wait.
-/
theorem tryRecvLoop_spec {i : Nat} (awaits : Awaits channels rxs)
    (passed : ∀ rx ∈ rxs.take i, (channels rx).sent = false ∧ (channels rx).dropped = false)
    : Awaits (tryRecvLoop channels rxs i).channels (tryRecvLoop channels rxs i).rxs
      ∧ SameSenders (tryRecvLoop channels rxs i).channels channels
      ∧ Reports (tryRecvLoop channels rxs i).result channels := by
  fun_induction tryRecvLoop channels rxs i with
  | case1 channels rxs i inside taken received ih =>
      rcases (channels rxs[i]).tryRecv_cases with
        ⟨_, other, takes, waits, _, sameSent, sameDropped⟩ | ⟨fails, _⟩ | ⟨fails, _⟩
      · obtain rfl : other = taken := by simpa [takes] using received
        have sent : (channels rxs[i]).sent = true := sent_of_message waits
        have same : SameSenders (Function.update channels rxs[i] other) channels :=
          sameSenders_update sameSent sameDropped
        obtain ⟨held, senders, reports⟩ :=
          ih (awaits.receive (swapRemove_perm inside) sent sameSent) (by
            intro rx member
            rw [take_swapRemove inside] at member
            rw [(same rx).1, (same rx).2]
            exact passed rx member)
        exact ⟨held, senders.trans same, reports.of_sameSenders same⟩
      · simp [fails] at received
      · simp [fails] at received
  | case2 channels rxs i inside other empty ih =>
      rcases (channels rxs[i]).tryRecv_cases with
        ⟨_, _, takes, _⟩ | ⟨fails, _⟩ | ⟨_, nothing, there⟩
      · simp [takes] at empty
      · simp [fails] at empty
      · apply ih awaits
        intro rx member
        rw [List.take_succ_eq_append_getElem inside] at member
        rcases List.mem_append.mp member with earlier | own
        · exact passed rx earlier
        · cases List.mem_singleton.mp own
          exact ⟨awaits.unsent (List.getElem_mem inside) nothing, there⟩
  | case3 channels rxs i inside other disconnected =>
      rcases (channels rxs[i]).tryRecv_cases with
        ⟨_, _, takes, _⟩ | ⟨_, nothing, gone⟩ | ⟨fails, _⟩
      · simp [takes] at disconnected
      · have unsent := awaits.unsent (List.getElem_mem inside) nothing
        exact ⟨awaits, .refl channels, .of_dropped ⟨rxs[i], gone, unsent⟩⟩
      · simp [fails] at disconnected
  | case4 channels rxs i outside none =>
      rw [List.isEmpty_iff] at none
      subst none
      exact ⟨awaits, .refl channels,
        .of_replied fun rx => awaits.removed rx List.not_mem_nil⟩
  | case5 channels rxs i outside some =>
      rw [List.take_of_length_le (Nat.not_lt.mp outside)] at passed
      refine ⟨awaits, .refl channels, .of_pending ?_ ?_⟩
      · obtain ⟨rx, member⟩ := List.exists_mem_of_ne_nil rxs (by simpa using some)
        intro replied
        have unsent := (passed rx member).1
        rw [replied rx] at unsent
        cases unsent
      · intro ⟨rx, gone, unsent⟩
        by_cases member : rx ∈ rxs
        · rw [(passed rx member).2] at gone
          cases gone
        · rw [awaits.removed rx member] at unsent
          cases unsent

/-- A poll keeps the receivers of missing replies and reports as the workers stand. -/
theorem poll_spec (awaits : Awaits channels rxs)
    : Awaits (tryRecvLoop channels rxs 0).channels (tryRecvLoop channels rxs 0).rxs
      ∧ SameSenders (tryRecvLoop channels rxs 0).channels channels
      ∧ Reports (tryRecvLoop channels rxs 0).result channels :=
  tryRecvLoop_spec awaits (by simp)

/-- One iteration of `wait` takes a reply, or returns as the workers stand, or waits for one
that is neither sent nor given up.
-/
theorem waitLoop_spec (awaits : Awaits channels rxs)
    : (waitLoop channels rxs = (channels, .returned (.ok ())) ∧ Replied channels)
      ∨ (waitLoop channels rxs = (channels, .returned (.error .workerDropped))
        ∧ WorkerDropped channels)
      ∨ (∃ after rest,
          waitLoop channels rxs = (after, .receiving rest)
          ∧ Awaits after rest
          ∧ SameSenders after channels
          ∧ rest.length + 1 = rxs.length)
      ∨ (waitLoop channels rxs = (channels, .receiving rxs) ∧ ¬Settled channels) := by
  cases rxs with
  | nil => exact Or.inl ⟨rfl, fun rx => awaits.removed rx List.not_mem_nil⟩
  | cons rx rest =>
      rw [waitLoop]
      rcases (channels rx).recv_cases with
        ⟨_, taken, takes, waits, _, sent, dropped⟩ | ⟨fails, nothing, gone⟩
          | ⟨blocks, nothing, there⟩
      · rw [takes]
        exact Or.inr (Or.inr (Or.inl ⟨_, rest, rfl,
          awaits.receive (List.Perm.refl _) (sent_of_message waits) sent,
          sameSenders_update sent dropped, rfl⟩))
      · rw [fails]
        exact Or.inr (Or.inl ⟨rfl, rx, gone, awaits.unsent (.head _) nothing⟩)
      · rw [blocks]
        refine Or.inr (Or.inr (Or.inr ⟨rfl, fun settled => ?_⟩))
        rcases settled rx with sent | gone
        · exact awaits.waiting rx (.head _) sent nothing
        · rw [there] at gone
          cases gone

/-- The handle is consumed. -/
def HandleClient.Waits : HandleClient replyCount → Prop
  | .holdsApply _ | .holdsAdvance _ => False
  | .receiving _ | .returned _ => True

/-- An iteration of `wait` never gives the handle back. -/
theorem waitLoop_waits (channels : Fin replyCount → OneShot Unit)
    (rxs : List (Fin replyCount))
    : (waitLoop channels rxs).2.Waits := by
  cases rxs with
  | nil => trivial
  | cons rx rest =>
      rw [waitLoop]
      split <;> trivial

-----------------------------------------------------------------------------------------
-- Runs of the workers and the client
-----------------------------------------------------------------------------------------

/-- The senders of the channels went on: a reply stays sent and a sender that is gone stays
gone.
-/
def SendersAdvance (before after : Fin replyCount → OneShot Unit) : Prop :=
  ∀ rx, ((before rx).sent = true → (after rx).sent = true)
    ∧ ((before rx).dropped = true → (after rx).dropped = true)

theorem SendersAdvance.refl (channels : Fin replyCount → OneShot Unit)
    : SendersAdvance channels channels :=
  fun _ => ⟨id, id⟩

theorem SendersAdvance.trans {last : Fin replyCount → OneShot Unit}
    (first : SendersAdvance channels after) (second : SendersAdvance after last)
    : SendersAdvance channels last :=
  fun rx => ⟨(second rx).1 ∘ (first rx).1, (second rx).2 ∘ (first rx).2⟩

theorem SameSenders.advance (same : SameSenders after channels)
    : SendersAdvance channels after := by
  intro rx
  rw [(same rx).1, (same rx).2]
  exact ⟨id, id⟩

theorem Replied.advance (replied : Replied channels) (advance : SendersAdvance channels after)
    : Replied after :=
  fun rx => (advance rx).1 (replied rx)

theorem Settled.advance (settled : Settled channels) (advance : SendersAdvance channels after)
    : Settled after :=
  fun rx => (settled rx).imp (advance rx).1 (advance rx).2

/-- The client can still receive every reply that it has to wait for, and what `wait` returned
is how the workers stand.
-/
def HandleClient.Sound (channels : Fin replyCount → OneShot Unit)
    : HandleClient replyCount → Prop
  | .holdsApply handle => Awaits channels handle.rxs
  | .holdsAdvance handle => Awaits channels handle.rxs
  | .receiving rxs => Awaits channels rxs
  | .returned (.ok ()) => Replied channels
  | .returned (.error .workerDropped) => WorkerDropped channels

/-- A step of one sender is at most a step of every sender. -/
theorem senderStep_update {rx : Fin replyCount} {sender : OneShot Unit}
    (step : SenderStep (channels rx) sender) (other : Fin replyCount)
    : SenderStep (channels other) (Function.update channels rx sender other) := by
  revert other
  apply (Function.forall_update_iff channels fun other => SenderStep (channels other)).mpr
  exact ⟨step, fun _ _ => .refl _⟩

section
variable (steps : ∀ rx, SenderStep (channels rx) (after rx))
include steps

theorem sendersAdvance_of_steps : SendersAdvance channels after :=
  fun rx => ⟨(steps rx).sent, (steps rx).dropped⟩

theorem Awaits.senderSteps (awaits : Awaits channels rxs) : Awaits after rxs where
  distinct := awaits.distinct
  waiting rx member := (steps rx).waiting (awaits.waiting rx member)
  removed rx missing := (steps rx).sent (awaits.removed rx missing)

theorem WorkerDropped.senderSteps (dropped : WorkerDropped channels) : WorkerDropped after :=
  dropped.imp fun rx => (steps rx).broken

/-- Steps of the workers keep what the client relies on. -/
theorem HandleClient.Sound.senderSteps {client : HandleClient replyCount}
    (sound : client.Sound channels)
    : client.Sound after := by
  cases client with
  | holdsApply handle => exact Awaits.senderSteps steps sound
  | holdsAdvance handle => exact Awaits.senderSteps steps sound
  | receiving rxs => exact Awaits.senderSteps steps sound
  | returned result =>
      cases result with
      | ok => exact Replied.advance sound (sendersAdvance_of_steps steps)
      | error => exact WorkerDropped.senderSteps steps sound

end

namespace HandleState
variable {state : HandleState replyCount}

def Sound (state : HandleState replyCount) : Prop := state.client.Sound state.channels

/-- A poll keeps what the client relies on and reports as the workers stand. -/
theorem tryRecv_spec (sound : state.Sound)
    : state.tryRecv.1.Sound
      ∧ SameSenders state.tryRecv.1.channels state.channels
      ∧ ∀ result, state.tryRecv.2 = some result → Reports result state.channels := by
  obtain ⟨channels, client⟩ := state
  cases client with
  | holdsApply handle =>
      obtain ⟨awaits, senders, reports⟩ := poll_spec sound
      exact ⟨awaits, senders, fun result returned => Option.some.inj returned ▸ reports⟩
  | holdsAdvance handle =>
      obtain ⟨awaits, senders, reports⟩ := poll_spec sound
      exact ⟨awaits, senders, fun result returned => Option.some.inj returned ▸ reports⟩
  | receiving rxs => exact ⟨sound, .refl channels, nofun⟩
  | returned result => exact ⟨sound, .refl channels, nofun⟩

/-- Every step keeps what the client relies on, and no step takes back what a worker did. -/
theorem step_spec (sound : state.Sound) (action : HandleAction replyCount)
    : (state.step action).1.Sound
      ∧ SendersAdvance state.channels (state.step action).1.channels := by
  cases action with
  | reply rx =>
      have steps := senderStep_update (senderStep_send (state.channels rx) ())
      exact ⟨HandleClient.Sound.senderSteps steps sound, sendersAdvance_of_steps steps⟩
  | dropSender rx =>
      have steps := senderStep_update (senderStep_dropSender (state.channels rx))
      exact ⟨HandleClient.Sound.senderSteps steps sound, sendersAdvance_of_steps steps⟩
  | tryRecv =>
      obtain ⟨kept, senders, _⟩ := tryRecv_spec sound
      exact ⟨kept, senders.advance⟩
  | wait =>
      obtain ⟨channels, client⟩ := state
      cases client <;> exact ⟨sound, .refl channels⟩
  | recv =>
      obtain ⟨channels, client⟩ := state
      cases client with
      | receiving rxs =>
          rw [step, recv]
          dsimp only
          rcases waitLoop_spec sound with
            ⟨returns, replied⟩ | ⟨fails, dropped⟩ | ⟨after, rest, takes, awaits, senders, _⟩
              | ⟨blocks, _⟩
          · rw [returns]
            exact ⟨replied, .refl channels⟩
          · rw [fails]
            exact ⟨dropped, .refl channels⟩
          · rw [takes]
            exact ⟨awaits, senders.advance⟩
          · rw [blocks]
            exact ⟨sound, .refl channels⟩
      | holdsApply handle => exact ⟨sound, .refl channels⟩
      | holdsAdvance handle => exact ⟨sound, .refl channels⟩
      | returned result => exact ⟨sound, .refl channels⟩

/-- Only the workers send and drop senders. -/
theorem sameSenders_step (sound : state.Sound) {action : HandleAction replyCount}
    (own : action = .tryRecv ∨ action = .wait ∨ action = .recv)
    : SameSenders (state.step action).1.channels state.channels := by
  rcases own with rfl | rfl | rfl
  · exact (tryRecv_spec sound).2.1
  · obtain ⟨channels, client⟩ := state
    cases client <;> exact .refl channels
  · obtain ⟨channels, client⟩ := state
    cases client with
    | receiving rxs =>
        rw [step, recv]
        dsimp only
        rcases waitLoop_spec sound with
          ⟨returns, _⟩ | ⟨fails, _⟩ | ⟨after, rest, takes, _, senders, _⟩ | ⟨blocks, _⟩
        · rw [returns]
          exact .refl channels
        · rw [fails]
          exact .refl channels
        · rw [takes]
          exact senders
        · rw [blocks]
          exact .refl channels
    | holdsApply | holdsAdvance | returned => exact .refl channels

/-- The client relies on nothing that is not so, after every run. -/
theorem sound_run (sound : state.Sound) (actions : List (HandleAction replyCount))
    : (state.run actions).Sound := by
  have kept (state : HandleState replyCount) (action : HandleAction replyCount)
      (sound : state.Sound)
      : (state.step action).1.Sound :=
    (step_spec sound action).1
  exact Transducer.final_invariant kept sound actions

/-- What the workers did stays done. -/
theorem advance_run (sound : state.Sound) (actions : List (HandleAction replyCount))
    : SendersAdvance state.channels (state.run actions).channels := by
  induction actions generalizing state with
  | nil => exact .refl state.channels
  | cons action rest ih =>
      obtain ⟨kept, first⟩ := step_spec sound action
      exact first.trans (ih kept)

/-- No step gives a lost sender back. -/
theorem workerDropped_step (sound : state.Sound) (dropped : WorkerDropped state.channels)
    (action : HandleAction replyCount)
    : WorkerDropped (state.step action).1.channels := by
  cases action with
  | reply rx =>
      exact dropped.senderSteps (senderStep_update (senderStep_send (state.channels rx) ()))
  | dropSender rx =>
      exact dropped.senderSteps (senderStep_update (senderStep_dropSender (state.channels rx)))
  | tryRecv =>
      obtain ⟨_, senders, _⟩ := tryRecv_spec sound
      exact senders.workerDropped.mpr dropped
  | wait =>
      obtain ⟨channels, client⟩ := state
      cases client <;> exact dropped
  | recv =>
      obtain ⟨channels, client⟩ := state
      cases client with
      | receiving rxs =>
          rw [step, recv]
          dsimp only
          rcases waitLoop_spec sound with
            ⟨returns, _⟩ | ⟨fails, _⟩ | ⟨after, rest, takes, _, senders, _⟩ | ⟨blocks, _⟩
          · rw [returns]
            exact dropped
          · rw [fails]
            exact dropped
          · rw [takes]
            exact senders.workerDropped.mpr dropped
          · rw [blocks]
            exact dropped
      | holdsApply | holdsAdvance | returned => exact dropped

/-- A sender that is gone without its reply stays so. -/
theorem workerDropped_run (sound : state.Sound) (dropped : WorkerDropped state.channels)
    (actions : List (HandleAction replyCount))
    : WorkerDropped (state.run actions).channels := by
  have kept (state : HandleState replyCount) (action : HandleAction replyCount)
      (holds : state.Sound ∧ WorkerDropped state.channels)
      : (state.step action).1.Sound ∧ WorkerDropped (state.step action).1.channels := by
    obtain ⟨sound, dropped⟩ := holds
    exact ⟨(step_spec sound action).1, workerDropped_step sound dropped action⟩
  exact (Transducer.final_invariant kept ⟨sound, dropped⟩ actions).2

@[simp] theorem run_append (first second : List (HandleAction replyCount))
    : state.run (first ++ second) = (state.run first).run second :=
  Transducer.final_append state first second

@[simp] theorem run_cons (action : HandleAction replyCount)
    (rest : List (HandleAction replyCount))
    : state.run (action :: rest) = (state.step action).1.run rest := rfl

/-- Only a call of `wait` consumes the handle. -/
theorem step_waits {action : HandleAction replyCount}
    : (state.step action).1.client.Waits ↔ state.client.Waits ∨ action = .wait := by
  obtain ⟨channels, client⟩ := state
  cases client with
  | holdsApply handle =>
      cases action <;> simp [step, tryRecv, wait, recv, ApplyHandle.wait, HandleClient.Waits]
  | holdsAdvance handle =>
      cases action <;> simp [step, tryRecv, wait, recv, AdvanceHandle.wait, HandleClient.Waits]
  | receiving rxs =>
      refine iff_of_true ?_ (Or.inl trivial)
      cases action with
      | recv => exact waitLoop_waits channels rxs
      | reply | dropSender | tryRecv | wait => trivial
  | returned result =>
      refine iff_of_true ?_ (Or.inl trivial)
      cases action <;> trivial

theorem run_waits {actions : List (HandleAction replyCount)}
    : (state.run actions).client.Waits ↔ state.client.Waits ∨ .wait ∈ actions := by
  induction actions generalizing state with
  | nil => simp [run]
  | cons action rest ih =>
      rw [run_cons, ih, step_waits, or_assoc, List.mem_cons, eq_comm]

/-- Polls return as long as the handle is there. -/
theorem tryRecv_eq_none : state.tryRecv.2 = none ↔ state.client.Waits := by
  obtain ⟨channels, client⟩ := state
  cases client with
  | holdsApply handle => exact iff_of_false nofun id
  | holdsAdvance handle => exact iff_of_false nofun id
  | receiving rxs => exact iff_of_true rfl trivial
  | returned result => exact iff_of_true rfl trivial

/-- The call of `wait` needs at most this many further iterations once every worker has replied
or stopped.
-/
def Within (state : HandleState replyCount) (iterations : Nat) : Prop :=
  match state.client with
  | .holdsApply _ | .holdsAdvance _ => False
  | .receiving rxs => rxs.length < iterations
  | .returned _ => True

/-- Among settled workers every iteration of `wait` brings its return nearer. -/
theorem within_recv {iterations : Nat} (sound : state.Sound) (settled : Settled state.channels)
    (within : state.Within (iterations + 1))
    : state.recv.Within iterations := by
  obtain ⟨channels, client⟩ := state
  cases client with
  | holdsApply handle => exact within
  | holdsAdvance handle => exact within
  | receiving rxs =>
      rw [recv]
      dsimp only
      rcases waitLoop_spec sound with
        ⟨returns, _⟩ | ⟨fails, _⟩ | ⟨after, rest, takes, _, _, shorter⟩ | ⟨_, unsettled⟩
      · rw [returns]
        trivial
      · rw [fails]
        trivial
      · have longer : rxs.length < iterations + 1 := within
        rw [takes]
        exact (by omega : rest.length < iterations)
      · exact absurd settled unsettled
  | returned result => trivial

theorem within_step {iterations : Nat} {action : HandleAction replyCount}
    (within : state.Within iterations) (other : action ≠ .recv)
    : (state.step action).1.Within iterations := by
  obtain ⟨channels, client⟩ := state
  cases client with
  | holdsApply handle => exact within.elim
  | holdsAdvance handle => exact within.elim
  | receiving rxs =>
      cases action with
      | recv => exact absurd rfl other
      | reply | dropSender | tryRecv | wait => exact within
  | returned result => cases action <;> trivial

/-- Among settled workers `wait` returns after enough iterations, whatever else happens. -/
theorem returned_of_settled {later : List (HandleAction replyCount)} (sound : state.Sound)
    (settled : Settled state.channels) (within : state.Within (later.count .recv))
    : ∃ result, (state.run later).client = .returned result := by
  induction later generalizing state with
  | nil =>
      obtain ⟨channels, client⟩ := state
      cases client with
      | holdsApply handle => exact within.elim
      | holdsAdvance handle => exact within.elim
      | receiving rxs => exact absurd within (Nat.not_lt_zero _)
      | returned result => exact ⟨result, rfl⟩
  | cons action rest ih =>
      obtain ⟨kept, advance⟩ := step_spec sound action
      apply ih kept (settled.advance advance)
      by_cases receives : action = .recv
      · subst receives
        rw [List.count_cons_self] at within
        exact within_recv sound settled within
      · rw [List.count_cons_of_ne receives] at within
        exact within_step within receives

/-- A call of `wait` never has more iterations before it than there are replies. -/
theorem within_of_waits {iterations : Nat} (sound : state.Sound) (waits : state.client.Waits)
    (enough : replyCount < iterations)
    : state.Within iterations := by
  obtain ⟨channels, client⟩ := state
  cases client with
  | holdsApply handle => exact waits
  | holdsAdvance handle => exact waits
  | receiving rxs => exact Nat.lt_of_le_of_lt (Awaits.length_le sound) enough
  | returned result => trivial

/-- In every run, polls and `wait` report as the workers stand, polls after completion report it
again, and `wait` returns once every worker has replied or stopped.
-/
structure Truthful (start : HandleState replyCount) : Prop where
  polls
    : ∀ actions result, (start.run actions).tryRecv.2 = some result →
      Reports result (start.run actions).channels
  returns
    : ∀ actions, .wait ∉ actions → (start.run actions).tryRecv.2 ≠ none
  again
    : ∀ actions later, .wait ∉ later →
      (start.run actions).tryRecv.2 = some (.ok (some ())) →
      (start.run (actions ++ .tryRecv :: later)).tryRecv.2 = some (.ok (some ()))
  waited
    : ∀ actions result, (start.run actions).client = .returned result →
      (result = .ok () ↔ Replied (start.run actions).channels)
      ∧ (result = .error .workerDropped ↔ WorkerDropped (start.run actions).channels)
  waits
    : ∀ actions later, .wait ∈ actions → Settled (start.run actions).channels →
      replyCount < later.count .recv →
      ∃ result, (start.run (actions ++ later)).client = .returned result

/-- A state from which nothing was called yet is truthful when its handle has all receivers
that it needs.
-/
theorem truthful_of_holding (sound : state.Sound) (holding : ¬state.client.Waits)
    : state.Truthful where
  polls actions := (tryRecv_spec (sound_run sound actions)).2.2
  returns actions other := by
    rw [Ne, tryRecv_eq_none, run_waits, not_or]
    exact ⟨holding, other⟩
  again actions later other := by
    intro completed
    have now := sound_run sound actions
    have replied := ((tryRecv_spec now).2.2 _ completed).completed.mp rfl
    have final := sound_run now (.tryRecv :: later)
    have still : Replied ((state.run actions).run (.tryRecv :: later)).channels :=
      replied.advance (advance_run now (.tryRecv :: later))
    have there : ¬(state.run actions).client.Waits := by
      rw [← tryRecv_eq_none, completed]
      exact nofun
    rw [run_append]
    cases polled : ((state.run actions).run (.tryRecv :: later)).tryRecv.2 with
    | none =>
        rw [tryRecv_eq_none, run_waits] at polled
        simp [there, other] at polled
    | some result =>
        rw [((tryRecv_spec final).2.2 result polled).completed.mpr still]
  waited actions result := by
    intro returned
    have sound := sound_run sound actions
    rw [Sound, returned] at sound
    cases result with
    | ok =>
        have replied : Replied (state.run actions).channels := sound
        have none : ¬WorkerDropped (state.run actions).channels :=
          fun dropped => dropped.not_replied replied
        exact ⟨by simp [replied], by simp [none]⟩
    | error =>
        have dropped : WorkerDropped (state.run actions).channels := sound
        exact ⟨by simp [dropped.not_replied], by simp [dropped]⟩
  waits actions later called settled enough := by
    have now := sound_run sound actions
    rw [run_append]
    exact returned_of_settled now settled
      (within_of_waits now (run_waits.mpr (Or.inr called)) enough)

end HandleState

/-- The handles of applies and of advances report completion truthfully. By induction over the
steps of senders and clients: a handle awaits what its senders still owe.
-/
theorem completion_handles_truthful (replyCount : Nat)
    : (HandleState.ofApply replyCount).Truthful
      ∧ (HandleState.ofAdvance replyCount).Truthful :=
  ⟨HandleState.truthful_of_holding awaits_new id, HandleState.truthful_of_holding awaits_new id⟩

end Contime
