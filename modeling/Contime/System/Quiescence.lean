import Contime.System.Memory
import Contime.Worker.Costs
import Contime.Library.Exchange

/-! What is under way between clients and workers. A message that was sent and is not answered is
with its worker, so that once all calls have returned no worker has anything left to do.
-/

open scoped BigOperators

namespace Contime

universe u v
variable {SL : Type u} {EL : Type v} {router : Router}

-----------------------------------------------------------------------------------------
-- Calls and workers
-----------------------------------------------------------------------------------------

/-- A step that starts a call of messages that mutate. -/
def Action.Mutates : Action router SL EL → Prop
  | .sendEvent _ | .sendSnapshot _ | .sendAdvance _ => True
  | .queryAt _ _ | .enqueue _ | .handle _ _ | .commit _ | .respond _ => False

/-- The messages that a call has still to send. -/
def Call.pending (call : Call router SL EL) : List (Fin router.workerCount × WorkerInbound SL EL) :=
  if call.error = none then call.messages.drop call.sent else []

/-- How many messages of a call are sent and not answered. -/
def Call.outstanding (call : Call router SL EL) : Int :=
  call.sent - call.replies.countP Option.isSome

/-- A call of messages that mutate, which sends nothing once it was turned away. -/
structure Call.Sound (call : Call router SL EL) : Prop where
  mutates : ∀ entry ∈ call.messages, entry.2.Mutates
  complete : call.replies.length = call.messages.length
  failed : call.error ≠ none → call.sent = 0

/-- A client has the handle's result: the call was turned away, or all replies are there. -/
def Call.Returned (call : Call router SL EL) : Prop := call.error ≠ none ∨ call.Completed

instance [DecidableEq SL] (call : Call router SL EL) : Decidable call.Returned :=
  inferInstanceAs (Decidable (_ ∨ _))

/-- A call that has returned has nothing left to send. -/
theorem Call.Returned.pending_eq_nil {call : Call router SL EL} (returned : call.Returned)
    : call.pending = [] := by
  rcases returned with failed | ⟨accepted, sent, _⟩
  · exact if_neg failed
  · rw [Call.pending, if_pos accepted, sent, List.drop_length]

/-- A sound call that has returned has no message under way. -/
theorem Call.Sound.outstanding_nonpos {call : Call router SL EL} (sound : call.Sound)
    (returned : call.Returned)
    : call.outstanding ≤ 0 := by
  rcases returned with failed | ⟨_, sent, replied⟩
  · rw [Call.outstanding, sound.failed failed]
    omega
  · have all : call.replies.countP Option.isSome = call.replies.length :=
      List.countP_eq_length.mpr (fun reply member =>
        Option.isSome_iff_ne_none.mpr (replied reply member))
    rw [Call.outstanding, all, sound.complete, sent]
    omega

/-- A reply answers at most one message. -/
theorem Call.outstanding_answered (call : Call router SL EL) (position : Nat) (reply : Reply SL)
    : call.outstanding
      ≤ Call.outstanding { call with replies := call.replies.set position (some reply) } + 1 := by
  have answers : (call.replies.set position (some reply)).countP Option.isSome
      ≤ call.replies.countP Option.isSome + 1 := by
    by_cases inside : position < call.replies.length
    · rw [List.countP_set inside]
      split <;> split <;> omega
    · rw [List.set_eq_of_length_le (Nat.le_of_not_lt inside)]
      omega
  simp only [Call.outstanding]
  omega

/-- How many messages are with a worker. -/
def WorkerState.load (state : WorkerState SL EL) : Nat :=
  state.inbound.length + state.reply.toList.length

/-- A worker that only has messages that mutate, and deltas only of the message in hand. -/
structure WorkerState.Sound (state : WorkerState SL EL) : Prop where
  running : state.stopped = false
  mutates : ∀ message ∈ state.inbound, message.Mutates
  settled : state.reply = none → state.deltas = []

/-- A worker that waits for a message. -/
structure WorkerState.Idle (state : WorkerState SL EL) : Prop where
  inbound : state.inbound = []
  deltas : state.deltas = []
  reply : state.reply = none

/-- A sound worker without messages is idle. -/
theorem WorkerState.Sound.idle {state : WorkerState SL EL} (sound : state.Sound)
    (empty : state.load = 0)
    : state.Idle := by
  obtain ⟨inbound, reply⟩ := Nat.add_eq_zero_iff.mp empty
  have none : state.reply = none := by simpa using reply
  exact ⟨List.length_eq_zero_iff.mp inbound, sound.settled none, none⟩

namespace System
variable {system : System router SL EL}

/-- Every client has the result of each of its calls. -/
def Returned (system : System router SL EL) : Prop := ∀ call ∈ system.calls, call.Returned

instance [DecidableEq SL] (system : System router SL EL) : Decidable system.Returned :=
  inferInstanceAs (Decidable (∀ call ∈ system.calls, call.Returned))

/-- Calls and workers are sound, and what the workers have is sent and not answered. -/
structure Flowing (system : System router SL EL) : Prop where
  workers : ∀ worker, (system.workers worker).Sound
  calls : ∀ call ∈ system.calls, call.Sound
  flow
    : ((∑ worker, (system.workers worker).load : Nat) : Int)
      ≤ (system.calls.map Call.outstanding).sum

theorem flowing_new : (new : System router SL EL).Flowing := by
  refine ⟨fun _ => ⟨rfl, fun _ member => absurd member List.not_mem_nil, fun _ => rfl⟩,
    fun _ member => absurd member List.not_mem_nil, ?_⟩
  simp [new, WorkerState.load]

/-- Once all calls have returned, all workers are idle. -/
theorem Flowing.idle (flowing : system.Flowing) (returned : system.Returned)
    (worker : Fin router.workerCount)
    : (system.workers worker).Idle := by
  have nothing : (system.calls.map Call.outstanding).sum ≤ 0 := by
    refine Exchange.sum_nonpos ?_
    intro outstanding member
    obtain ⟨call, listed, rfl⟩ := List.mem_map.mp member
    exact (flowing.calls call listed).outstanding_nonpos (returned call listed)
  have most : (system.workers worker).load ≤ ∑ other, (system.workers other).load :=
    Finset.single_le_sum (f := fun other => (system.workers other).load)
      (fun _ _ => Nat.zero_le _) (Finset.mem_univ worker)
  have flow := flowing.flow
  exact (flowing.workers worker).idle (by omega)

-----------------------------------------------------------------------------------------
-- Steps
-----------------------------------------------------------------------------------------

/-- Starting a call of sound messages sends none of them. -/
theorem Flowing.start (flowing : system.Flowing) {after : System router SL EL}
    {call : Call router SL EL} (workers : after.workers = system.workers)
    (calls : after.calls = system.calls ++ [call]) (sound : call.Sound) (unsent : call.sent = 0)
    (unanswered : ∀ reply ∈ call.replies, reply = none)
    : after.Flowing := by
  have none : call.replies.countP Option.isSome = 0 := by
    refine List.countP_eq_zero.mpr (fun reply member => ?_)
    simp [unanswered reply member]
  refine ⟨workers ▸ flowing.workers, ?_, ?_⟩
  · intro other member
    rw [calls] at member
    rcases List.mem_append.mp member with old | last
    · exact flowing.calls other old
    · exact List.mem_singleton.mp last ▸ sound
  · rw [workers, calls, List.map_append, List.sum_append, List.map_singleton, List.sum_singleton,
      Call.outstanding, unsent, none]
    have flow := flowing.flow
    omega

/-- A step of one worker and one call keeps the flow if the worker gains no more messages than
the call has outstanding ones.
-/
theorem Flowing.update (flowing : system.Flowing) {after : System router SL EL}
    {worker : Fin router.workerCount} {state : WorkerState SL EL} {index : Nat}
    {change : Call router SL EL → Call router SL EL}
    (workers : after.workers = Function.update system.workers worker state)
    (calls : after.calls = system.calls.modify index change) (sound : state.Sound)
    (kept : ∀ call, system.calls[index]? = some call → call.Sound → (change call).Sound)
    (gains : (state.load : Int) + (system.calls.map Call.outstanding).sum
      ≤ (system.workers worker).load + (after.calls.map Call.outstanding).sum)
    : after.Flowing := by
  refine ⟨fun other => ?_, fun call member => ?_, ?_⟩
  · by_cases own : other = worker
    · subst own
      rwa [workers, Function.update_self]
    · rw [workers, Function.update_of_ne own]
      exact flowing.workers other
  · rw [calls] at member
    obtain ⟨position, listed⟩ := List.mem_iff_getElem?.mp member
    rw [List.getElem?_modify] at listed
    split at listed
    next own =>
      subst own
      obtain ⟨before, found, rfl⟩ := Option.map_eq_some_iff.mp listed
      exact kept before found (flowing.calls before (List.mem_of_getElem? found))
    next => exact flowing.calls call (List.mem_of_getElem? (by simpa using listed))
  · have load := Exchange.sum_update WorkerState.load system.workers worker state
    have flow := flowing.flow
    rw [workers]
    omega

/-- Sending a message moves one that is pending to its worker. -/
theorem Flowing.enqueue_cases (flowing : system.Flowing) (index : Nat)
    : system.enqueue index = (system, false)
      ∨ ∃ call worker message,
          system.calls[index]? = some call
          ∧ call.pending
            = (worker, message) :: Call.pending { call with sent := call.sent + 1 }
          ∧ message.Mutates
          ∧ call.error = none
          ∧ system.enqueue index
            = ({ system.setWorker worker
                    { system.workers worker with
                      inbound := (system.workers worker).inbound ++ [message] } with
                  calls := system.calls.modify index (fun call =>
                    { call with sent := call.sent + 1 }) },
                true) := by
  rcases system.enqueue_cases index with
    same | ⟨call, worker, message, found, accepted, next, ⟨stopped, _⟩ | ⟨_, _, sends⟩⟩
  · exact Or.inl same
  · rw [(flowing.workers worker).running] at stopped
    cases stopped
  · obtain ⟨inside, equal⟩ := List.getElem?_eq_some_iff.mp next
    have sound := flowing.calls call (List.mem_of_getElem? found)
    have mutates : message.Mutates := sound.mutates (worker, message) (List.mem_of_getElem? next)
    refine Or.inr ⟨call, worker, message, found, ?_, mutates, accepted, sends⟩
    rw [Call.pending, Call.pending, if_pos accepted, if_pos accepted,
      List.drop_eq_getElem_cons inside, equal]

theorem Flowing.enqueue (flowing : system.Flowing) (index : Nat)
    : (system.enqueue index).1.Flowing := by
  rcases flowing.enqueue_cases index with
    same | ⟨call, worker, message, found, _, mutates, accepted, sends⟩
  · rwa [same]
  · rw [sends]
    obtain ⟨running, queued, settled⟩ := flowing.workers worker
    have sum := Exchange.sum_modify Call.outstanding (fun call : Call router SL EL =>
      { call with sent := call.sent + 1 }) found
    refine flowing.update rfl rfl ⟨running, ?_, settled⟩ ?_ ?_
    · intro other member
      rcases List.mem_append.mp member with old | last
      · exact queued other old
      · exact List.mem_singleton.mp last ▸ mutates
    · intro other same sound
      obtain rfl : call = other := Option.some.inj (found.symm.trans same)
      exact ⟨sound.mutates, sound.complete, fun failed => absurd accepted failed⟩
    · simp only [WorkerState.load, List.length_append, List.length_singleton, Call.outstanding]
        at sum ⊢
      omega

theorem Flowing.commit (flowing : system.Flowing) (worker : Fin router.workerCount)
    : (system.commit worker).1.Flowing := by
  obtain ⟨running, queued, settled⟩ := flowing.workers worker
  rcases system.commit_cases worker with same | ⟨delta, deltas, pending, commits⟩
  · rwa [same]
  · rw [commits]
    have same : system.calls = system.calls.modify 0 id := (List.modify_id 0 _).symm
    refine flowing.update rfl same ⟨running, queued, ?_⟩ (fun _ _ => id) (Int.le_refl _)
    intro replied
    rw [settled replied] at pending
    cases pending

/-- A reply answers at most one outstanding message. -/
theorem Flowing.respond (flowing : system.Flowing) (worker : Fin router.workerCount)
    : (system.respond worker).1.Flowing := by
  obtain ⟨running, queued, _⟩ := flowing.workers worker
  rcases system.respond_cases worker with same | ⟨channel, reply, committed, inHand, responds⟩
  · rwa [same]
  rw [responds]
  refine flowing.update rfl rfl ⟨running, queued, fun _ => committed⟩ ?_ ?_
  · intro call _ sound
    exact ⟨sound.mutates, by simpa using sound.complete, sound.failed⟩
  · simp only [WorkerState.load, inHand, Option.toList_none, Option.toList_some,
      List.length_nil, List.length_singleton]
    cases found : system.calls[channel.call]? with
    | none =>
        rw [List.modify_eq_self (List.getElem?_eq_none_iff.mp found)]
        omega
    | some call =>
        have sum := Exchange.sum_modify Call.outstanding (fun call : Call router SL EL =>
          { call with replies := call.replies.set channel.position (some reply) }) found
        have answers := call.outstanding_answered channel.position reply
        omega

variable [Event EL] [Snapshot SL EL] [ApplyEvent EL SL]

/-- Handling a message keeps it with its worker until it is answered. -/
theorem Flowing.handle (flowing : system.Flowing) (worker : Fin router.workerCount)
    (visits : List SnapshotId)
    : (system.handle worker visits).1.Flowing := by
  obtain ⟨running, queued, settled⟩ := flowing.workers worker
  rcases system.handle_cases worker visits with
    same | ⟨message, inbound, _, committed, replied, queue, outcome⟩
  · rwa [same]
  rw [queue] at queued
  obtain ⟨handled, shape⟩ := handleWorker_of_mutates router.lowerTimeHorizonDelta
    (system.workers worker).historyById (queued message (.head _)) visits
  rw [shape] at outcome
  rcases outcome with ⟨stops, _⟩ | ⟨_, _, takes⟩
  · cases stops
  · rw [takes]
    have same : system.calls = system.calls.modify 0 id := (List.modify_id 0 _).symm
    refine flowing.update rfl same ⟨rfl, fun other member => queued other (.tail _ member), ?_⟩
      (fun _ _ => id) ?_
    · intro absent
      cases absent
    · simp only [WorkerState.load, queue, replied, setWorker, List.length_cons,
        Option.toList_none, Option.toList_some, List.length_nil]
      omega

variable [EventLanes EL SL]

/-- Steps that start no call keep the flow. -/
theorem Flowing.step (flowing : system.Flowing) {action : Action router SL EL}
    (serves : action.Serves)
    : (system.step action).1.Flowing := by
  cases action with
  | sendEvent | sendSnapshot | queryAt | sendAdvance => exact serves.elim
  | enqueue index => exact flowing.enqueue index
  | handle worker visits => exact flowing.handle worker visits
  | commit worker => exact flowing.commit worker
  | respond worker => exact flowing.respond worker

theorem Flowing.run (flowing : system.Flowing) {steps : List (Action router SL EL)}
    (serves : ∀ action ∈ steps, action.Serves)
    : (system.run steps).Flowing := by
  have kept (state : System router SL EL) (action : Action router SL EL)
      (serves : action.Serves) (flowing : state.Flowing)
      : (state.step action).1.Flowing := flowing.step serves
  exact Transducer.Each.invariant kept flowing (Transducer.each_of_forall serves)

/-- A step that starts a call of messages that mutate adds a call and changes nothing else. -/
theorem step_start (system : System router SL EL) {action : Action router SL EL}
    (mutates : action.Mutates)
    : ∃ call,
        (system.step action).1 = { system with calls := system.calls ++ [call] }
        ∧ call.Sound
        ∧ call.sent = 0
        ∧ ∀ reply ∈ call.replies, reply = none := by
  have rejected (reason : RouterError)
      : (Call.rejected reason : Call router SL EL).Sound
        ∧ (Call.rejected reason : Call router SL EL).sent = 0
        ∧ ∀ reply ∈ (Call.rejected reason : Call router SL EL).replies, reply = none :=
    ⟨⟨fun _ member => absurd member List.not_mem_nil, rfl, fun _ => rfl⟩, rfl,
      fun _ member => absurd member List.not_mem_nil⟩
  have opened {messages : List (Fin router.workerCount × WorkerInbound SL EL)}
      (all : ∀ entry ∈ messages, entry.2.Mutates)
      : (Call.open messages).Sound
        ∧ (Call.open messages).sent = 0
        ∧ ∀ reply ∈ (Call.open messages).replies, reply = none :=
    ⟨⟨all, List.length_map _, fun failed => absurd rfl failed⟩, rfl,
      fun _ member => (List.mem_map.mp member).choose_spec.2.symm⟩
  have accepted (size : UInt64) {messages : List (Fin router.workerCount × WorkerInbound SL EL)}
      (all : ∀ entry ∈ messages, entry.2.Mutates)
      : ∃ call,
          (system.accept size (.open messages)).1
            = { system with calls := system.calls ++ [call] }
          ∧ call.Sound
          ∧ call.sent = 0
          ∧ ∀ reply ∈ call.replies, reply = none := by
    obtain ⟨call, shape, turned⟩ := system.accept_calls size (.open messages)
    refine ⟨call, shape, ?_⟩
    rcases turned with rfl | rfl
    · exact rejected .memoryFull
    · exact opened all
  cases action with
  | sendEvent lane =>
      refine accepted _ (fun entry member => ?_)
      obtain ⟨position, inside, rfl⟩ := List.mem_mapIdx.mp member
      exact trivial
  | sendSnapshot lane =>
      refine accepted _ (fun entry member => ?_)
      rw [List.mem_singleton.mp member]
      exact trivial
  | sendAdvance time =>
      refine ⟨_, rfl, opened (fun entry member => ?_)⟩
      obtain ⟨worker, _, rfl⟩ := List.mem_map.mp member
      exact trivial
  | queryAt | enqueue | handle | commit | respond => exact mutates.elim

/-- Calls of messages that mutate keep the flow. -/
theorem Flowing.begin (flowing : system.Flowing) {action : Action router SL EL}
    (mutates : action.Mutates)
    : (system.step action).1.Flowing := by
  obtain ⟨call, starts, sound, unsent, unanswered⟩ := step_start system mutates
  rw [starts]
  exact flowing.start rfl rfl sound unsent unanswered

end System

end Contime
