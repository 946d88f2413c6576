import Contime.System.Steps
import Contime.Worker.Projection

/-! The exchange between clients and workers, for any meaning of the messages: what each
message asks for, what a worker keeps, and what a reply has to say. Every step of a system
that starts no call keeps it serving.
-/

namespace Contime

universe u v
variable {SL : Type u} {EL : Type v} {router : Router}

namespace System

/-- The message that is answered on a channel, with the worker it goes to. -/
def messageAt (system : System router SL EL) (channel : ReplyChannel)
    : Option (Fin router.workerCount × WorkerInbound SL EL) :=
  (system.calls[channel.call]?.map Call.messages).bind (·[channel.position]?)

/-- What of a call only its start decides. -/
def skeleton (call : Call router SL EL)
    : List (Fin router.workerCount × WorkerInbound SL EL) × Nat :=
  (call.messages, call.replies.length)

/-- Systems with the same skeletons have the same messages. -/
theorem messageAt_congr {before after : System router SL EL}
    (same : after.calls.map skeleton = before.calls.map skeleton) (channel : ReplyChannel)
    : after.messageAt channel = before.messageAt channel := by
  have listed (system : System router SL EL)
      : system.calls[channel.call]?.map Call.messages
        = (system.calls.map skeleton)[channel.call]?.map Prod.fst := by
    rw [List.getElem?_map, Option.map_map]
    rfl
  rw [messageAt, messageAt, listed, listed, same]

/-- Replies depend on the calls' replies alone. -/
theorem replyAt_congr {before after : System router SL EL}
    (same : after.calls.map Call.replies = before.calls.map Call.replies)
    (channel : ReplyChannel)
    : after.replyAt channel = before.replyAt channel := by
  rw [replyAt, replyAt, ← List.getElem?_map, ← List.getElem?_map, same]

/-- Setting the reply on one channel leaves the other channels alone. -/
theorem replyAt_of_ne {before after : System router SL EL} {channel other : ReplyChannel}
    {reply : Reply SL} (differ : other ≠ channel)
    (calls : after.calls = before.calls.modify channel.call (fun call =>
      { call with replies := call.replies.set channel.position (some reply) }))
    : after.replyAt other = before.replyAt other := by
  rw [replyAt, replyAt, calls, List.getElem?_modify]
  by_cases sameCall : channel.call = other.call
  · have differ : channel.position ≠ other.position := fun same =>
      differ (by cases other; cases channel; simp_all)
    simp only [if_pos sameCall]
    cases before.calls[other.call]? with
    | none => rfl
    | some call => simp [List.getElem?_set_ne differ]
  · simp [sameCall]

/-- After setting the reply on a channel, a handle sees it there or nothing. -/
theorem replyAt_self {before after : System router SL EL} {channel : ReplyChannel}
    {reply received : Reply SL}
    (calls : after.calls = before.calls.modify channel.call (fun call =>
      { call with replies := call.replies.set channel.position (some reply) }))
    (found : after.replyAt channel = some received)
    : received = reply := by
  rw [replyAt, calls, List.getElem?_modify_eq] at found
  cases stored : before.calls[channel.call]? with
  | none => simp [stored] at found
  | some call =>
      simp only [stored, Functor.map, Option.map_some, Option.bind_some, List.getElem?_set_self']
        at found
      cases replied : call.replies[channel.position]? with
      | none => simp [replied] at found
      | some earlier =>
          simp only [replied, Option.map_some, Function.const_apply, Option.join_some,
            Option.some.injEq] at found
          exact found.symm

section Start

variable {before after : System router SL EL} {call : Call router SL EL}

/-- Starting a call adds its messages. -/
theorem messageAt_start (calls : after.calls = before.calls ++ [call]) {channel : ReplyChannel}
    {entry : Fin router.workerCount × WorkerInbound SL EL}
    : after.messageAt channel = some entry
      ↔ before.messageAt channel = some entry
        ∨ (channel.call = before.calls.length
          ∧ call.messages[channel.position]? = some entry) := by
  rw [messageAt, messageAt, calls]
  rcases Nat.lt_trichotomy channel.call before.calls.length with earlier | last | later
  · simp [List.getElem?_append_left earlier, Nat.ne_of_lt earlier]
  · simp [last]
  · have beyond : before.calls.length + 1 ≤ channel.call := later
    rw [List.getElem?_eq_none (by simpa using beyond),
      List.getElem?_eq_none (Nat.le_of_lt later)]
    simp [Nat.ne_of_gt later]

/-- Starting a call without a reply adds no reply. -/
theorem replyAt_start (calls : after.calls = before.calls ++ [call])
    (unanswered : ∀ reply ∈ call.replies, reply = none) (channel : ReplyChannel)
    : after.replyAt channel = before.replyAt channel := by
  rw [replyAt, replyAt, calls]
  rcases Nat.lt_trichotomy channel.call before.calls.length with earlier | last | later
  · rw [List.getElem?_append_left earlier]
  · rw [last]
    simp only [List.getElem?_concat_length, Option.map_some, Option.bind_some, Nat.le_refl,
      List.getElem?_eq_none, Option.map_none, Option.bind_none]
    cases found : call.replies[channel.position]? with
    | none => rfl
    | some reply => exact unanswered reply (List.mem_of_getElem? found)
  · have beyond : before.calls.length + 1 ≤ channel.call := later
    rw [List.getElem?_eq_none (by simpa using beyond),
      List.getElem?_eq_none (Nat.le_of_lt later)]

end Start

end System

-----------------------------------------------------------------------------------------
-- Services
-----------------------------------------------------------------------------------------

variable [Event EL] [Snapshot SL EL] [ApplyEvent EL SL]

/-- Messages that workers can handle: each is answered on its channel, with a reply that
stays true, and keeps what its worker keeps.
-/
structure Service (router : Router) (SL : Type u) (EL : Type v) [Event EL] [Snapshot SL EL]
    [ApplyEvent EL SL] where
  Genuine : ReplyChannel → Fin router.workerCount → WorkerInbound SL EL → Prop
  Keeps : Fin router.workerCount → HistoryById SL EL → Prop
  Answered : HistoryById SL EL → WorkerInbound SL EL → Reply SL → Prop
  serves
    : ∀ {channel worker message historyById},
      Genuine channel worker message → Keeps worker historyById
      → ∃ handled,
        handleWorker router.lowerTimeHorizonDelta historyById message = some handled
        ∧ handled.reply.1 = channel
        ∧ Keeps worker handled.historyById
        ∧ Answered handled.historyById message handled.reply.2
        ∧ ∀ earlier reply, Answered historyById earlier reply
          → Answered handled.historyById earlier reply

namespace System

/-- The reply is right for the message of its channel, by what the message's worker holds. -/
def Right (service : Service router SL EL) (system : System router SL EL)
    (channel : ReplyChannel) (reply : Reply SL)
    : Prop :=
  ∃ worker message,
    system.messageAt channel = some (worker, message)
    ∧ service.Answered (system.workers worker).historyById message reply

/-- All messages are genuine, all replies right, and no worker has stopped. -/
structure Serving (service : Service router SL EL) (system : System router SL EL) : Prop where
  keeps : ∀ worker, service.Keeps worker (system.workers worker).historyById
  running : ∀ worker, (system.workers worker).stopped = false
  genuine
    : ∀ channel worker message, system.messageAt channel = some (worker, message)
      → service.Genuine channel worker message
  queued
    : ∀ worker, ∀ message ∈ (system.workers worker).inbound,
      ∃ channel, system.messageAt channel = some (worker, message)
  inHand
    : ∀ worker channel reply, (system.workers worker).reply = some (channel, reply)
      → system.Right service channel reply
  replied
    : ∀ channel reply, system.replyAt channel = some reply
      → system.Right service channel reply

/-- A system that was just built serves any messages to come. -/
theorem serving_new {service : Service router SL EL} (keeps : ∀ worker, service.Keeps worker .empty)
    : Serving service (new : System router SL EL) where
  keeps := keeps
  running _ := rfl
  genuine _ _ _ found := absurd found (by simp [messageAt, new])
  queued _ _ member := absurd member List.not_mem_nil
  inHand _ _ _ found := absurd found (by simp [new])
  replied _ _ found := absurd found (by simp [replyAt, new])

-----------------------------------------------------------------------------------------
-- Steps that start no call
-----------------------------------------------------------------------------------------

variable {service : Service router SL EL} {system : System router SL EL}

/-- A step of one worker, or of a client at its queue, keeps a system serving: it queues only
messages of calls, and replies are right in the worker's new histories.
-/
theorem Serving.of_update (serving : Serving service system) {after : System router SL EL}
    {worker : Fin router.workerCount} {state : WorkerState SL EL}
    (workers : after.workers = Function.update system.workers worker state)
    (messages : ∀ channel, after.messageAt channel = system.messageAt channel)
    (keeps : service.Keeps worker state.historyById)
    (running : state.stopped = false)
    (queued : ∀ message ∈ state.inbound,
      ∃ channel, system.messageAt channel = some (worker, message))
    (answered : ∀ message reply,
      service.Answered (system.workers worker).historyById message reply
      → service.Answered state.historyById message reply)
    (inHand : ∀ channel reply, state.reply = some (channel, reply)
      → (system.workers worker).reply = some (channel, reply)
        ∨ ∃ message,
          system.messageAt channel = some (worker, message)
          ∧ service.Answered state.historyById message reply)
    (replied : ∀ channel reply, after.replyAt channel = some reply
      → system.replyAt channel = some reply ∨ system.Right service channel reply)
    : Serving service after := by
  have updated : after.workers worker = state := by rw [workers, Function.update_self]
  have others {other : Fin router.workerCount} (differ : other ≠ worker)
      : after.workers other = system.workers other := by
    rw [workers, Function.update_of_ne differ]
  have right {channel : ReplyChannel} {reply : Reply SL}
      (before : system.Right service channel reply)
      : after.Right service channel reply := by
    obtain ⟨other, message, found, holds⟩ := before
    refine ⟨other, message, (messages channel).trans found, ?_⟩
    by_cases own : other = worker
    · subst own
      exact updated ▸ answered message reply holds
    · exact others own ▸ holds
  refine ⟨?_, ?_, ?_, ?_, ?_, ?_⟩
  · intro other
    by_cases own : other = worker
    · subst own
      exact updated ▸ keeps
    · exact others own ▸ serving.keeps other
  · intro other
    by_cases own : other = worker
    · rwa [own, updated]
    · exact others own ▸ serving.running other
  · intro channel other message found
    exact serving.genuine channel other message (messages channel ▸ found)
  · intro other message member
    simp only [messages]
    by_cases own : other = worker
    · subst own
      exact queued message (updated ▸ member)
    · exact serving.queued other message (others own ▸ member)
  · intro other channel reply found
    by_cases own : other = worker
    · subst own
      rw [updated] at found
      rcases inHand channel reply found with old | ⟨message, sent, holds⟩
      · exact right (serving.inHand other channel reply old)
      · exact ⟨other, message, (messages channel).trans sent, updated ▸ holds⟩
    · exact right (serving.inHand other channel reply (others own ▸ found))
  · intro channel reply found
    exact right ((replied channel reply found).elim (serving.replied channel reply) id)

/-- Enqueueing moves a call's next message to the queue of its worker. -/
theorem Serving.enqueue (serving : Serving service system) (index : Nat)
    : Serving service (system.enqueue index).1 := by
  rcases system.enqueue_cases index with
    same | ⟨call, worker, message, found, _, next, ⟨stopped, _⟩ | ⟨_, _, sends⟩⟩
  · rwa [same]
  · rw [serving.running worker] at stopped
    cases stopped
  · have sent : system.messageAt ⟨index, call.sent⟩ = some (worker, message) := by
      simp [messageAt, found, next]
    rw [sends]
    refine serving.of_update rfl (messageAt_congr (map_modify ?_ system.calls index))
      (serving.keeps worker) (serving.running worker) ?_ (fun _ _ => id) (fun _ _ => Or.inl) ?_
    · exact fun _ => rfl
    · intro queued member
      rcases List.mem_append.mp member with earlier | last
      · exact serving.queued worker queued earlier
      · exact ⟨_, List.mem_singleton.mp last ▸ sent⟩
    · intro channel reply received
      left
      rw [← received]
      refine (replyAt_congr (map_modify ?_ system.calls index) channel).symm
      exact fun _ => rfl

/-- Adding to the memory counter changes no history, queue or call. -/
theorem Serving.commit (serving : Serving service system) (worker : Fin router.workerCount)
    : Serving service (system.commit worker).1 := by
  rcases system.commit_cases worker with same | ⟨delta, deltas, _, commits⟩
  · rwa [same]
  · rw [commits]
    exact serving.of_update rfl (fun _ => rfl) (serving.keeps worker) (serving.running worker)
      (serving.queued worker) (fun _ _ => id) (fun _ _ => Or.inl) (fun _ _ => Or.inl)

/-- A reply goes to the channel of the message in hand, for which it is right. -/
theorem Serving.respond (serving : Serving service system) (worker : Fin router.workerCount)
    : Serving service (system.respond worker).1 := by
  rcases system.respond_cases worker with same | ⟨channel, reply, _, inHand, responds⟩
  · rwa [same]
  · have right := serving.inHand worker channel reply inHand
    rw [responds]
    refine serving.of_update rfl
      (messageAt_congr (map_modify ?_ system.calls channel.call)) (serving.keeps worker)
      (serving.running worker) (serving.queued worker) (fun _ _ => id)
      (fun _ _ none => absurd none (by simp)) ?_
    · intro call
      simp [skeleton]
    · intro other received found
      by_cases answered : other = channel
      · subst answered
        right
        rwa [replyAt_self rfl found]
      · left
        rw [← found]
        exact (replyAt_of_ne answered rfl).symm

/-- A worker handles the message it takes. -/
theorem Serving.handle (serving : Serving service system) (worker : Fin router.workerCount)
    (visits : List SnapshotId)
    : Serving service (system.handle worker visits).1 := by
  rcases system.handle_cases worker visits with
    same | ⟨message, inbound, _, _, _, queue, outcome⟩
  · rwa [same]
  obtain ⟨channel, sent⟩ := serving.queued worker message (by simp [queue])
  obtain ⟨handled, shape, reply, keeps, answered, stays⟩ :=
    service.serves (serving.genuine channel worker message sent) (serving.keeps worker)
  obtain ⟨deltas, ordered, _⟩ := handleWorker_with shape visits
  rw [ordered] at outcome
  rcases outcome with ⟨stops, _⟩ | ⟨_, same, takes⟩
  · cases stops
  · cases same
    rw [takes]
    refine serving.of_update rfl (fun _ => rfl) keeps rfl ?_ stays ?_ (fun _ _ => Or.inl)
    · intro queued member
      exact serving.queued worker queued (by simp [queue, member])
    · intro other response found
      right
      obtain ⟨rfl, rfl⟩ := Prod.mk.inj (Option.some.inj found)
      exact ⟨message, reply ▸ sent, answered⟩

/-- A new call with genuine messages keeps a system serving. -/
theorem Serving.start (serving : Serving service system)
    {after : System router SL EL} {call : Call router SL EL}
    (workers : after.workers = system.workers) (calls : after.calls = system.calls ++ [call])
    (unanswered : ∀ reply ∈ call.replies, reply = none)
    (genuine : ∀ position worker message, call.messages[position]? = some (worker, message)
      → service.Genuine ⟨system.calls.length, position⟩ worker message)
    : Serving service after := by
  have keep {channel : ReplyChannel} {entry : Fin router.workerCount × WorkerInbound SL EL}
      (found : system.messageAt channel = some entry)
      : after.messageAt channel = some entry :=
    (messageAt_start calls).mpr (Or.inl found)
  have right {channel : ReplyChannel} {reply : Reply SL}
      (before : system.Right service channel reply)
      : after.Right service channel reply := by
    obtain ⟨worker, message, found, answered⟩ := before
    exact ⟨worker, message, keep found, workers ▸ answered⟩
  refine ⟨workers ▸ serving.keeps, workers ▸ serving.running, ?_, ?_, ?_, ?_⟩
  · intro channel worker message found
    obtain ⟨index, position⟩ := channel
    rcases (messageAt_start calls).mp found with old | ⟨rfl, sent⟩
    · exact serving.genuine _ worker message old
    · exact genuine position worker message sent
  · intro worker message member
    obtain ⟨channel, sent⟩ := serving.queued worker message (workers ▸ member)
    exact ⟨channel, keep sent⟩
  · intro worker channel reply found
    exact right (serving.inHand worker channel reply (workers ▸ found))
  · intro channel reply found
    rw [replyAt_start calls unanswered] at found
    exact right (serving.replied channel reply found)

omit [Event EL] [Snapshot SL EL] [ApplyEvent EL SL] in
/-- The check of the budget starts a call, or one that is turned away. -/
theorem accept_calls (system : System router SL EL) (size : UInt64) (opened : Call router SL EL)
    : ∃ call, (system.accept size opened).1 = { system with calls := system.calls ++ [call] }
        ∧ (call = .rejected .memoryFull ∨ call = opened) := by
  refine ⟨_, rfl, ?_⟩
  split
  · exact Or.inl rfl
  · exact Or.inr rfl

/-- A call that is turned away sends nothing. -/
theorem Serving.rejected (serving : Serving service system) (reason : RouterError)
    : Serving service { system with calls := system.calls ++ [.rejected reason] } := by
  refine serving.start rfl rfl ?_ ?_
  · exact fun _ member => absurd member List.not_mem_nil
  · intro position worker message found
    exact absurd found (by simp [Call.rejected])

/-- A call of one genuine message keeps a system serving. -/
theorem Serving.single (serving : Serving service system) {worker : Fin router.workerCount}
    {message : WorkerInbound SL EL}
    (genuine : service.Genuine ⟨system.calls.length, 0⟩ worker message)
    : Serving service { system with calls := system.calls ++ [.open [(worker, message)]] } := by
  refine serving.start rfl rfl (by simp [Call.open]) ?_
  intro position other sent found
  obtain ⟨rfl, equal⟩ : position = 0 ∧ (worker, message) = (other, sent) := by
    simpa [Call.open, List.getElem?_singleton] using found
  obtain ⟨rfl, rfl⟩ := Prod.mk.inj equal
  exact genuine

-----------------------------------------------------------------------------------------
-- Whole steps and runs
-----------------------------------------------------------------------------------------

variable [EventLanes EL SL]

theorem run_cons (system : System router SL EL) (action : Action router SL EL)
    (steps : List (Action router SL EL))
    : system.run (action :: steps) = (system.step action).1.run steps := rfl

theorem run_concat (system : System router SL EL) (past : List (Action router SL EL))
    (action : Action router SL EL)
    : system.run (past ++ [action]) = ((system.run past).step action).1 :=
  Transducer.final_append system past [action]

/-- A step that starts no call changes at most one, keeps its skeleton and any failure. -/
theorem step_calls (system : System router SL EL) {action : Action router SL EL}
    (serves : action.Serves)
    : ∃ index change,
        (system.step action).1.calls = system.calls.modify index change
        ∧ (∀ call, skeleton (change call) = skeleton call)
        ∧ ∀ call, call.error ≠ none → (change call).error ≠ none := by
  have unchanged : ∃ index change,
      system.calls = system.calls.modify index change
      ∧ (∀ call, skeleton (change call) = skeleton call)
      ∧ ∀ call : Call router SL EL, call.error ≠ none → (change call).error ≠ none :=
    ⟨0, id, (List.modify_id 0 _).symm, fun _ => rfl, fun _ => id⟩
  cases action with
  | sendEvent | sendSnapshot | queryAt | sendAdvance => exact serves.elim
  | enqueue index =>
      rw [System.step]
      rcases system.enqueue_cases index with
        same | ⟨call, worker, message, _, _, _, ⟨_, fails⟩ | ⟨_, _, sends⟩⟩
      · rw [same]
        exact unchanged
      · rw [fails]
        exact ⟨index, _, rfl, fun _ => rfl, fun _ _ => Option.some_ne_none _⟩
      · rw [sends]
        exact ⟨index, _, rfl, fun _ => rfl, fun _ => id⟩
  | handle worker visits =>
      rw [System.step, calls_handle]
      exact unchanged
  | commit worker =>
      rw [System.step, calls_commit]
      exact unchanged
  | respond worker =>
      rw [System.step]
      rcases system.respond_cases worker with same | ⟨channel, reply, _, _, responds⟩
      · rw [same]
        exact unchanged
      · rw [responds]
        refine ⟨channel.call, _, rfl, fun call => ?_, fun _ => id⟩
        rw [skeleton, skeleton, List.length_set]

/-- A step that starts no call keeps the skeletons of all calls. -/
theorem skeletons_step (system : System router SL EL) {action : Action router SL EL}
    (serves : action.Serves)
    : (system.step action).1.calls.map skeleton = system.calls.map skeleton := by
  obtain ⟨index, change, calls, kept, _⟩ := step_calls system serves
  exact calls ▸ map_modify kept system.calls index

theorem messageAt_step (system : System router SL EL) {action : Action router SL EL}
    (serves : action.Serves) (channel : ReplyChannel)
    : (system.step action).1.messageAt channel = system.messageAt channel :=
  messageAt_congr (skeletons_step system serves) channel

/-- Steps that start no call keep the skeletons of all calls. -/
theorem skeletons_run (system : System router SL EL) {steps : List (Action router SL EL)}
    (serves : ∀ action ∈ steps, action.Serves)
    : (system.run steps).calls.map skeleton = system.calls.map skeleton := by
  induction steps generalizing system with
  | nil => rfl
  | cons action steps ih =>
      have first := skeletons_step system (serves action (.head _))
      have others := ih (system.step action).1 (fun later member => serves later (.tail _ member))
      exact others.trans first

theorem messageAt_run (system : System router SL EL) {steps : List (Action router SL EL)}
    (serves : ∀ action ∈ steps, action.Serves) (channel : ReplyChannel)
    : (system.run steps).messageAt channel = system.messageAt channel :=
  messageAt_congr (skeletons_run system serves) channel

/-- A step that starts no call keeps a system serving. -/
theorem Serving.step (serving : Serving service system) {action : Action router SL EL}
    (serves : action.Serves)
    : Serving service (system.step action).1 := by
  cases action with
  | sendEvent | sendSnapshot | queryAt | sendAdvance => exact serves.elim
  | enqueue index => exact serving.enqueue index
  | handle worker visits => exact serving.handle worker visits
  | commit worker => exact serving.commit worker
  | respond worker => exact serving.respond worker

/-- Steps that start no call keep a system serving. -/
theorem Serving.run (serving : Serving service system) {steps : List (Action router SL EL)}
    (serves : ∀ action ∈ steps, action.Serves)
    : Serving service (system.run steps) := by
  have kept (state : System router SL EL) (action : Action router SL EL)
      (serves : action.Serves) (serving : Serving service state)
      : Serving service (state.step action).1 := serving.step serves
  exact Transducer.Each.invariant kept serving (Transducer.each_of_forall serves)

end System

end Contime
