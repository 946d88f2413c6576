import Contime.System.Service

/-! A serving system is never stuck: the next message of every open call can be answered. -/

namespace Contime

universe u v
variable {SL : Type u} {EL : Type v} [Event EL] [Snapshot SL EL] [ApplyEvent EL SL]
  [EventLanes EL SL] {router : Router}

namespace System

/-- All of a call but the contents of its replies. -/
def course (call : Call router SL EL)
    : List (Fin router.workerCount × WorkerInbound SL EL) × Nat × Option RouterError × Nat :=
  (call.messages, call.sent, call.error, call.replies.length)

/-- Steps that start no call lead from one system to the other. -/
def Leads (before after : System router SL EL) : Prop :=
  ∃ steps : List (Action router SL EL),
    (∀ action ∈ steps, action.Serves) ∧ before.run steps = after

theorem Leads.refl (system : System router SL EL) : Leads system system :=
  ⟨[], fun _ member => absurd member List.not_mem_nil, rfl⟩

theorem Leads.trans {first second third : System router SL EL} (before : Leads first second)
    (after : Leads second third)
    : Leads first third := by
  obtain ⟨steps, serves, rfl⟩ := before
  obtain ⟨more, alsoServes, rfl⟩ := after
  refine ⟨steps ++ more, ?_, Transducer.final_append _ _ _⟩
  intro action member
  exact (List.mem_append.mp member).elim (serves action) (alsoServes action)

theorem Leads.step (system : System router SL EL) (action : Action router SL EL)
    (serves : action.Serves)
    : Leads system (system.step action).1 :=
  ⟨[action], fun _ member => List.mem_singleton.mp member ▸ serves, rfl⟩

theorem Leads.enqueue (system : System router SL EL) (index : Nat)
    : Leads system (system.enqueue index).1 :=
  .step system (.enqueue index) trivial

theorem Leads.handle (system : System router SL EL) (worker : Fin router.workerCount)
    : Leads system (system.handle worker).1 :=
  .step system (.handle worker) trivial

theorem Leads.commit (system : System router SL EL) (worker : Fin router.workerCount)
    : Leads system (system.commit worker).1 :=
  .step system (.commit worker) trivial

theorem Leads.respond (system : System router SL EL) (worker : Fin router.workerCount)
    : Leads system (system.respond worker).1 :=
  .step system (.respond worker) trivial

variable {service : Service router SL EL} {system : System router SL EL}
  {worker : Fin router.workerCount}

theorem Serving.leads (serving : Serving service system) {after : System router SL EL}
    (leads : Leads system after)
    : Serving service after := by
  obtain ⟨steps, serves, rfl⟩ := leads
  exact serving.run serves

omit [EventLanes EL SL] in
/-- An idle worker of a serving system handles the first message of its queue. -/
theorem Serving.handle_eq (serving : Serving service system)
    (committed : (system.workers worker).deltas = [])
    (replied : (system.workers worker).reply = none) {message : WorkerInbound SL EL}
    {inbound : List (WorkerInbound SL EL)}
    (queue : (system.workers worker).inbound = message :: inbound) {channel : ReplyChannel}
    (sent : system.messageAt channel = some (worker, message))
    : ∃ historyById deltas reply,
        system.handle worker
          = (system.setWorker worker
              { inbound, historyById, deltas, reply := some (channel, reply), stopped := false },
            true) := by
  obtain ⟨⟨historyById, deltas, _, reply⟩, shape, rfl, _⟩ :=
    service.serves (serving.genuine channel worker message sent) (serving.keeps worker)
  refine ⟨historyById, deltas, reply, ?_⟩
  exact System.handle_eq (serving.running worker) committed replied queue shape

/-- A worker can finish the message in hand; its reply arrives if its channel is there. -/
theorem finish (system : System router SL EL) (worker : Fin router.workerCount)
    : ∃ after, Leads system after
      ∧ after.workers worker = { system.workers worker with deltas := [], reply := none }
      ∧ after.calls.map course = system.calls.map course
      ∧ ∀ channel reply call,
          (system.workers worker).reply = some (channel, reply)
          → system.calls[channel.call]? = some call → channel.position < call.replies.length
          → after.replyAt channel = some reply := by
  generalize pending : (system.workers worker).deltas = deltas
  induction deltas generalizing system with
  | nil =>
      cases inHand : (system.workers worker).reply with
      | none =>
          refine ⟨system, .refl system, ?_, rfl, fun _ _ _ absent => nomatch absent⟩
          rw [← pending, ← inHand]
      | some pair =>
          obtain ⟨channel, reply⟩ := pair
          have shape := respond_eq pending inHand
          refine ⟨_, Leads.respond system worker, ?_, ?_, ?_⟩
          · rw [shape, ← pending]
            exact setWorker_self ..
          · rw [shape]
            exact map_modify (fun call => by simp [course]) _ _
          · intro other received call found stored inside
            obtain ⟨rfl, rfl⟩ := Prod.mk.inj (Option.some.inj found)
            rw [shape, replyAt]
            simp [stored, inside]
  | cons delta deltas ih =>
      have shape := commit_eq pending
      have state : (system.commit worker).1.workers worker
          = { system.workers worker with deltas } := by
        rw [shape]
        exact setWorker_self ..
      obtain ⟨after, leads, finished, calls, replied⟩ :=
        ih (system.commit worker).1 (by rw [state])
      refine ⟨after, (Leads.commit system worker).trans leads, ?_, ?_, ?_⟩
      · rw [finished, state]
      · rw [calls, shape]
        rfl
      · intro channel reply call found stored
        exact replied channel reply call (by rw [state, found]) (by rw [shape]; exact stored)

/-- A worker can work off its queue. -/
theorem Serving.drain (serving : Serving service system) (worker : Fin router.workerCount)
    : ∃ after, Leads system after
      ∧ (after.workers worker).inbound = []
      ∧ (after.workers worker).deltas = []
      ∧ (after.workers worker).reply = none
      ∧ after.calls.map course = system.calls.map course := by
  generalize queue : (system.workers worker).inbound = inbound
  induction inbound generalizing system with
  | nil =>
      obtain ⟨after, leads, state, calls, _⟩ := finish system worker
      exact ⟨after, leads, by rw [state, queue], by rw [state], by rw [state], calls⟩
  | cons message inbound ih =>
      obtain ⟨idle, leads, state, calls, _⟩ := finish system worker
      have idleServing := serving.leads leads
      have queue : (idle.workers worker).inbound = message :: inbound := by rw [state, queue]
      obtain ⟨channel, sent⟩ := idleServing.queued worker message (by simp [queue])
      obtain ⟨historyById, deltas, reply, shape⟩ :=
        idleServing.handle_eq (by rw [state]) (by rw [state]) queue sent
      have handles := Leads.handle idle worker
      obtain ⟨after, rest, empty, committed, replied, same⟩ :=
        ih (idleServing.leads handles) (by rw [shape, setWorker_self])
      refine ⟨after, (leads.trans handles).trans rest, empty, committed, replied, ?_⟩
      rw [same, shape, ← calls]
      rfl

/-- An idle worker can answer the only message of its queue. -/
theorem Serving.answer_queued (serving : Serving service system)
    (committed : (system.workers worker).deltas = [])
    (replied : (system.workers worker).reply = none) {message : WorkerInbound SL EL}
    (queue : (system.workers worker).inbound = [message]) {channel : ReplyChannel}
    (sent : system.messageAt channel = some (worker, message)) {call : Call router SL EL}
    (stored : system.calls[channel.call]? = some call)
    (inside : channel.position < call.replies.length)
    : ∃ after reply, Leads system after ∧ after.replyAt channel = some reply := by
  obtain ⟨historyById, deltas, reply, takes⟩ :=
    serving.handle_eq committed replied queue sent
  obtain ⟨after, finishes, _, _, arrives⟩ := finish (system.handle worker).1 worker
  refine ⟨after, reply, (Leads.handle system worker).trans finishes, ?_⟩
  refine arrives channel reply call ?_ ?_ inside
  · rw [takes, setWorker_self]
  · rw [takes]
    exact stored

/-- The next message of an open call can be answered: its worker first works off the queue,
which makes room for the message.
-/
theorem Serving.answer_next (serving : Serving service system) {index : Nat}
    {call : Call router SL EL} (found : system.calls[index]? = some call)
    (accepted : call.error = none) (complete : call.replies.length = call.messages.length)
    {message : WorkerInbound SL EL}
    (next : call.messages[call.sent]? = some (worker, message))
    : ∃ after reply, Leads system after ∧ after.replyAt ⟨index, call.sent⟩ = some reply := by
  obtain ⟨drained, drains, empty, committed, replied, calls⟩ := serving.drain worker
  have serving := serving.leads drains
  obtain ⟨waiting, stored, same⟩ : ∃ waiting,
      drained.calls[index]? = some waiting ∧ course waiting = course call := by
    have listed := congrArg (·[index]?) calls
    simpa only [List.getElem?_map, found, Option.map_some, Option.map_eq_some_iff] using listed
  obtain ⟨messages, sent, error, replies⟩ : waiting.messages = call.messages
      ∧ waiting.sent = call.sent ∧ waiting.error = call.error
      ∧ waiting.replies.length = call.replies.length := by
    simpa [course] using same
  rw [← messages, ← sent] at next
  have sends := enqueue_eq stored (error.trans accepted) next (serving.running worker)
    (by simp [empty, INBOUND_CAPACITY])
  have enqueues := Leads.enqueue drained index
  have queued : (drained.enqueue index).1.workers worker
      = { drained.workers worker with inbound := [message] } := by
    rw [sends]
    simp [setWorker, empty]
  have listed : (drained.enqueue index).1.messageAt ⟨index, call.sent⟩
      = some (worker, message) := by
    rw [sends, messageAt]
    simp [stored, ← sent, next]
  have moved : (drained.enqueue index).1.calls[index]?
      = some { waiting with sent := waiting.sent + 1 } := by
    rw [sends]
    simp [stored]
  have inside : call.sent < waiting.replies.length := by
    rw [replies, complete, ← messages, ← sent]
    exact (List.getElem?_eq_some_iff.mp next).1
  obtain ⟨after, reply, leads, arrived⟩ :=
    (serving.leads enqueues).answer_queued (by rw [queued, committed])
      (by rw [queued, replied]) (by rw [queued]) listed moved inside
  exact ⟨after, reply, drains.trans (enqueues.trans leads), arrived⟩

end System

end Contime
