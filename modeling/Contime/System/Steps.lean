import Contime.Model.Router

/-! What each atomic step of a client or a worker can do. The invariants of the system take their
cases from here.
-/

namespace Contime

universe u v
variable {SL : Type u} {EL : Type v} {router : Router}

namespace System

-----------------------------------------------------------------------------------------
-- Changes of one worker or one call
-----------------------------------------------------------------------------------------

@[simp] theorem setWorker_self (system : System router SL EL) (worker : Fin router.workerCount)
    (state : WorkerState SL EL)
    : (system.setWorker worker state).workers worker = state :=
  Function.update_self ..

theorem setWorker_of_ne {worker other : Fin router.workerCount} (differ : other ≠ worker)
    (system : System router SL EL) (state : WorkerState SL EL)
    : (system.setWorker worker state).workers other = system.workers other :=
  Function.update_of_ne differ ..

/-- A new state of a worker that keeps a part of it keeps that part of all workers. -/
theorem setWorker_part {Part : Type*} (part : WorkerState SL EL → Part)
    {system : System router SL EL} {worker : Fin router.workerCount} {state : WorkerState SL EL}
    (kept : part state = part (system.workers worker)) (other : Fin router.workerCount)
    : part ((system.setWorker worker state).workers other) = part (system.workers other) := by
  by_cases own : other = worker
  · subst own
    rwa [setWorker_self]
  · rw [setWorker_of_ne own]

/-- A change of one call that keeps a part of it keeps that part of all calls. -/
theorem map_modify {Part : Type*} {part : Call router SL EL → Part}
    {change : Call router SL EL → Call router SL EL}
    (kept : ∀ call, part (change call) = part call) (calls : List (Call router SL EL))
    (index : Nat)
    : (calls.modify index change).map part = calls.map part := by
  refine List.ext_getElem? (fun position => ?_)
  rw [List.getElem?_map, List.getElem?_map, List.getElem?_modify]
  split
  · cases calls[position]? with
    | none => rfl
    | some call => exact congrArg some (kept call)
  · cases calls[position]? <;> rfl

-----------------------------------------------------------------------------------------
-- The steps
-----------------------------------------------------------------------------------------

variable {system : System router SL EL} {worker : Fin router.workerCount} {index : Nat}
  {call : Call router SL EL} {message : WorkerInbound SL EL}

/-- A client can send its next message to a running worker with room in its queue. -/
theorem enqueue_eq (found : system.calls[index]? = some call) (accepted : call.error = none)
    (next : call.messages[call.sent]? = some (worker, message))
    (running : (system.workers worker).stopped = false)
    (room : (system.workers worker).inbound.length < INBOUND_CAPACITY)
    : system.enqueue index
      = ({ system.setWorker worker
              { system.workers worker with
                inbound := (system.workers worker).inbound ++ [message] } with
            calls := system.calls.modify index (fun call =>
              { call with sent := call.sent + 1 }) },
          true) := by
  simp [System.enqueue, found, accepted, next, running, room]

/-- A client's call fails at a worker that is gone. -/
theorem enqueue_eq_of_stopped (found : system.calls[index]? = some call)
    (accepted : call.error = none)
    (next : call.messages[call.sent]? = some (worker, message))
    (stopped : (system.workers worker).stopped = true)
    : system.enqueue index
      = ({ system with
            calls := system.calls.modify index (fun call =>
              { call with error := some .error }) },
          true) := by
  simp [System.enqueue, found, accepted, next, stopped]

/-- A call sends its next message, or fails at a worker that is gone, or waits. -/
theorem enqueue_cases (system : System router SL EL) (index : Nat)
    : system.enqueue index = (system, false)
      ∨ ∃ call worker message,
          system.calls[index]? = some call
          ∧ call.error = none
          ∧ call.messages[call.sent]? = some (worker, message)
          ∧ (((system.workers worker).stopped = true
              ∧ system.enqueue index
                = ({ system with
                      calls := system.calls.modify index (fun call =>
                        { call with error := some .error }) },
                    true))
            ∨ ((system.workers worker).stopped = false
              ∧ (system.workers worker).inbound.length < INBOUND_CAPACITY
              ∧ system.enqueue index
                = ({ system.setWorker worker
                        { system.workers worker with
                          inbound := (system.workers worker).inbound ++ [message] } with
                      calls := system.calls.modify index (fun call =>
                        { call with sent := call.sent + 1 }) },
                    true))) := by
  cases found : system.calls[index]? with
  | none => exact Or.inl (by rw [enqueue, found])
  | some call =>
      cases error : call.error with
      | some reason => exact Or.inl (by simp only [enqueue, found, error])
      | none =>
          cases next : call.messages[call.sent]? with
          | none => exact Or.inl (by simp only [enqueue, found, error, next])
          | some entry =>
              obtain ⟨worker, message⟩ := entry
              cases stopped : (system.workers worker).stopped with
              | true =>
                  refine Or.inr ⟨call, worker, message, rfl, error, next, Or.inl ⟨stopped, ?_⟩⟩
                  exact enqueue_eq_of_stopped found error next stopped
              | false =>
                  by_cases room : (system.workers worker).inbound.length < INBOUND_CAPACITY
                  · refine Or.inr ⟨call, worker, message, rfl, error, next, Or.inr ?_⟩
                    exact ⟨stopped, room, enqueue_eq found error next stopped room⟩
                  · exact Or.inl (by simp [enqueue, found, error, next, stopped, room])

theorem commit_eq {delta : Int64} {deltas : List Int64}
    (pending : (system.workers worker).deltas = delta :: deltas)
    : system.commit worker
      = ({ system.setWorker worker { system.workers worker with deltas } with
            memoryUsage := saturatingAddSigned system.memoryUsage delta },
          true) := by
  simp only [commit, pending]

/-- A worker adds its next delta to the counter, or has none. -/
theorem commit_cases (system : System router SL EL) (worker : Fin router.workerCount)
    : system.commit worker = (system, false)
      ∨ ∃ delta deltas,
          (system.workers worker).deltas = delta :: deltas
          ∧ system.commit worker
            = ({ system.setWorker worker { system.workers worker with deltas } with
                  memoryUsage := saturatingAddSigned system.memoryUsage delta },
                true) := by
  cases pending : (system.workers worker).deltas with
  | nil => exact Or.inl (by simp only [commit, pending])
  | cons delta deltas => exact Or.inr ⟨delta, deltas, rfl, commit_eq pending⟩

/-- A commit of one worker leaves the others. -/
theorem workers_commit_of_ne {other : Fin router.workerCount} (differ : other ≠ worker)
    : (system.commit worker).1.workers other = system.workers other := by
  rcases system.commit_cases worker with same | ⟨_, _, _, commits⟩
  · rw [same]
  · rw [commits]
    exact setWorker_of_ne differ ..

/-- A commit concerns no call. -/
theorem calls_commit (system : System router SL EL) (worker : Fin router.workerCount)
    : (system.commit worker).1.calls = system.calls := by
  rcases system.commit_cases worker with same | ⟨_, _, _, commits⟩
  · rw [same]
  · rw [commits]
    rfl

theorem respond_eq {channel : ReplyChannel} {reply : Reply SL}
    (committed : (system.workers worker).deltas = [])
    (inHand : (system.workers worker).reply = some (channel, reply))
    : system.respond worker
      = ({ system.setWorker worker { system.workers worker with reply := none } with
            calls := system.calls.modify channel.call (fun call =>
              { call with replies := call.replies.set channel.position (some reply) }) },
          true) := by
  simp only [respond, committed, inHand]

/-- A worker that has committed all deltas answers the message in hand, if there is one. -/
theorem respond_cases (system : System router SL EL) (worker : Fin router.workerCount)
    : system.respond worker = (system, false)
      ∨ ∃ channel reply,
          (system.workers worker).deltas = []
          ∧ (system.workers worker).reply = some (channel, reply)
          ∧ system.respond worker
            = ({ system.setWorker worker { system.workers worker with reply := none } with
                  calls := system.calls.modify channel.call (fun call =>
                    { call with replies := call.replies.set channel.position (some reply) }) },
                true) := by
  cases committed : (system.workers worker).deltas with
  | cons delta deltas => exact Or.inl (by simp only [respond, committed])
  | nil =>
      cases inHand : (system.workers worker).reply with
      | none => exact Or.inl (by simp only [respond, committed, inHand])
      | some answer =>
          exact Or.inr ⟨answer.1, answer.2, rfl, rfl, respond_eq committed inHand⟩

/-- A reply of one worker leaves the others. -/
theorem workers_respond_of_ne {other : Fin router.workerCount} (differ : other ≠ worker)
    : (system.respond worker).1.workers other = system.workers other := by
  rcases system.respond_cases worker with same | ⟨_, _, _, _, responds⟩
  · rw [same]
  · rw [responds]
    exact setWorker_of_ne differ ..

variable [Event EL] [Snapshot SL EL] [ApplyEvent EL SL]

/-- A running worker with nothing in hand handles the first message of its queue. -/
theorem handle_eq {visits : List SnapshotId} {inbound : List (WorkerInbound SL EL)}
    {handled : Handled SL EL}
    (running : (system.workers worker).stopped = false)
    (committed : (system.workers worker).deltas = [])
    (replied : (system.workers worker).reply = none)
    (queue : (system.workers worker).inbound = message :: inbound)
    (shape
      : handleWorker router.lowerTimeHorizonDelta (system.workers worker).historyById message
          visits
        = some handled)
    : system.handle worker visits
      = (system.setWorker worker
          { inbound, historyById := handled.historyById, deltas := handled.deltas,
            reply := some handled.reply, stopped := false }, true) := by
  simp only [System.handle, running, committed, replied, queue, shape]

/-- A worker takes no message, stops at it, or handles it. -/
theorem handle_cases (system : System router SL EL) (worker : Fin router.workerCount)
    (visits : List SnapshotId)
    : system.handle worker visits = (system, false)
      ∨ ∃ message inbound,
          (system.workers worker).stopped = false
          ∧ (system.workers worker).deltas = []
          ∧ (system.workers worker).reply = none
          ∧ (system.workers worker).inbound = message :: inbound
          ∧ ((handleWorker router.lowerTimeHorizonDelta (system.workers worker).historyById
                message visits = none
              ∧ system.handle worker visits
                = (system.setWorker worker
                    { system.workers worker with inbound := [], stopped := true }, true))
            ∨ ∃ handled,
                handleWorker router.lowerTimeHorizonDelta (system.workers worker).historyById
                  message visits = some handled
                ∧ system.handle worker visits
                  = (system.setWorker worker
                      { inbound, historyById := handled.historyById, deltas := handled.deltas,
                        reply := some handled.reply, stopped := false }, true)) := by
  unfold System.handle
  dsimp only
  split
  next message inbound running committed replied queue =>
    refine Or.inr ⟨message, inbound, running, committed, replied, queue, ?_⟩
    cases shape : handleWorker router.lowerTimeHorizonDelta
        (system.workers worker).historyById message visits with
    | none => exact Or.inl ⟨rfl, rfl⟩
    | some handled => exact Or.inr ⟨handled, rfl, rfl⟩
  next => exact Or.inl rfl

/-- A message that one worker takes leaves the others. -/
theorem workers_handle_of_ne {other : Fin router.workerCount} (differ : other ≠ worker)
    (visits : List SnapshotId)
    : (system.handle worker visits).1.workers other = system.workers other := by
  rcases system.handle_cases worker visits with
    same | ⟨_, _, _, _, _, _, ⟨_, stops⟩ | ⟨_, _, takes⟩⟩
  · rw [same]
  · rw [stops]
    exact setWorker_of_ne differ ..
  · rw [takes]
    exact setWorker_of_ne differ ..

/-- What a worker takes in hand concerns no call yet. -/
theorem calls_handle (system : System router SL EL) (worker : Fin router.workerCount)
    (visits : List SnapshotId)
    : (system.handle worker visits).1.calls = system.calls := by
  rcases system.handle_cases worker visits with
    same | ⟨_, _, _, _, _, _, ⟨_, stops⟩ | ⟨_, _, takes⟩⟩
  · rw [same]
  · rw [stops]
    rfl
  · rw [takes]
    rfl

end System

end Contime
