import Contime.System.Memory
import Contime.System.Service
import Contime.Worker.Inputs

/-! The inputs that reach the history of one id. Whatever else a system handles, and however its
workers are scheduled, the history of the id is what these inputs make of it.
-/

namespace Contime

universe u v
variable {SL : Type u} {EL : Type v} {router : Router}

namespace System
variable {system : System router SL EL}

/-- The history of an id, with the worker that owns it. -/
def held (system : System router SL EL) (snapshotId : SnapshotId)
    : Option (LocalSnapshotHistory SL EL) :=
  (system.workers (router.workerIndex snapshotId)).historyById.get? snapshotId

variable [Event EL] [Snapshot SL EL] [ApplyEvent EL SL]

/-- What a query of the id returns when its worker handles it now; `none` when the worker ends in
the panic of the range call.
-/
def answer (system : System router SL EL) (time : Time) (snapshotId : SnapshotId)
    : Option (QueryResult SL) :=
  match system.held snapshotId with
  | some history => (history.snapshotAt time).map .found
  | none => some .notFound

omit [Event EL] in
/-- A query finds what the history of the id answers. -/
theorem answer_eq_found {time : Time} {snapshotId : SnapshotId} {snapshot : SL}
    : system.answer time snapshotId = some (.found snapshot)
      ↔ ∃ history,
          system.held snapshotId = some history ∧ history.snapshotAt time = some snapshot := by
  rw [answer]
  cases system.held snapshotId with
  | none => simp
  | some history => simp

/-- The worker of an id replies to a query with the answer. -/
theorem handleWorker_answer (system : System router SL EL) (time : Time) (snapshotId : SnapshotId)
    (reply : ReplyChannel)
    : let historyById := (system.workers (router.workerIndex snapshotId)).historyById
      handleWorker router.lowerTimeHorizonDelta historyById (.snapshotAt snapshotId time reply)
        = (system.answer time snapshotId).map (fun result =>
            { historyById, deltas := [], reply := (reply, .queried result) }) := by
  intro historyById
  have same : system.held snapshotId = historyById.get? snapshotId := rfl
  rw [handleWorker, answer, same]
  cases historyById.get? snapshotId with
  | none => rfl
  | some history =>
      rw [Option.map_map]
      rfl

/-- The message that a step handles, with its worker. -/
def handles (system : System router SL EL)
    : Action router SL EL → List (Fin router.workerCount × WorkerInbound SL EL)
  | .handle worker visits =>
      let after := (system.handle worker visits).1.workers worker
      if (system.handle worker visits).2 = true ∧ after.stopped = false then
        (system.workers worker).inbound.head?.toList.map (worker, ·)
      else []
  | .sendEvent _ | .sendSnapshot _ | .queryAt _ _ | .sendAdvance _ | .enqueue _ | .commit _
  | .respond _ => []

/-- What the messages bring to the history of an id, which its worker alone handles. -/
def inputsOf (snapshotId : SnapshotId)
    (messages : List (Fin router.workerCount × WorkerInbound SL EL))
    : List (Input SL EL) :=
  messages.filterMap (fun entry =>
    if entry.1 = router.workerIndex snapshotId then entry.2.inputFor snapshotId else none)

variable [EventLanes EL SL]

/-- The inputs of an id that its worker has handled in a run, in order. -/
def inputsFor (snapshotId : SnapshotId) (actions : List (Action router SL EL))
    : List (Input SL EL) :=
  inputsOf snapshotId (Transducer.emitted step handles new actions)

/-- A step changes the history of an id by the inputs that it handles. -/
theorem held_step (system : System router SL EL) (action : Action router SL EL)
    (snapshotId : SnapshotId)
    : (system.step action).1.held snapshotId
      = (inputsOf snapshotId (system.handles action)).foldl
          (Input.take router.lowerTimeHorizonDelta) (system.held snapshotId) := by
  have kept {after : System router SL EL}
      (histories : ∀ worker,
        (after.workers worker).historyById = (system.workers worker).historyById)
      : after.held snapshotId = system.held snapshotId := by
    rw [held, held, histories]
  cases action with
  | sendEvent | sendSnapshot | queryAt | sendAdvance => rfl
  | enqueue index => exact kept (SameAccounts.enqueue system index).histories
  | respond worker => exact kept (SameAccounts.respond system worker).histories
  | commit worker =>
      rw [System.step]
      rcases system.commit_cases worker with same | ⟨_, _, _, commits⟩
      · rw [same]
        rfl
      · rw [commits]
        exact kept (setWorker_part WorkerState.historyById rfl)
  | handle worker visits =>
      have result
          : (system.step (.handle worker visits)).1 = (system.handle worker visits).1 := rfl
      rw [result]
      rcases system.handle_cases worker visits with
        same | ⟨message, inbound, _, _, _, queue, ⟨_, stops⟩ | ⟨handled, shape, takes⟩⟩
      · have nothing : system.handles (.handle worker visits) = [] := by simp [handles, same]
        rw [nothing, same]
        rfl
      · have nothing : system.handles (.handle worker visits) = [] := by
          simp [handles, stops]
        rw [nothing, stops]
        exact kept (setWorker_part WorkerState.historyById rfl)
      · have one : system.handles (.handle worker visits) = [(worker, message)] := by
          simp [handles, takes, queue]
        rw [one, takes, held, held]
        by_cases own : worker = router.workerIndex snapshotId
        · subst own
          rw [setWorker_self, get?_handleWorker shape, ownHistory_eq_take]
          cases input : message.inputFor snapshotId with
          | none => simp [inputsOf, input]
          | some input => simp [inputsOf, *]
        · rw [setWorker_of_ne (Ne.symm own)]
          simp [inputsOf, own]

/-- Steps change the history of an id by the inputs that they handle. -/
theorem held_run (system : System router SL EL) (actions : List (Action router SL EL))
    (snapshotId : SnapshotId)
    : (system.run actions).held snapshotId
      = (inputsOf snapshotId (Transducer.emitted step handles system actions)).foldl
          (Input.take router.lowerTimeHorizonDelta) (system.held snapshotId) := by
  induction actions generalizing system with
  | nil => rfl
  | cons action rest ih =>
      have later := ih (system.step action).1
      rw [held_step] at later
      rw [Transducer.emitted, inputsOf, List.filterMap_append, List.foldl_append]
      exact later

/-- The history of an id is what the inputs of the id make of none. -/
theorem held_new_run (actions : List (Action router SL EL)) (snapshotId : SnapshotId)
    : ((new : System router SL EL).run actions).held snapshotId
      = (inputsFor snapshotId actions).foldl (Input.take router.lowerTimeHorizonDelta) none :=
  held_run new actions snapshotId

/-- Two runs in which the same inputs reach an id give the same answers for it, whatever else
they handle, with whatever workers and in whatever order.
-/
theorem answer_eq_of_inputs {other : Router}
    (horizon : router.lowerTimeHorizonDelta = other.lowerTimeHorizonDelta)
    {actions : List (Action router SL EL)} {others : List (Action other SL EL)}
    {snapshotId : SnapshotId}
    (same : inputsFor snapshotId actions = inputsFor snapshotId others) (time : Time)
    : ((new : System router SL EL).run actions).answer time snapshotId
      = ((new : System other SL EL).run others).answer time snapshotId := by
  have histories : ((new : System router SL EL).run actions).held snapshotId
      = ((new : System other SL EL).run others).held snapshotId := by
    rw [held_new_run, held_new_run, same, horizon]
  rw [answer, answer, histories]

end System

end Contime
