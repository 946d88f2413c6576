import Contime.Library.ShardedMap
import Contime.System.Budget
import Contime.System.ReplyChannels
import Mathlib.Algebra.BigOperators.Ring.Finset

/-! Workers as shards of one store. To a client that waits for each of its calls it makes no
difference how many workers there are and which ids they own: the same requests are turned away, and
the histories and the memory counter are the same.
-/

open scoped BigOperators

namespace Contime

universe u v
variable {SL : Type u} {EL : Type v} {router other : Router}

-----------------------------------------------------------------------------------------
-- Requests
-----------------------------------------------------------------------------------------

/-- What a client asks for, whatever router it asks. -/
inductive Request (SL : Type u) (EL : Type v) where
  | event (lane : EL)
  | snapshot (lane : SL)
  | advance (time : Time)

/-- The request that a call makes, if it may change histories. -/
def Action.request : Action router SL EL → Option (Request SL EL)
  | .sendEvent lane => some (.event lane)
  | .sendSnapshot lane => some (.snapshot lane)
  | .sendAdvance time => some (.advance time)
  | .queryAt _ _ | .enqueue _ | .handle _ _ | .commit _ | .respond _ => none

/-- A call that may change histories makes a request. -/
theorem Action.Mutates.request {action : Action router SL EL} (mutates : action.Mutates)
    : ∃ request, action.request = some request := by
  cases action with
  | sendEvent | sendSnapshot | sendAdvance => exact ⟨_, rfl⟩
  | queryAt | enqueue | handle | commit | respond => exact mutates.elim

variable [Event EL] [Snapshot SL EL]

namespace Request

/-- The router turns the request away. -/
def Refused (usage budget : UInt64) : Request SL EL → Prop
  | .event lane => usage + Event.conservativeSize lane ≥ budget
  | .snapshot lane => usage + Snapshot.conservativeSize lane ≥ budget
  | .advance _ => False

instance (usage budget : UInt64) (request : Request SL EL)
    : Decidable (request.Refused usage budget) := by
  cases request <;> unfold Refused <;> infer_instance

/-- What the request brings to the history of an id. -/
def inputsFor [ApplyEvent EL SL] [EventLanes EL SL] (snapshotId : SnapshotId)
    : Request SL EL → List (Input SL EL)
  | .event lane =>
      ((EventLanes.snapshots lane : List SL).filter (fun target =>
        decide (Snapshot.id target = snapshotId))).map (.event lane)
  | .snapshot lane => if Snapshot.id lane = snapshotId then [.snapshot lane] else []
  | .advance time => [.advance time]

end Request

variable [ApplyEvent EL SL]

namespace System
variable {system : System router SL EL}

/-- A message that mutates, to the owner of its id, which is answered on its channel. -/
def Sharded (router : Router) (channel : ReplyChannel) (worker : Fin router.workerCount)
    (message : WorkerInbound SL EL)
    : Prop :=
  message.Mutates
  ∧ message.reply = some channel
  ∧ ∀ snapshotId, message.Addresses snapshotId → router.workerIndex snapshotId = worker

/-- The worker has histories of its own ids only. -/
def Owns (router : Router) (worker : Fin router.workerCount) (historyById : HistoryById SL EL)
    : Prop :=
  ∀ snapshotId history, historyById.get? snapshotId = some history
  → router.workerIndex snapshotId = worker

/-- A message to the owner of its id leaves the worker with its own ids only. -/
theorem Sharded.owns {channel : ReplyChannel} {worker : Fin router.workerCount}
    {message : WorkerInbound SL EL} {historyById : HistoryById SL EL} {handled : Handled SL EL}
    (sharded : Sharded router channel worker message) (owns : Owns router worker historyById)
    (shape : handleWorker router.lowerTimeHorizonDelta historyById message = some handled)
    : Owns router worker handled.historyById := by
  intro snapshotId history found
  by_cases own : message.Addresses snapshotId
  · exact sharded.2.2 snapshotId own
  · rw [get?_handleWorker shape] at found
    cases message with
    | advanceTime time reply =>
        obtain ⟨before, old, _⟩ := Option.map_eq_some_iff.mp found
        exact owns snapshotId before old
    | event target | snapshot lane =>
        simp only [WorkerInbound.Addresses, ownHistory] at own found
        rw [if_neg own] at found
        exact owns snapshotId history found
    | snapshotAt | shutdown => exact owns snapshotId history found

/-- Workers that own their ids, whatever they reply. -/
def shards (router : Router) (SL : Type u) (EL : Type v) [Event EL] [Snapshot SL EL]
    [ApplyEvent EL SL]
    : Service router SL EL where
  Genuine := Sharded router
  Keeps := Owns router
  Answered _ _ _ := True
  serves {channel worker message historyById} sharded owns := by
    obtain ⟨handled, shape⟩ :=
      handleWorker_of_mutates router.lowerTimeHorizonDelta historyById sharded.1 []
    have answers := reply_handleWorker shape
    rw [sharded.2.1] at answers
    exact ⟨handled, shape, (Option.some.inj answers).symm, sharded.owns owns shape, trivial,
      fun _ _ _ => trivial⟩

/-- The histories of a system whose workers own their ids. -/
def shardedMap (system : System router SL EL) (serving : Serving (shards router SL EL) system)
    : ShardedMap SnapshotId (LocalSnapshotHistory SL EL) (Fin router.workerCount) where
  owner := router.workerIndex
  shards worker := (system.workers worker).historyById
  owned := serving.keeps

variable [EventLanes EL SL]

-----------------------------------------------------------------------------------------
-- What a request costs
-----------------------------------------------------------------------------------------

/-- What a request adds to the memory counter when it is let in. -/
def expense (system : System router SL EL) : Request SL EL → Int
  | .event lane => system.cost (.sendEvent lane)
  | .snapshot lane => system.cost (.sendSnapshot lane)
  | .advance time =>
      ∑ worker,
        messageCost router.lowerTimeHorizonDelta (system.workers worker).historyById
          (.advanceTime time ⟨system.calls.length, worker.val⟩)

/-- Systems with the same histories have the same expenses. -/
theorem expense_congr {left : System router SL EL} {right : System other SL EL}
    (leftServing : Serving (shards router SL EL) left)
    (rightServing : Serving (shards other SL EL) right)
    (horizon : router.lowerTimeHorizonDelta = other.lowerTimeHorizonDelta)
    (held : ∀ snapshotId, left.held snapshotId = right.held snapshotId)
    (request : Request SL EL)
    : left.expense request = right.expense request := by
  cases request with
  | event lane => simp only [expense, cost, horizon, held]
  | snapshot lane => simp only [expense, cost, held]
  | advance time =>
      have spread (snapshotId : SnapshotId)
          : (left.shardedMap leftServing).get? snapshotId
            = (right.shardedMap rightServing).get? snapshotId :=
        held snapshotId
      have total (weight : LocalSnapshotHistory SL EL → Nat)
          : ∑ worker, ((left.workers worker).historyById.weigh weight : Int)
            = ∑ worker, ((right.workers worker).historyById.weigh weight : Int) := by
        rw [← Nat.cast_sum, ← Nat.cast_sum]
        exact congrArg Nat.cast (ShardedMap.sum_weigh_congr spread weight)
      simp only [expense, messageCost, Finset.sum_sub_distrib, historiesSize,
        BTreeMap.weigh_mapValues]
      rw [total, total]

-----------------------------------------------------------------------------------------
-- What a call delivers
-----------------------------------------------------------------------------------------

omit [Event EL] [Snapshot SL EL] [ApplyEvent EL SL] [EventLanes EL SL] in
/-- A client that can go on sends the next message of its call. -/
theorem Flowing.sends_enqueue (flowing : system.Flowing) (index : Nat)
    : system.sends (.enqueue index) ++ (system.enqueue index).1.pendingAt index
      = system.pendingAt index := by
  rcases flowing.enqueue_cases index with
    same | ⟨call, worker, message, found, pending, _, accepted, sends⟩
  · have nothing : system.sends (.enqueue index) = [] := by
      rw [System.sends, same]
      cases system.calls[index]? with
      | none => rfl
      | some call => exact List.drop_take_self
    rw [nothing, same, List.nil_append]
  · have advanced : (system.enqueue index).1.calls[index]?
        = some { call with sent := call.sent + 1 } := by
      rw [sends]
      dsimp only
      rw [List.getElem?_modify_eq, found]
      rfl
    have left : call.messages.drop call.sent
        = (worker, message) :: Call.pending { call with sent := call.sent + 1 } := by
      rw [← pending, Call.pending, if_pos accepted]
    have one : system.sends (.enqueue index) = [(worker, message)] := by
      rw [System.sends, found, advanced]
      dsimp only
      rw [List.drop_take, left, Nat.add_sub_cancel_left]
      rfl
    rw [one, pendingAt, pendingAt, List.getElem?_map, List.getElem?_map, advanced, found]
    exact pending.symm

/-- While only the call at one index still sends, each step sends the front of what it has left. -/
theorem Flowing.sends_step (flowing : system.Flowing) {last : Nat}
    (others : ∀ index, index ≠ last → system.pendingAt index = []) {action : Action router SL EL}
    (serves : action.Serves)
    : (∀ index, index ≠ last → (system.step action).1.pendingAt index = [])
      ∧ system.sends action ++ (system.step action).1.pendingAt last = system.pendingAt last := by
  have still (same : (system.step action).1.calls.map Call.pending
        = system.calls.map Call.pending)
      (nothing : system.sends action = [])
      : (∀ index, index ≠ last → (system.step action).1.pendingAt index = [])
        ∧ system.sends action ++ (system.step action).1.pendingAt last = system.pendingAt last := by
    have pending (index : Nat)
        : (system.step action).1.pendingAt index = system.pendingAt index := by
      rw [pendingAt, pendingAt, same]
    refine ⟨fun index differ => (pending index).trans (others index differ), ?_⟩
    rw [nothing, pending, List.nil_append]
  cases action with
  | sendEvent | sendSnapshot | queryAt | sendAdvance => exact serves.elim
  | handle worker visits => exact still (by rw [System.step, calls_handle]) rfl
  | commit worker => exact still (by rw [System.step, calls_commit]) rfl
  | respond worker =>
      refine still ?_ rfl
      rw [System.step]
      rcases system.respond_cases worker with same | ⟨_, _, _, _, responds⟩
      · rw [same]
      · rw [responds]
        refine map_modify ?_ system.calls _
        exact fun _ => rfl
  | enqueue index =>
      by_cases own : index = last
      · subst own
        refine ⟨fun other differ => ?_, flowing.sends_enqueue index⟩
        have none := others other differ
        rw [System.step]
        rcases flowing.enqueue_cases index with same | ⟨_, _, _, _, _, _, _, sends⟩
        · rwa [same]
        · rw [sends]
          rw [pendingAt, List.getElem?_map] at none ⊢
          dsimp only
          rwa [List.getElem?_modify_ne _ _ (Ne.symm differ)]
      · -- The other calls have nothing to send, and so no step.
        have nothing := others index own
        rcases flowing.enqueue_cases index with same | ⟨_, _, _, found, pending, _⟩
        · refine still (by rw [System.step, same]) ?_
          rw [System.sends, same]
          cases system.calls[index]? with
          | none => rfl
          | some call => exact List.drop_take_self
        · rw [pendingAt, List.getElem?_map, found, Option.map_some, pending] at nothing
          cases nothing

/-- Steps of the calls under way send the front of what the last call has left. -/
theorem Flowing.sends_run (flowing : system.Flowing) {last : Nat}
    (others : ∀ index, index ≠ last → system.pendingAt index = [])
    {steps : List (Action router SL EL)} (serves : ∀ step ∈ steps, step.Serves)
    : Transducer.emitted System.step sends system steps ++ (system.run steps).pendingAt last
      = system.pendingAt last := by
  induction steps generalizing system with
  | nil => rfl
  | cons action rest ih =>
      have first := serves action (.head _)
      obtain ⟨after, sent⟩ := flowing.sends_step others first
      have later := ih (flowing.step first) after (fun other member =>
        serves other (.tail _ member))
      rw [Transducer.emitted, List.append_assoc, run_cons, later]
      exact sent

/-- While all workers are idle, each has handled in further steps exactly what they sent to it. -/
theorem messagesFor_handled {past actions : List (Action router SL EL)}
    {worker : Fin router.workerCount}
    (before : (((new : System router SL EL).run past).workers worker).Idle)
    (flowing : ((new : System router SL EL).run (past ++ actions)).Flowing)
    (after : (((new : System router SL EL).run (past ++ actions)).workers worker).Idle)
    (running : (((new : System router SL EL).run past).workers worker).stopped = false)
    : messagesFor worker (Transducer.emitted System.step handles (new.run past) actions)
      = messagesFor worker (Transducer.emitted System.step sends (new.run past) actions) := by
  have first := run_queue past running
  have whole := run_queue (past ++ actions) (flowing.workers worker).running
  rw [before.inbound, List.append_nil] at first
  rw [after.inbound, List.append_nil, sent, handled, Transducer.emitted_append,
    Transducer.emitted_append, messagesFor_append, messagesFor_append] at whole
  rw [sent, handled] at first
  rw [first] at whole
  exact (List.append_cancel_left whole).symm

/-- A call that is let in brings its messages' inputs to the histories. -/
theorem held_call {past : List (Action router SL EL)} {call : BlockingCall router SL EL}
    (flowing : ((new : System router SL EL).run past).Flowing)
    (returned : ((new : System router SL EL).run past).Returned)
    (blocks : ((new : System router SL EL).run past).Blocks call)
    {messages : List (Fin router.workerCount × WorkerInbound SL EL)}
    (starts
      : (((new : System router SL EL).run past).step call.action).1
        = { (new : System router SL EL).run past with
            calls := ((new : System router SL EL).run past).calls ++ [.open messages] })
    (snapshotId : SnapshotId)
    : (((new : System router SL EL).run past).run call.actions).held snapshotId
      = (inputsOf snapshotId messages).foldl (Input.take router.lowerTimeHorizonDelta)
          (((new : System router SL EL).run past).held snapshotId) := by
  have started := flowing.begin blocks.mutates
  have joined : ((new : System router SL EL).run past).run call.actions
      = (new : System router SL EL).run (past ++ call.actions) :=
    (Transducer.final_append _ _ _).symm
  have run : ((new : System router SL EL).run past).run call.actions
      = (((new : System router SL EL).run past).step call.action).1.run call.steps := rfl
  have finished : (((new : System router SL EL).run past).run call.actions).Flowing := by
    rw [run]
    exact started.run blocks.serves
  obtain ⟨own, others⟩ := returned.pendingAt_start (congrArg System.calls starts)
  have sends := started.sends_run others blocks.serves
  rw [own, ← run, blocks.returned.pendingAt_eq_nil, List.append_nil] at sends
  have first : ((new : System router SL EL).run past).sends call.action = [] := by
    have mutates := blocks.mutates
    cases shape : call.action with
    | sendEvent | sendSnapshot | sendAdvance => rfl
    | queryAt | enqueue | handle | commit | respond =>
        rw [shape] at mutates
        exact mutates.elim
  have all : Transducer.emitted System.step System.sends ((new : System router SL EL).run past)
      call.actions = messages := by
    rw [BlockingCall.actions, Transducer.emitted, first, List.nil_append]
    exact sends
  rw [held_run, inputsOf_eq, inputsOf_eq, messagesFor_handled, all]
  · exact flowing.idle returned _
  · exact joined ▸ finished
  · exact joined ▸ finished.idle blocks.returned _
  · exact (flowing.workers _).running

-----------------------------------------------------------------------------------------
-- What a request does
-----------------------------------------------------------------------------------------

omit [Event EL] [Snapshot SL EL] [ApplyEvent EL SL] [EventLanes EL SL] in
/-- A message to each worker is one message for each of them. -/
theorem messagesFor_finRange (message : Fin router.workerCount → WorkerInbound SL EL)
    (worker : Fin router.workerCount)
    : messagesFor worker ((List.finRange router.workerCount).map (fun other =>
        (other, message other))) = [message worker] := by
  have one : (List.finRange router.workerCount).filter (fun other => other = worker)
      = [worker] := by
    rw [List.filter_eq, List.count_eq_one_of_mem (List.nodup_finRange _) (List.mem_finRange _)]
    rfl
  rw [messagesFor, List.filter_map, List.map_map]
  exact congrArg (List.map message) one

omit [Event EL] [ApplyEvent EL SL] [EventLanes EL SL] in
/-- The messages of an event bring it to the histories of its targets. -/
theorem inputsOf_eventMessages (lane : EL) (targets : List SL)
    (channel : Nat → ReplyChannel) (snapshotId : SnapshotId)
    : inputsOf snapshotId (targets.mapIdx (fun position target =>
        delivery router lane target (channel position)))
      = ((targets.filter (fun target => decide (Snapshot.id target = snapshotId))).map
          (.event lane) : List (Input SL EL)) := by
  induction targets generalizing channel with
  | nil => rfl
  | cons target rest ih =>
      have later := ih (fun position => channel (position + 1))
      rw [List.mapIdx_cons, inputsOf, List.filterMap_cons]
      rw [inputsOf] at later
      by_cases own : Snapshot.id target = snapshotId
      · subst own
        simpa [delivery, WorkerInbound.inputFor] using later
      · simpa [delivery, WorkerInbound.inputFor, own] using later

/-- A request starts a call, which is turned away or has messages to the owners of their ids that
bring what the request brings and cost what it costs.
-/
theorem step_request (system : System router SL EL) {action : Action router SL EL}
    {request : Request SL EL} (asks : action.request = some request)
    : ∃ messages,
        (system.step action).1
          = { system with
              calls := system.calls
                ++ [if request.Refused system.memoryUsage router.memoryBudget then
                      .rejected .memoryFull
                    else .open messages] }
        ∧ (∀ snapshotId, inputsOf snapshotId messages = request.inputsFor snapshotId)
        ∧ (∑ worker,
            queueCost router.lowerTimeHorizonDelta (system.workers worker).historyById
              (addressed worker messages))
          = system.expense request
        ∧ ∀ position worker message, messages[position]? = some (worker, message)
          → Sharded router ⟨system.calls.length, position⟩ worker message := by
  cases action with
  | sendEvent lane =>
      obtain rfl := Option.some.inj asks
      refine ⟨eventMessages router system.calls.length lane, rfl, ?_, ?_, ?_⟩
      · exact inputsOf_eventMessages lane (EventLanes.snapshots lane) (fun position =>
          { call := system.calls.length, position })
      · exact sum_targetCost lane (EventLanes.snapshots lane)
          (fun position => { call := system.calls.length, position })
          (fun worker => (system.workers worker).historyById)
      · intro position worker message found
        rw [eventMessages, List.getElem?_mapIdx, Option.map_eq_some_iff] at found
        obtain ⟨target, _, equal⟩ := found
        obtain ⟨rfl, rfl⟩ := Prod.mk.inj equal
        exact ⟨trivial, rfl, fun snapshotId own => congrArg router.workerIndex own.symm⟩
  | sendSnapshot lane =>
      obtain rfl := Option.some.inj asks
      refine ⟨[(router.workerIndex (Snapshot.id lane), .snapshot lane ⟨system.calls.length, 0⟩)],
        rfl, ?_, ?_, ?_⟩
      · intro snapshotId
        by_cases own : Snapshot.id lane = snapshotId
        · subst own
          simp [inputsOf, WorkerInbound.inputFor, Request.inputsFor]
        · simp [inputsOf, WorkerInbound.inputFor, Request.inputsFor, own]
      · have mutates : (WorkerInbound.snapshot lane ⟨system.calls.length, 0⟩
            : WorkerInbound SL EL).Mutates := trivial
        let histories (worker : Fin router.workerCount) : HistoryById SL EL :=
          (system.workers worker).historyById
        obtain ⟨handled, shape⟩ := handleWorker_of_mutates router.lowerTimeHorizonDelta
          (histories (router.workerIndex (Snapshot.id lane))) mutates []
        rw [sum_queueCost_cons shape []]
        simp [histories, addressed, queueCost, messageCost, expense, cost, held]
      · intro position worker message found
        obtain ⟨rfl, rfl, rfl⟩ : position = 0
            ∧ router.workerIndex (Snapshot.id lane) = worker
            ∧ .snapshot lane ⟨system.calls.length, 0⟩ = message := by
          simpa [List.getElem?_singleton] using found
        exact ⟨trivial, rfl, fun snapshotId own => congrArg router.workerIndex own.symm⟩
  | sendAdvance time =>
      obtain rfl := Option.some.inj asks
      let message (worker : Fin router.workerCount) : WorkerInbound SL EL :=
        .advanceTime time ⟨system.calls.length, worker.val⟩
      have single (worker : Fin router.workerCount) := messagesFor_finRange message worker
      refine ⟨(List.finRange router.workerCount).map (fun worker => (worker, message worker)),
        rfl, ?_, ?_, ?_⟩
      · intro snapshotId
        rw [inputsOf_eq, single]
        rfl
      · refine Finset.sum_congr rfl (fun worker _ => ?_)
        have queue : addressed worker
            ((List.finRange router.workerCount).map (fun other => (other, message other)))
            = [message worker] := single worker
        obtain ⟨handled, shape⟩ := handleWorker_of_mutates router.lowerTimeHorizonDelta
          (system.workers worker).historyById (show (message worker).Mutates from trivial) []
        rw [queue, queueCost_cons shape, queueCost, Int.add_zero]
      · intro position worker sent found
        rw [List.getElem?_map, Option.map_eq_some_iff] at found
        obtain ⟨other, present, equal⟩ := found
        obtain ⟨rfl, rfl⟩ := Prod.mk.inj equal
        obtain ⟨inside, listed⟩ := List.getElem?_eq_some_iff.mp present
        have place : other.val = position := by
          rw [← listed, List.getElem_finRange]
          rfl
        exact ⟨trivial, place ▸ rfl, fun snapshotId own => own.elim⟩
  | queryAt | enqueue | handle | commit | respond => cases asks

/-- What a blocking call of a request does to the errors of the calls, to the memory counter and to
the histories.
-/
structure Performs (system after : System router SL EL) (request : Request SL EL) : Prop where
  errors
    : after.calls.map Call.error
      = system.calls.map Call.error
        ++ [if request.Refused system.memoryUsage router.memoryBudget then some .memoryFull
            else none]
  usage
    : (after.memoryUsage.toNat : Int)
      = system.memoryUsage.toNat
        + if request.Refused system.memoryUsage router.memoryBudget then 0
          else system.expense request
  held
    : ∀ snapshotId, after.held snapshotId
        = if request.Refused system.memoryUsage router.memoryBudget then system.held snapshotId
          else (request.inputsFor snapshotId).foldl (Input.take router.lowerTimeHorizonDelta)
            (system.held snapshotId)

/-- A blocking call performs its request, whatever the schedule of its steps. -/
theorem performs_request {past : List (Action router SL EL)} {call : BlockingCall router SL EL}
    {request : Request SL EL} (asks : call.action.request = some request)
    (flowing : ((new : System router SL EL).run past).Flowing)
    (returned : ((new : System router SL EL).run past).Returned)
    (blocks : ((new : System router SL EL).run past).Blocks call)
    (fit : ∀ steps, steps <+: past ++ call.actions
      → ((new : System router SL EL).run steps).TotalsFit (posted steps))
    : Performs ((new : System router SL EL).run past) (new.run (past ++ call.actions)) request := by
  have joined : (new : System router SL EL).run (past ++ call.actions)
      = ((new : System router SL EL).run past).run call.actions :=
    Transducer.final_append _ _ _
  obtain ⟨messages, starts, inputs, cost, _⟩ := step_request (new.run past) asks
  by_cases refused
    : request.Refused ((new : System router SL EL).run past).memoryUsage router.memoryBudget
  · rw [if_pos refused] at starts
    have same := joined.trans (flowing.run_rejected returned blocks starts)
    refine ⟨?_, ?_, fun snapshotId => ?_⟩
    · rw [if_pos refused, same, List.map_append]
      rfl
    · rw [if_pos refused, same, Int.add_zero]
    · rw [if_pos refused, same]
      rfl
  · rw [if_neg refused] at starts
    have started := flowing.begin blocks.mutates
    have finished : ((new : System router SL EL).run (past ++ call.actions)).Flowing := by
      rw [joined]
      exact started.run blocks.serves
    have results : ((new : System router SL EL).run (past ++ call.actions)).Returned :=
      joined ▸ blocks.returned
    refine ⟨?_, ?_, fun snapshotId => ?_⟩
    · have errors := started.errors_run blocks.serves
      rw [if_neg refused, joined]
      refine errors.trans ?_
      rw [starts, List.map_append]
      rfl
    · have before := memoryUsage_of_idle (fun steps within =>
        fit steps (within.trans (List.prefix_append _ _))) (flowing.idle returned)
      have after := memoryUsage_of_idle fit (finished.idle results)
      have total := (flowing.run_opened returned blocks starts (fun steps early worker => by
        have whole := fit (past ++ steps) ((List.prefix_append_right_inj _).mpr early)
        have parts : (new : System router SL EL).run (past ++ steps)
            = ((new : System router SL EL).run past).run steps :=
          Transducer.final_append _ _ _
        exact parts ▸ whole.histories worker)).2
      rw [if_neg refused, after, before, System.returned, Transducer.emitted_append,
        Ledger.total_append, ← cost]
      exact congrArg (_ + ·) total
    · rw [if_neg refused, joined, ← inputs]
      exact held_call flowing returned blocks starts snapshotId

/-- The call that a request starts keeps every worker to its own ids. -/
theorem Serving.request {system : System router SL EL}
    (serving : Serving (shards router SL EL) system) {call : BlockingCall router SL EL}
    {request : Request SL EL} (asks : call.action.request = some request)
    (blocks : system.Blocks call)
    : Serving (shards router SL EL) (system.run call.actions) := by
  obtain ⟨messages, starts, _, _, genuine⟩ := system.step_request asks
  have started : Serving (shards router SL EL) (system.step call.action).1 := by
    rw [starts]
    split
    · exact serving.rejected .memoryFull
    · refine serving.start rfl rfl (fun reply member => ?_) genuine
      exact (List.mem_map.mp member).choose_spec.2.symm
  exact started.run blocks.serves

-----------------------------------------------------------------------------------------
-- Two systems side by side
-----------------------------------------------------------------------------------------

/-- No client can tell the systems apart: their calls failed alike, their counters are equal and so
are their histories.
-/
structure Alike (left : System router SL EL) (right : System other SL EL) : Prop where
  errors : left.calls.map Call.error = right.calls.map Call.error
  usage : left.memoryUsage = right.memoryUsage
  held : ∀ snapshotId, left.held snapshotId = right.held snapshotId

omit [Event EL] [EventLanes EL SL] in
/-- Systems that are alike answer alike. -/
theorem Alike.answer {left : System router SL EL} {right : System other SL EL}
    (alike : Alike left right) (time : Time) (snapshotId : SnapshotId)
    : left.answer time snapshotId = right.answer time snapshotId := by
  rw [System.answer, System.answer, alike.held]

/-- The same request keeps systems alike. -/
theorem Alike.performs {left leftAfter : System router SL EL}
    {right rightAfter : System other SL EL}
    (alike : Alike left right) (leftServing : Serving (shards router SL EL) left)
    (rightServing : Serving (shards other SL EL) right)
    (budget : router.memoryBudget = other.memoryBudget)
    (horizon : router.lowerTimeHorizonDelta = other.lowerTimeHorizonDelta)
    {request : Request SL EL} (first : Performs left leftAfter request)
    (second : Performs right rightAfter request)
    : Alike leftAfter rightAfter := by
  have expense := expense_congr leftServing rightServing horizon alike.held request
  refine ⟨?_, UInt64.toNat_inj.mp (Int.ofNat_inj.mp ?_), fun snapshotId => ?_⟩
  · rw [first.errors, second.errors, alike.errors]
    simp only [alike.usage, budget]
  · refine first.usage.trans (Eq.trans ?_ second.usage.symm)
    simp only [alike.usage, budget, expense]
  · rw [first.held, second.held, alike.held, horizon]
    simp only [alike.usage, budget]

/-- Blocking calls keep every worker to its own ids. -/
theorem serving_blocking {calls : List (BlockingCall router SL EL)}
    (blocking : Transducer.Each perform Blocks new calls)
    : Serving (shards router SL EL) (Transducer.final perform (new : System router SL EL) calls)
    := by
  have kept (system : System router SL EL) (call : BlockingCall router SL EL)
      (blocks : system.Blocks call) (serving : Serving (shards router SL EL) system)
      : Serving (shards router SL EL) (system.perform call).1 := by
    obtain ⟨request, asks⟩ := blocks.mutates.request
    exact serving.request asks blocks
  refine Transducer.Each.invariant kept (serving_new (fun worker => ?_)) blocking
  exact fun _ _ found => absurd found (Option.some_ne_none _).symm

/-- The last of several blocking calls performs its request. -/
theorem performs_last {past : List (BlockingCall router SL EL)} {call : BlockingCall router SL EL}
    {request : Request SL EL} (asks : call.action.request = some request)
    (blocking : Transducer.Each perform Blocks new (past ++ [call]))
    (fit : ∀ steps, steps <+: (past ++ [call]).flatMap BlockingCall.actions
      → ((new : System router SL EL).run steps).TotalsFit (posted steps))
    : Performs (Transducer.final perform new past) (Transducer.final perform new (past ++ [call]))
        request := by
  obtain ⟨before, blocks, _⟩ := Transducer.each_append.mp blocking
  obtain ⟨flowing, returned⟩ := blocking_settled before
  have all : (past ++ [call]).flatMap BlockingCall.actions
      = past.flatMap BlockingCall.actions ++ call.actions := by
    rw [List.flatMap_append, List.flatMap_singleton]
  rw [all] at fit
  rw [final_perform] at flowing returned blocks
  rw [final_perform, final_perform, all]
  exact performs_request asks flowing returned blocks fit

/-- The number of workers, the hash and the schedules of the workers leave no trace: the same
requests, each made when the one before has returned, fail alike, count the same bytes and leave
the same histories, so that every query is answered the same. By induction over the two runs, side
by side.
-/
theorem workers_unobservable {calls : List (BlockingCall router SL EL)}
    {others : List (BlockingCall other SL EL)}
    (budget : router.memoryBudget = other.memoryBudget)
    (horizon : router.lowerTimeHorizonDelta = other.lowerTimeHorizonDelta)
    (same : calls.map (·.action.request) = others.map (·.action.request))
    (blocking : Transducer.Each perform Blocks new calls)
    (otherBlocking : Transducer.Each perform Blocks new others)
    (fit : ∀ past, past <+: calls.flatMap BlockingCall.actions
      → ((new : System router SL EL).run past).TotalsFit (posted past))
    (otherFit : ∀ past, past <+: others.flatMap BlockingCall.actions
      → ((new : System other SL EL).run past).TotalsFit (posted past))
    : Alike (Transducer.final perform (new : System router SL EL) calls)
        (Transducer.final perform (new : System other SL EL) others)
      ∧ ∀ time snapshotId,
          (Transducer.final perform (new : System router SL EL) calls).answer time snapshotId
            = (Transducer.final perform (new : System other SL EL) others).answer time
                snapshotId := by
  have alike : Alike (Transducer.final perform (new : System router SL EL) calls)
      (Transducer.final perform (new : System other SL EL) others) := by
    induction calls using List.reverseRecOn generalizing others with
    | nil =>
        obtain rfl := List.map_eq_nil_iff.mp same.symm
        exact ⟨rfl, rfl, fun _ => rfl⟩
    | append_singleton past call ih =>
        rw [List.map_append, List.map_singleton] at same
        obtain ⟨otherPast, last, rfl, pastSame, lastSame⟩ := List.map_eq_append_iff.mp same.symm
        obtain ⟨otherCall, rfl, requestSame⟩ := List.map_eq_singleton_iff.mp lastSame
        obtain ⟨before, blocks, _⟩ := Transducer.each_append.mp blocking
        obtain ⟨otherBefore, _, _⟩ := Transducer.each_append.mp otherBlocking
        obtain ⟨request, asks⟩ := blocks.mutates.request
        have earlier := ih pastSame.symm before otherBefore
          (fun steps within => fit steps (within.trans (by simp)))
          (fun steps within => otherFit steps (within.trans (by simp)))
        exact earlier.performs (serving_blocking before) (serving_blocking otherBefore) budget
          horizon (performs_last asks blocking fit)
          (performs_last (requestSame.trans asks) otherBlocking otherFit)
  exact ⟨alike, alike.answer⟩

/-- Events of two ids and an advance, at one worker and at two, whose steps interleave. -/
theorem workers_unobservable_two_ids
    : let one : Router :=
        { workerCount := 1, workersPositive := by decide, hashOne := fun _ => 0,
          memoryBudget := 1000, lowerTimeHorizonDelta := 4 }
      let two : Router :=
        { workerCount := 2, workersPositive := by decide, hashOne := fun id => .ofNat id.toNat,
          memoryBudget := 1000, lowerTimeHorizonDelta := 4 }
      let calls : List (BlockingCall one TestSnapshot TestEvent) :=
        [{ action := .sendEvent (.positive 1 5 10 1),
            steps := [.enqueue 0, .handle 0, .commit 0, .commit 0, .respond 0] },
          { action := .sendEvent (.positive 2 3 11 1),
            steps := [.enqueue 1, .handle 0, .commit 0, .commit 0, .respond 0] },
          { action := .sendAdvance 20,
            steps := [.enqueue 2, .handle 0, .commit 0, .commit 0, .respond 0] }]
      let others : List (BlockingCall two TestSnapshot TestEvent) :=
        [{ action := .sendEvent (.positive 1 5 10 1),
            steps := [.enqueue 0, .handle 1, .commit 1, .commit 1, .respond 1] },
          { action := .sendEvent (.positive 2 3 11 1),
            steps := [.enqueue 1, .handle 0, .commit 0, .commit 0, .respond 0] },
          { action := .sendAdvance 20,
            steps := [.enqueue 2, .enqueue 2, .handle 1, .handle 0, .commit 0, .commit 1,
              .respond 1, .respond 0] }]
      Alike (Transducer.final perform (new : System one TestSnapshot TestEvent) calls)
          (Transducer.final perform (new : System two TestSnapshot TestEvent) others)
        ∧ ∀ time snapshotId,
            (Transducer.final perform (new : System one TestSnapshot TestEvent) calls).answer time
                snapshotId
              = (Transducer.final perform (new : System two TestSnapshot TestEvent) others).answer
                  time snapshotId := by
  intro one two calls others
  have blocking : Transducer.Each perform Blocks new calls := by
    refine ⟨⟨trivial, ?_, by decide⟩, ⟨trivial, ?_, by decide⟩, ⟨trivial, ?_, by decide⟩, trivial⟩
    · simp [Action.Serves]
    · simp [Action.Serves]
    · simp [Action.Serves]
  have otherBlocking : Transducer.Each perform Blocks new others := by
    refine ⟨⟨trivial, ?_, by decide⟩, ⟨trivial, ?_, by decide⟩, ⟨trivial, ?_, by decide⟩, trivial⟩
    · simp [Action.Serves]
    · simp [Action.Serves]
    · simp [Action.Serves]
  have fit (past : List (Action one TestSnapshot TestEvent))
      (within : past <+: calls.flatMap BlockingCall.actions)
      : ((new : System one TestSnapshot TestEvent).run past).TotalsFit (posted past) := by
    have all : ∀ past ∈ (calls.flatMap BlockingCall.actions).inits,
        (∀ worker, HistoriesFit
          (((new : System one TestSnapshot TestEvent).run past).workers worker).historyById)
        ∧ Ledger.total (posted past) < 2 ^ 63 := by
      unfold HistoriesFit
      decide
    obtain ⟨histories, counter⟩ := all past ((List.mem_inits past _).mpr within)
    exact ⟨histories, counter⟩
  have otherFit (past : List (Action two TestSnapshot TestEvent))
      (within : past <+: others.flatMap BlockingCall.actions)
      : ((new : System two TestSnapshot TestEvent).run past).TotalsFit (posted past) := by
    have all : ∀ past ∈ (others.flatMap BlockingCall.actions).inits,
        (∀ worker, HistoriesFit
          (((new : System two TestSnapshot TestEvent).run past).workers worker).historyById)
        ∧ Ledger.total (posted past) < 2 ^ 63 := by
      unfold HistoriesFit
      decide
    obtain ⟨histories, counter⟩ := all past ((List.mem_inits past _).mpr within)
    exact ⟨histories, counter⟩
  exact workers_unobservable rfl rfl rfl blocking otherBlocking fit otherFit

end System

end Contime
