import Contime.System.Quiescence
import Contime.System.Deliveries

/-! What a call adds to the memory counter. While a single call is under way, what the workers
have taken and what is still to come for each of them add up to the same, so that a call that has
returned has added exactly its cost, which its input and the histories before it determine.
-/

open scoped BigOperators

namespace Contime

universe u v
variable {SL : Type u} {EL : Type v} {router : Router}

/-- The messages that go to one worker, in order. -/
def addressed {Worker Message : Type*} [DecidableEq Worker] (worker : Worker)
    (messages : List (Worker × Message))
    : List Message :=
  (messages.filter (fun entry => decide (entry.1 = worker))).map Prod.snd

/-- The first target of each id. A second target of an id finds the event stored. -/
def firstTargets [Snapshot SL EL] : List SL → List SL
  | [] => []
  | target :: rest =>
      target
        :: (firstTargets rest).filter (fun other => decide (Snapshot.id other ≠ Snapshot.id target))

variable [Event EL] [Snapshot SL EL] [ApplyEvent EL SL]

-----------------------------------------------------------------------------------------
-- The cost of the targets of an event
-----------------------------------------------------------------------------------------

/-- Messages that arrive one after the other cost, over all workers, what the first one costs
its worker and then the rest.
-/
theorem sum_queueCost_cons {delta : Time} {worker : Fin router.workerCount}
    {message : WorkerInbound SL EL} {histories : Fin router.workerCount → HistoryById SL EL}
    {handled : Handled SL EL}
    (shape : handleWorker delta (histories worker) message = some handled)
    (rest : List (Fin router.workerCount × WorkerInbound SL EL))
    : ∑ other, queueCost delta (histories other) (addressed other ((worker, message) :: rest))
      = messageCost delta (histories worker) message
        + ∑ other,
            queueCost delta (Function.update histories worker handled.historyById other)
              (addressed other rest) := by
  have each (other : Fin router.workerCount)
      : queueCost delta (histories other) (addressed other ((worker, message) :: rest))
        = (if worker = other then messageCost delta (histories worker) message else 0)
          + queueCost delta (Function.update histories worker handled.historyById other)
              (addressed other rest) := by
    by_cases own : worker = other
    · subst own
      have first : addressed worker ((worker, message) :: rest)
          = message :: addressed worker rest := by
        simp [addressed]
      rw [first, queueCost_cons shape, Function.update_self, if_pos rfl]
    · have later : addressed other ((worker, message) :: rest) = addressed other rest := by
        simp [addressed, own]
      rw [later, Function.update_of_ne (Ne.symm own), if_neg own, Int.zero_add]
  rw [Finset.sum_congr rfl (fun other _ => each other), Finset.sum_add_distrib]
  simp

omit [Event EL] [ApplyEvent EL SL] in
/-- Where the others with the id of the first cost nothing any more, leaving them out does not
change the sum.
-/
theorem sum_first {target : SL} {targets : List SL} {before after : SL → Int}
    (again : ∀ other, Snapshot.id other = Snapshot.id target → after other = 0)
    (others : ∀ other, Snapshot.id other ≠ Snapshot.id target → after other = before other)
    : (targets.map after).sum
      = ((targets.filter (fun other => decide (Snapshot.id other ≠ Snapshot.id target))).map
          before).sum := by
  induction targets with
  | nil => rfl
  | cons other rest ih =>
      by_cases same : Snapshot.id other = Snapshot.id target
      · simp [same, again other same, ih]
      · simp [same, others other same, ih]

/-- The messages of an event cost, over all workers, what its first targets cost. -/
theorem sum_targetCost {delta : Time} (lane : EL) (targets : List SL)
    (channel : Nat → ReplyChannel) (histories : Fin router.workerCount → HistoryById SL EL)
    : ∑ worker,
        queueCost delta (histories worker)
          (addressed worker (targets.mapIdx (fun position target =>
            System.delivery router lane target (channel position))))
      = ((firstTargets targets).map (fun target =>
          targetCost delta
            ((histories (router.workerIndex (Snapshot.id target))).get? (Snapshot.id target)) lane
            target)).sum := by
  induction targets generalizing channel histories with
  | nil => simp [addressed, queueCost, firstTargets]
  | cons target rest ih =>
      have mutates : WorkerInbound.Mutates (.event (Snapshot.id target) lane target (channel 0)) :=
        trivial
      obtain ⟨handled, shape⟩ := handleWorker_of_mutates delta
        (histories (router.workerIndex (Snapshot.id target))) mutates []
      rw [List.mapIdx_cons, System.delivery, sum_queueCost_cons shape, ih (fun position =>
        channel (position + 1)), firstTargets, List.map_cons, List.sum_cons]
      refine congrArg (_ + ·) (sum_first ?_ ?_)
      · intro other same
        rw [same, Function.update_self, get?_handleWorker shape, ownHistory, if_pos rfl]
        dsimp only
        rw [targetCost, LocalSnapshotHistory.eventCost, if_pos]
        rw [LocalSnapshotHistory.applyEvent_events]
        exact BTreeMap.mem_keys_insertNew.mpr (Or.inl rfl)
      · intro other differ
        by_cases shared
          : router.workerIndex (Snapshot.id other) = router.workerIndex (Snapshot.id target)
        · rw [shared, Function.update_self, get?_handleWorker shape, ownHistory,
            if_neg (Ne.symm differ)]
        · rw [Function.update_of_ne shared]

-----------------------------------------------------------------------------------------
-- A call under way
-----------------------------------------------------------------------------------------

namespace System
variable {system : System router SL EL} {last : Nat} {costs : Fin router.workerCount → Int}
  {taken : List (Fin router.workerCount × Int)}

omit [Event EL] [Snapshot SL EL] [ApplyEvent EL SL] in
/-- What the call at an index has still to send. -/
def pendingAt (system : System router SL EL) (index : Nat)
    : List (Fin router.workerCount × WorkerInbound SL EL) :=
  ((system.calls.map Call.pending)[index]?).getD []

/-- Only the call at one index still sends messages, and for each worker what it has taken and
what is still to come for it add up to its costs.
-/
structure Underway (last : Nat) (costs : Fin router.workerCount → Int)
    (taken : List (Fin router.workerCount × Int)) (system : System router SL EL)
    : Prop where
  flowing : system.Flowing
  others : ∀ index, index ≠ last → system.pendingAt index = []
  account
    : ∀ worker,
      Ledger.balance worker taken
        + queueCost router.lowerTimeHorizonDelta (system.workers worker).historyById
            ((system.workers worker).inbound ++ addressed worker (system.pendingAt last))
      = costs worker

/-- A step that takes no message and sends none changes nothing of the account. -/
theorem Underway.of_same (underway : Underway last costs taken system)
    {after : System router SL EL} (flowing : after.Flowing)
    (calls : after.calls.map Call.pending = system.calls.map Call.pending)
    (histories : ∀ worker,
      (after.workers worker).historyById = (system.workers worker).historyById)
    (inbound : ∀ worker, (after.workers worker).inbound = (system.workers worker).inbound)
    : Underway last costs taken after := by
  have same (index : Nat) : after.pendingAt index = system.pendingAt index := by
    rw [pendingAt, pendingAt, calls]
  refine ⟨flowing, fun index other => (same index).trans (underway.others index other), ?_⟩
  intro worker
  rw [same, histories, inbound]
  exact underway.account worker

/-- Sending a message moves it from what is pending to the queue of its worker. -/
theorem Underway.enqueue (underway : Underway last costs taken system) (index : Nat)
    : Underway last costs taken (system.enqueue index).1 := by
  have flowing := underway.flowing.enqueue index
  rcases underway.flowing.enqueue_cases index with
    same | ⟨call, worker, message, found, pending, _, _, sends⟩
  · rwa [same]
  have stored : system.pendingAt index = call.pending := by
    rw [pendingAt, List.getElem?_map, found]
    rfl
  obtain rfl : index = last := by
    by_contra other
    have nothing := stored.symm.trans (underway.others index other)
    rw [pending] at nothing
    cases nothing
  have calls : (system.enqueue index).1.calls
      = system.calls.modify index (fun call => { call with sent := call.sent + 1 }) := by
    rw [sends]
  have workers : (system.enqueue index).1.workers
      = Function.update system.workers worker
          { system.workers worker with
            inbound := (system.workers worker).inbound ++ [message] } := by
    rw [sends]
    rfl
  refine ⟨flowing, fun other differ => ?_, fun other => ?_⟩
  · have none := underway.others other differ
    rw [pendingAt, List.getElem?_map] at none ⊢
    simpa [calls, List.getElem?_modify, Ne.symm differ] using none
  · have rest : (system.enqueue index).1.pendingAt index
        = Call.pending { call with sent := call.sent + 1 } := by
      rw [pendingAt, List.getElem?_map, calls, List.getElem?_modify_eq, found]
      rfl
    have account := underway.account other
    rw [stored, pending] at account
    rw [rest, ← account, workers]
    by_cases own : other = worker
    · subst own
      simp [addressed]
    · simp [addressed, own, Ne.symm own]

/-- A message that a worker takes costs what it returns. -/
theorem Underway.handle (underway : Underway last costs taken system)
    (worker : Fin router.workerCount) (visits : List SnapshotId)
    (before : HistoriesFit (system.workers worker).historyById)
    (after : HistoriesFit ((system.handle worker visits).1.workers worker).historyById)
    : Underway last costs (taken ++ system.takes (.handle worker visits))
        (system.handle worker visits).1 := by
  have flowing := underway.flowing.handle worker visits
  rcases system.handle_cases worker visits with
    same | ⟨message, inbound, _, _, _, queue, ⟨_, stops⟩ | ⟨handled, shape, takes⟩⟩
  · have nothing : system.takes (.handle worker visits) = [] := by simp [System.takes, same]
    rwa [nothing, same, List.append_nil]
  · have running := (flowing.workers worker).running
    rw [stops, setWorker_self] at running
    cases running
  · have taken
        : system.takes (.handle worker visits) = (exactly handled.deltas).map (worker, ·) := by
      simp [System.takes, takes]
    have mutates := (underway.flowing.workers worker).mutates message (by rw [queue]; exact .head _)
    rw [takes, setWorker_self] at after
    have cost := handleWorker_cost shape mutates before after
    rw [taken]
    rw [takes] at flowing ⊢
    refine ⟨flowing, underway.others, fun other => ?_⟩
    have account := underway.account other
    by_cases own : other = worker
    · subst own
      rw [queue, List.cons_append, queueCost_cons shape, ← cost] at account
      rw [setWorker_self, Ledger.balance_append, ← account]
      simp only [Ledger.balance, Ledger.amounts_own, Int.add_assoc]
      rfl
    · rw [Ledger.balance_append, ← account]
      simp only [setWorker, Function.update_of_ne own, Ledger.balance,
        Ledger.amounts_other (Ne.symm own), List.sum_nil, Int.add_zero]
      rfl

variable [EventLanes EL SL]

/-- A step that starts no call keeps the account. -/
theorem Underway.step (underway : Underway last costs taken system)
    {action : Action router SL EL} (serves : action.Serves)
    (before : ∀ worker, HistoriesFit (system.workers worker).historyById)
    (after : ∀ worker, HistoriesFit ((system.step action).1.workers worker).historyById)
    : Underway last costs (taken ++ system.takes action) (system.step action).1 := by
  have flowing := underway.flowing.step serves
  cases action with
  | sendEvent | sendSnapshot | queryAt | sendAdvance => exact serves.elim
  | enqueue index =>
      have nothing : system.takes (.enqueue index) = [] := rfl
      rw [nothing, List.append_nil]
      exact underway.enqueue index
  | handle worker visits => exact underway.handle worker visits (before worker) (after worker)
  | commit worker =>
      have nothing : system.takes (.commit worker) = [] := rfl
      rw [nothing, List.append_nil]
      refine underway.of_same flowing ?_ ?_ ?_
      all_goals
        rw [System.step]
        rcases system.commit_cases worker with same | ⟨_, _, _, commits⟩
      · rw [same]
      · rw [commits]
        rfl
      · rw [same]
        exact fun _ => rfl
      · rw [commits]
        exact setWorker_part WorkerState.historyById rfl
      · rw [same]
        exact fun _ => rfl
      · rw [commits]
        exact setWorker_part WorkerState.inbound rfl
  | respond worker =>
      have nothing : system.takes (.respond worker) = [] := rfl
      rw [nothing, List.append_nil]
      refine underway.of_same flowing ?_ ?_ ?_
      all_goals
        rw [System.step]
        rcases system.respond_cases worker with same | ⟨_, _, _, _, responds⟩
      · rw [same]
      · rw [responds]
        refine map_modify ?_ _ _
        exact fun _ => rfl
      · rw [same]
        exact fun _ => rfl
      · rw [responds]
        exact setWorker_part WorkerState.historyById rfl
      · rw [same]
        exact fun _ => rfl
      · rw [responds]
        exact setWorker_part WorkerState.inbound rfl

/-- Steps that start no call keep the account, as long as the histories fit. -/
theorem Underway.run {steps : List (Action router SL EL)} (serves : ∀ step ∈ steps, step.Serves)
    (underway : Underway last costs taken system)
    (fit : ∀ past, past <+: steps
      → ∀ worker, HistoriesFit ((system.run past).workers worker).historyById)
    : Underway last costs (taken ++ Transducer.emitted System.step takes system steps)
        (system.run steps) := by
  induction steps generalizing system taken with
  | nil => rwa [Transducer.emitted, List.append_nil]
  | cons step rest ih =>
      have now := fit [] List.nil_prefix
      have next := fit [step] ⟨rest, rfl⟩
      have later := ih (fun other member => serves other (.tail _ member))
        (underway.step (serves step (.head _)) now next)
        (fun past within => fit (step :: past) (List.cons_prefix_cons.mpr ⟨rfl, within⟩))
      rwa [List.append_assoc] at later

end System

end Contime
