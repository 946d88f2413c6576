import Contime.System.CallCosts
import Contime.System.Traces
import Contime.Model.TestFixtures

/-! The memory budget in runs of one client that waits for the result of each of its calls. The
router looks at an input's own size alone, so that the budget is respected as long as no input
that it lets in adds more, with its bases, targets and checkpoints, than there is room for.
-/

open scoped BigOperators

namespace Contime

universe u v
variable {SL : Type u} {EL : Type v} {router : Router}

/-- A call with the steps that follow until its client has the result. -/
structure BlockingCall (router : Router) (SL : Type u) (EL : Type v) where
  action : Action router SL EL
  steps : List (Action router SL EL)

def BlockingCall.actions (call : BlockingCall router SL EL) : List (Action router SL EL) :=
  call.action :: call.steps

variable [Event EL] [Snapshot SL EL]

/-- The own size of an input, which is all that the router checks. -/
def Action.inputSize : Action router SL EL → Option UInt64
  | .sendEvent eventLane => some (Event.conservativeSize eventLane)
  | .sendSnapshot snapshotLane => some (Snapshot.conservativeSize snapshotLane)
  | .queryAt _ _ | .sendAdvance _ | .enqueue _ | .handle _ _ | .commit _ | .respond _ => none

variable [ApplyEvent EL SL] [EventLanes EL SL]

namespace System
variable {system : System router SL EL} {call : BlockingCall router SL EL}

/-- What the application of an input adds: at every target of an event itself, the base of a new
history and new checkpoints.
-/
def cost (system : System router SL EL) : Action router SL EL → Int
  | .sendEvent eventLane =>
      ((firstTargets (EventLanes.snapshots eventLane)).map (fun target =>
        targetCost router.lowerTimeHorizonDelta (system.held (Snapshot.id target)) eventLane
          target)).sum
  | .sendSnapshot snapshotLane =>
      authorityCost (system.held (Snapshot.id snapshotLane)) snapshotLane
  | .queryAt _ _ | .sendAdvance _ | .enqueue _ | .handle _ _ | .commit _ | .respond _ => 0

/-- The system after a blocking call. -/
def perform (system : System router SL EL) (call : BlockingCall router SL EL)
    : System router SL EL × Unit :=
  (system.run call.actions, ())

/-- The client makes a call that may change histories, and waits until it has returned. -/
structure Blocks (system : System router SL EL) (call : BlockingCall router SL EL) : Prop where
  mutates : call.action.Mutates
  serves : ∀ step ∈ call.steps, step.Serves
  returned : (system.run call.actions).Returned

/-- The call that a blocking call has made, with its result. -/
def made (system : System router SL EL) (call : BlockingCall router SL EL)
    : Option (Call router SL EL) :=
  (system.run call.actions).calls[system.calls.length]?

/-- An input whose call returns `Ok` leaves the counter within the budget, and one that would
exceed the budget is rejected and changes nothing.
-/
def RespectsBudget (system : System router SL EL) (call : BlockingCall router SL EL) : Prop :=
  let after := system.run call.actions
  call.action.inputSize ≠ none →
    (∀ made, system.made call = some made → made.Completed
      → after.memoryUsage ≤ router.memoryBudget)
    ∧ ((router.memoryBudget.toNat : Int) < system.memoryUsage.toNat + system.cost call.action →
      (system.made call).bind Call.error = some .memoryFull
      ∧ after.memoryUsage = system.memoryUsage
      ∧ ∀ worker, (after.workers worker).historyById = (system.workers worker).historyById)

/-- If the router lets an input in, then there is room for all that it adds. -/
def HasRoom (system : System router SL EL) (call : BlockingCall router SL EL) : Prop :=
  ∀ size, call.action.inputSize = some size
  → system.memoryUsage + size < router.memoryBudget
  → (system.memoryUsage.toNat : Int) + system.cost call.action ≤ router.memoryBudget.toNat

-----------------------------------------------------------------------------------------
-- Calls that are turned away
-----------------------------------------------------------------------------------------

/-- Where all workers are idle and no call has anything to send, no step changes anything. -/
theorem step_of_idle (flowing : system.Flowing) (idle : ∀ worker, (system.workers worker).Idle)
    (closed : ∀ index, system.pendingAt index = []) {action : Action router SL EL}
    (serves : action.Serves)
    : (system.step action).1 = system := by
  cases action with
  | sendEvent | sendSnapshot | queryAt | sendAdvance => exact serves.elim
  | enqueue index =>
      rcases flowing.enqueue_cases index with same | ⟨call, worker, message, found, pending, _⟩
      · exact congrArg Prod.fst same
      · have nothing := closed index
        rw [pendingAt, List.getElem?_map, found, Option.map_some, Option.getD_some, pending]
          at nothing
        cases nothing
  | handle worker visits =>
      rcases system.handle_cases worker visits with same | ⟨message, inbound, _, _, _, queue, _⟩
      · exact congrArg Prod.fst same
      · exact absurd (idle worker).inbound (by simp [queue])
  | commit worker =>
      rcases system.commit_cases worker with same | ⟨delta, deltas, pending, _⟩
      · exact congrArg Prod.fst same
      · exact absurd (idle worker).deltas (by simp [pending])
  | respond worker =>
      rcases system.respond_cases worker with same | ⟨channel, reply, _, inHand, _⟩
      · exact congrArg Prod.fst same
      · exact absurd (idle worker).reply (by simp [inHand])

theorem run_of_idle (flowing : system.Flowing) (idle : ∀ worker, (system.workers worker).Idle)
    (closed : ∀ index, system.pendingAt index = []) {steps : List (Action router SL EL)}
    (serves : ∀ step ∈ steps, step.Serves)
    : system.run steps = system := by
  induction steps with
  | nil => rfl
  | cons step rest ih =>
      have same := step_of_idle flowing idle closed (serves step (.head _))
      have later := ih (fun other member => serves other (.tail _ member))
      calc
        system.run (step :: rest) = (system.step step).1.run rest := rfl
        _ = system.run rest := by rw [same]
        _ = system := later

omit [Event EL] [Snapshot SL EL] [ApplyEvent EL SL] [EventLanes EL SL] in
/-- Calls that have returned have nothing to send. -/
theorem Returned.pendingAt_eq_nil (returned : system.Returned) (index : Nat)
    : system.pendingAt index = [] := by
  rw [pendingAt, List.getElem?_map]
  cases found : system.calls[index]? with
  | none => rfl
  | some call => exact (returned call (List.mem_of_getElem? found)).pending_eq_nil

omit [Event EL] [Snapshot SL EL] [ApplyEvent EL SL] [EventLanes EL SL] in
/-- A new call is the only one that may have something to send. -/
theorem Returned.pendingAt_start (returned : system.Returned) {after : System router SL EL}
    {opened : Call router SL EL} (calls : after.calls = system.calls ++ [opened])
    : after.pendingAt system.calls.length = opened.pending
      ∧ ∀ index, index ≠ system.calls.length → after.pendingAt index = [] := by
  constructor
  · simp [pendingAt, calls]
  · intro index differ
    rw [← returned.pendingAt_eq_nil index, pendingAt, pendingAt, calls]
    rcases Nat.lt_or_gt_of_ne differ with earlier | later
    · rw [List.map_append, List.getElem?_append_left (by simpa using earlier)]
    · have beyond : system.calls.length + 1 ≤ index := later
      rw [List.getElem?_eq_none (by simpa using beyond),
        List.getElem?_eq_none (by simpa using Nat.le_of_lt later)]

/-- A call that starts as turned away leaves the system as it was. -/
theorem Flowing.run_rejected (flowing : system.Flowing) (returned : system.Returned)
    (blocks : system.Blocks call) {reason : RouterError}
    (starts : (system.step call.action).1
      = { system with calls := system.calls ++ [.rejected reason] })
    : system.run call.actions = { system with calls := system.calls ++ [.rejected reason] } := by
  have started := flowing.begin blocks.mutates
  have idle := flowing.idle returned
  have calls : (system.step call.action).1.calls = system.calls ++ [.rejected reason] := by
    rw [starts]
  obtain ⟨own, others⟩ := returned.pendingAt_start calls
  rw [← starts]
  refine run_of_idle started (by rw [starts]; exact idle) (fun index => ?_) blocks.serves
  by_cases last : index = system.calls.length
  · rw [last, own]
    rfl
  · exact others index last

-----------------------------------------------------------------------------------------
-- Calls that are let in
-----------------------------------------------------------------------------------------

/-- An input is checked by its own size, and its messages cost what its application adds. -/
theorem step_input (system : System router SL EL) {action : Action router SL EL} {size : UInt64}
    (input : action.inputSize = some size)
    : ∃ messages,
        system.step action = system.accept size (.open messages)
        ∧ ∑ worker,
            queueCost router.lowerTimeHorizonDelta (system.workers worker).historyById
              (addressed worker messages)
          = system.cost action := by
  cases action with
  | sendEvent lane =>
      obtain rfl := Option.some.inj input
      exact ⟨_, rfl, sum_targetCost lane (EventLanes.snapshots lane)
        (fun position => { call := system.calls.length, position })
        (fun worker => (system.workers worker).historyById)⟩
  | sendSnapshot lane =>
      obtain rfl := Option.some.inj input
      refine ⟨_, rfl, ?_⟩
      have mutates : (WorkerInbound.snapshot lane ⟨system.calls.length, 0⟩
          : WorkerInbound SL EL).Mutates := trivial
      let histories (worker : Fin router.workerCount) : HistoryById SL EL :=
        (system.workers worker).historyById
      obtain ⟨handled, shape⟩ := handleWorker_of_mutates router.lowerTimeHorizonDelta
        (histories (router.workerIndex (Snapshot.id lane))) mutates []
      rw [sum_queueCost_cons shape []]
      simp [histories, addressed, queueCost, messageCost, cost, held]
  | queryAt | sendAdvance | enqueue | handle | commit | respond => cases input

/-- Where no worker has stopped, no step makes a call fail. -/
theorem Flowing.errors_step (flowing : system.Flowing) {action : Action router SL EL}
    (serves : action.Serves)
    : (system.step action).1.calls.map Call.error = system.calls.map Call.error := by
  cases action with
  | sendEvent | sendSnapshot | queryAt | sendAdvance => exact serves.elim
  | enqueue index =>
      rcases flowing.enqueue_cases index with same | ⟨call, worker, message, _, _, _, _, sends⟩
      · exact congrArg (fun result => result.1.calls.map Call.error) same
      · rw [System.step, sends]
        refine map_modify ?_ _ _
        exact fun _ => rfl
  | handle worker visits =>
      rw [System.step, calls_handle]
  | commit worker =>
      rw [System.step, calls_commit]
  | respond worker =>
      rw [System.step]
      rcases system.respond_cases worker with same | ⟨_, _, _, _, responds⟩
      · rw [same]
      · rw [responds]
        refine map_modify ?_ _ _
        exact fun _ => rfl

theorem Flowing.errors_run {steps : List (Action router SL EL)}
    (serves : ∀ step ∈ steps, step.Serves) (flowing : system.Flowing)
    : (system.run steps).calls.map Call.error = system.calls.map Call.error := by
  induction steps generalizing system with
  | nil => rfl
  | cons step rest ih =>
      have first := serves step (.head _)
      exact (ih (fun other member => serves other (.tail _ member)) (flowing.step first)).trans
        (flowing.errors_step first)

/-- A call that is let in does not fail, and by its return the workers have taken exactly what
its messages cost.
-/
theorem Flowing.run_opened (flowing : system.Flowing) (returned : system.Returned)
    (blocks : system.Blocks call)
    {messages : List (Fin router.workerCount × WorkerInbound SL EL)}
    (starts : (system.step call.action).1
      = { system with calls := system.calls ++ [.open messages] })
    (fit : ∀ past, past <+: call.actions
      → ∀ worker, HistoriesFit ((system.run past).workers worker).historyById)
    : (system.made call).bind Call.error = none
      ∧ Ledger.total (Transducer.emitted System.step takes system call.actions)
        = ∑ worker,
            queueCost router.lowerTimeHorizonDelta (system.workers worker).historyById
              (addressed worker messages) := by
  have started := flowing.begin blocks.mutates
  have idle := flowing.idle returned
  have calls : (system.step call.action).1.calls = system.calls ++ [.open messages] := by
    rw [starts]
  have workers : (system.step call.action).1.workers = system.workers := by rw [starts]
  have run : system.run call.actions = (system.step call.action).1.run call.steps := rfl
  constructor
  · have errors := congrArg (·[system.calls.length]?) (started.errors_run blocks.serves)
    rw [← run, calls] at errors
    have none : (Call.open messages).error = none := rfl
    simp only [List.getElem?_map, List.getElem?_concat_length, Option.map_some, none] at errors
    obtain ⟨made, found, accepted⟩ := Option.map_eq_some_iff.mp errors
    rw [System.made, found]
    exact accepted
  · obtain ⟨own, others⟩ := returned.pendingAt_start calls
    have all : (Call.open messages).pending = messages := rfl
    have underway : Underway system.calls.length
        (fun worker =>
          queueCost router.lowerTimeHorizonDelta (system.workers worker).historyById
            (addressed worker messages))
        [] (system.step call.action).1 := by
      refine ⟨started, others, fun worker => ?_⟩
      rw [own, all, workers, (idle worker).inbound, List.nil_append]
      exact Int.zero_add _
    have last := underway.run blocks.serves (fun past within =>
      fit (call.action :: past) (List.cons_prefix_cons.mpr ⟨rfl, within⟩))
    rw [← run, List.nil_append] at last
    have balance (worker : Fin router.workerCount)
        : Ledger.balance worker
            (Transducer.emitted System.step takes (system.step call.action).1 call.steps)
          = queueCost router.lowerTimeHorizonDelta (system.workers worker).historyById
              (addressed worker messages) := by
      have account := last.account worker
      have empty := (last.flowing.idle blocks.returned worker).inbound
      rw [blocks.returned.pendingAt_eq_nil, empty] at account
      simpa [addressed, queueCost] using account
    have first : system.takes call.action = [] := by
      have mutates := blocks.mutates
      cases shape : call.action with
      | sendEvent | sendSnapshot | sendAdvance => rfl
      | queryAt | enqueue | handle | commit | respond =>
          rw [shape] at mutates
          exact mutates.elim
    rw [BlockingCall.actions, Transducer.emitted, first, List.nil_append,
      Ledger.total_eq_sum_balance]
    exact Finset.sum_congr rfl (fun worker _ => balance worker)

-----------------------------------------------------------------------------------------
-- The budget over whole runs
-----------------------------------------------------------------------------------------

/-- Where the counter grows by what the workers take, a call respects the budget exactly when
its input has room.
-/
theorem Flowing.respectsBudget_iff (flowing : system.Flowing) (returned : system.Returned)
    (blocks : system.Blocks call)
    (fit : ∀ past, past <+: call.actions
      → ∀ worker, HistoriesFit ((system.run past).workers worker).historyById)
    (grows : ((system.run call.actions).memoryUsage.toNat : Int)
      = system.memoryUsage.toNat
        + Ledger.total (Transducer.emitted System.step takes system call.actions))
    : system.RespectsBudget call ↔ system.HasRoom call := by
  have opened {size : UInt64} (input : call.action.inputSize = some size)
      (admitted : system.memoryUsage + size < router.memoryBudget)
      : (system.made call).bind Call.error = none
        ∧ ((system.run call.actions).memoryUsage.toNat : Int)
          = system.memoryUsage.toNat + system.cost call.action := by
    obtain ⟨messages, starts, cost⟩ := system.step_input input
    have accepted : (system.step call.action).1
        = { system with calls := system.calls ++ [.open messages] } := by
      rw [starts, accept, if_neg (UInt64.not_le.mpr admitted)]
    obtain ⟨succeeds, total⟩ := flowing.run_opened returned blocks accepted fit
    exact ⟨succeeds, by rw [grows, total, cost]⟩
  constructor
  · intro respects size input admitted
    obtain ⟨succeeds, _⟩ := opened input admitted
    by_contra exceeds
    have some : call.action.inputSize ≠ none := by
      rw [input]
      exact Option.some_ne_none size
    obtain ⟨failed, _⟩ := (respects some).2 (Int.not_le.mp exceeds)
    rw [succeeds] at failed
    cases failed
  · intro room some
    obtain ⟨size, input⟩ := Option.ne_none_iff_exists'.mp some
    by_cases admitted : system.memoryUsage + size < router.memoryBudget
    · have fits := room size input admitted
      obtain ⟨_, usage⟩ := opened input admitted
      refine ⟨fun _ _ _ => UInt64.le_iff_toNat_le.mpr ?_, fun exceeds => ?_⟩
      · omega
      · exact absurd fits (Int.not_le.mpr exceeds)
    · obtain ⟨messages, starts, _⟩ := system.step_input input
      have turned : (system.step call.action).1
          = { system with calls := system.calls ++ [.rejected .memoryFull] } := by
        rw [starts, accept, if_pos (UInt64.not_lt.mp admitted)]
      have after := flowing.run_rejected returned blocks turned
      have made : system.made call = Option.some (.rejected .memoryFull) := by
        rw [System.made, after]
        exact List.getElem?_concat_length ..
      refine ⟨fun other found completed => ?_, fun _ => ?_⟩
      · rw [made] at found
        obtain rfl := Option.some.inj found
        cases completed.1
      · rw [made, after]
        exact ⟨rfl, rfl, fun _ => rfl⟩

/-- The state after blocking calls is the one after all their steps. -/
theorem final_perform (system : System router SL EL) (calls : List (BlockingCall router SL EL))
    : Transducer.final perform system calls
      = system.run (calls.flatMap BlockingCall.actions) := by
  induction calls generalizing system with
  | nil => rfl
  | cons call rest ih =>
      rw [Transducer.final_cons, ih, List.flatMap_cons]
      exact (Transducer.final_append system call.actions _).symm

/-- Blocking calls leave nothing under way between them. -/
theorem blocking_settled {calls : List (BlockingCall router SL EL)}
    (blocking : Transducer.Each perform Blocks new calls)
    : (Transducer.final perform (new : System router SL EL) calls).Flowing
      ∧ (Transducer.final perform (new : System router SL EL) calls).Returned := by
  have kept (system : System router SL EL) (call : BlockingCall router SL EL)
      (blocks : system.Blocks call) (settled : system.Flowing ∧ system.Returned)
      : (system.perform call).1.Flowing ∧ (system.perform call).1.Returned :=
    ⟨(settled.1.begin blocks.mutates).run blocks.serves, blocks.returned⟩
  exact Transducer.Each.invariant kept
    ⟨flowing_new, fun _ member => absurd member List.not_mem_nil⟩ blocking

/-- While all workers are idle, the counter is the sum of all that they have taken. -/
theorem memoryUsage_of_idle {actions : List (Action router SL EL)}
    (fit : ∀ past, past <+: actions
      → ((new : System router SL EL).run past).TotalsFit (posted past))
    (idle : ∀ worker, (((new : System router SL EL).run actions).workers worker).Idle)
    : (((new : System router SL EL).run actions).memoryUsage.toNat : Int)
      = Ledger.total (returned actions) := by
  have balanced := run_balanced fit
  rw [balanced.usage, Ledger.total_eq_sum_balance, Ledger.total_eq_sum_balance]
  refine Finset.sum_congr rfl (fun worker _ => ?_)
  have complete := (balanced.solid worker).complete
  rw [(idle worker).deltas] at complete
  exact congrArg List.sum ((List.append_nil _).symm.trans complete)

/-- In every run of blocking calls whose totals fit a signed size, every call respects the memory
budget if and only if every input that the router lets in has room for all that it adds. By
induction over the calls: between two calls the counter is what the worker messages so far
returned.
-/
theorem budget_respected_iff {calls : List (BlockingCall router SL EL)}
    (blocking : Transducer.Each perform Blocks new calls)
    (fit : ∀ past, past <+: calls.flatMap BlockingCall.actions
      → ((new : System router SL EL).run past).TotalsFit (posted past))
    : Transducer.Each perform RespectsBudget new calls
      ↔ Transducer.Each perform HasRoom new calls := by
  induction calls using List.reverseRecOn with
  | nil => exact .rfl
  | append_singleton past call ih =>
      obtain ⟨before, blocks, _⟩ := Transducer.each_append.mp blocking
      have all : (past ++ [call]).flatMap BlockingCall.actions
          = past.flatMap BlockingCall.actions ++ call.actions := by
        rw [List.flatMap_append, List.flatMap_singleton]
      rw [all] at fit
      have within {steps : List (Action router SL EL)} (early : steps <+: call.actions)
          : past.flatMap BlockingCall.actions ++ steps
            <+: past.flatMap BlockingCall.actions ++ call.actions :=
        (List.prefix_append_right_inj _).mpr early
      have earlier := ih before (fun actions inside =>
        fit actions (inside.trans (List.prefix_append _ _)))
      obtain ⟨flowing, returned⟩ := blocking_settled before
      rw [Transducer.each_append, Transducer.each_append, earlier]
      refine and_congr_right (fun _ => and_congr_left' ?_)
      have state := final_perform (new : System router SL EL) past
      have next (steps : List (Action router SL EL))
          : (Transducer.final perform new past).run steps
            = new.run (past.flatMap BlockingCall.actions ++ steps) := by
        rw [state]
        exact (Transducer.final_append _ _ _).symm
      refine flowing.respectsBudget_iff returned blocks (fun steps early worker => ?_) ?_
      · rw [next]
        exact (fit _ (within early)).histories worker
      · obtain ⟨after, results⟩ := blocking_settled blocking
        have idle := flowing.idle returned
        have idleAfter := after.idle results
        rw [state] at idle
        rw [final_perform, all] at idleAfter
        have start := memoryUsage_of_idle (fun actions inside =>
          fit actions (inside.trans (List.prefix_append _ call.actions))) idle
        have stop := memoryUsage_of_idle fit idleAfter
        rw [next, stop, System.returned, Transducer.emitted_append, Ledger.total_append, state,
          start]
        rfl

/-- An event with its base, and then an event before it, within a budget of 1000 bytes. -/
theorem budget_respected_iff_late_event
    : let router : Router :=
        { workerCount := 1, workersPositive := by decide, hashOne := fun _ => 0,
          memoryBudget := 1000, lowerTimeHorizonDelta := 0 }
      let calls : List (BlockingCall router TestSnapshot TestEvent) :=
        [{ action := .sendEvent (.positive 1 5 10 1),
            steps := [.enqueue 0, .handle 0, .commit 0, .commit 0, .respond 0] },
          { action := .sendEvent (.positive 1 3 11 1),
            steps := [.enqueue 1, .handle 0, .commit 0, .respond 0] }]
      Transducer.Each perform RespectsBudget new calls := by
  intro router calls
  have blocking : Transducer.Each perform Blocks new calls := by
    refine ⟨⟨trivial, ?_, by decide⟩, ⟨trivial, ?_, by decide⟩, trivial⟩
    · simp [Action.Serves]
    · simp [Action.Serves]
  have fit (past : List (Action router TestSnapshot TestEvent))
      (within : past <+: calls.flatMap BlockingCall.actions)
      : ((new : System router TestSnapshot TestEvent).run past).TotalsFit (posted past) := by
    have all : ∀ past ∈ (calls.flatMap BlockingCall.actions).inits,
        (∀ worker, HistoriesFit
          (((new : System router TestSnapshot TestEvent).run past).workers worker).historyById)
        ∧ Ledger.total (posted past) < 2 ^ 63 := by
      unfold HistoriesFit
      decide
    obtain ⟨histories, counter⟩ := all past ((List.mem_inits past _).mpr within)
    exact ⟨histories, counter⟩
  have room : Transducer.Each perform HasRoom new calls := by
    refine ⟨fun _ _ _ => ?_, fun _ _ _ => ?_, trivial⟩
    · decide
    · decide
  exact (budget_respected_iff blocking fit).mpr room

/-- The first event of an id passes the check of a budget of 43 bytes with its own 42, but its
base of 28 bytes takes the counter to 70.
-/
theorem budget_exceeded_by_first_base
    : let router : Router :=
        { workerCount := 1, workersPositive := by decide, hashOne := fun _ => 0,
          memoryBudget := 43, lowerTimeHorizonDelta := 0 }
      let call : BlockingCall router TestSnapshot TestEvent :=
        { action := .sendEvent (.positive 1 5 10 1),
          steps := [.enqueue 0, .handle 0, .commit 0, .commit 0, .respond 0] }
      let system : System router TestSnapshot TestEvent := new
      system.Blocks call
      ∧ (∃ made, system.made call = some made ∧ made.Completed)
      ∧ system.cost call.action = 70
      ∧ (system.run call.actions).memoryUsage = 70
      ∧ ¬ system.RespectsBudget call := by
  intro router call system
  have completed : ∃ made, system.made call = some made ∧ made.Completed := by
    have present : (system.made call).isSome := by decide
    have each : ∀ made ∈ system.made call, made.Completed := by decide
    obtain ⟨made, found⟩ := Option.isSome_iff_exists.mp present
    exact ⟨made, found, each made found⟩
  have usage : (system.run call.actions).memoryUsage = 70 := by decide
  refine ⟨⟨trivial, ?_, by decide⟩, completed, by decide, usage, fun respects => ?_⟩
  · simp [call, Action.Serves]
  · obtain ⟨made, found, ok⟩ := completed
    have input : call.action.inputSize ≠ none := Option.some_ne_none _
    have within := (respects input).1 made found ok
    rw [usage] at within
    exact absurd within (by decide)

end System

end Contime
