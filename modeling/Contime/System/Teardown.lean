import Contime.Model.Teardown
import Contime.System.Steps
import Contime.Model.TestFixtures
import Contime.Library.Exchange
import Mathlib.Data.Prod.Lex

/-! Dropping a router. Whatever the schedule, the drop returns; the worker threads have ended by
then, each after a prefix of its queue.
-/

open scoped BigOperators

namespace Contime

universe u v
variable {SL : Type u} {EL : Type v} {router : Router}

/-- How many steps of a worker's drop are done. -/
def DropPhase.done : DropPhase → Nat
  | .store => 0
  | .send => 1
  | .join => 2

namespace System
variable [Event EL] [Snapshot SL EL] [ApplyEvent EL SL] [EventLanes EL SL]

/-- In every run, threads that have ended have nothing in hand. -/
theorem run_free_of_stopped (actions : List (Action router SL EL))
    : ∀ worker,
        (((new : System router SL EL).run actions).workers worker).stopped = true
        → (((new : System router SL EL).run actions).workers worker).Free := by
  have kept (system : System router SL EL) (action : Action router SL EL)
      (before : ∀ worker, (system.workers worker).stopped = true → (system.workers worker).Free)
      : ∀ worker,
          ((system.step action).1.workers worker).stopped = true
          → ((system.step action).1.workers worker).Free := by
    have changed (worker : Fin router.workerCount) (state : WorkerState SL EL)
        (own : state.stopped = true → state.Free) (other : Fin router.workerCount)
        (stopped : ((system.setWorker worker state).workers other).stopped = true)
        : ((system.setWorker worker state).workers other).Free := by
      by_cases same : other = worker
      · subst same
        rw [setWorker_self] at stopped ⊢
        exact own stopped
      · rw [setWorker_of_ne same] at stopped ⊢
        exact before other stopped
    cases action with
    | sendEvent | sendSnapshot | queryAt | sendAdvance => exact before
    | enqueue index =>
        rw [System.step]
        rcases system.enqueue_cases index with
          same | ⟨_, worker, _, _, _, _, ⟨_, fails⟩ | ⟨_, _, sends⟩⟩
        · rwa [same]
        · rw [fails]
          exact before
        · rw [sends]
          exact changed worker _ (before worker)
    | commit worker =>
        rw [System.step]
        rcases system.commit_cases worker with same | ⟨_, _, pending, commits⟩
        · rwa [same]
        · rw [commits]
          refine changed worker _ (fun stopped => ?_)
          have committed := (before worker stopped).1
          rw [pending] at committed
          cases committed
    | respond worker =>
        rw [System.step]
        rcases system.respond_cases worker with same | ⟨_, _, committed, _, responds⟩
        · rwa [same]
        · rw [responds]
          exact changed worker _ (fun _ => ⟨committed, rfl⟩)
    | handle worker visits =>
        rw [System.step]
        rcases system.handle_cases worker visits with
          same | ⟨_, _, _, committed, replied, _, ⟨_, stops⟩ | ⟨_, _, takes⟩⟩
        · rwa [same]
        · rw [stops]
          exact changed worker _ (fun _ => ⟨committed, replied⟩)
        · rw [takes]
          exact changed worker _ nofun
  exact Transducer.final_invariant kept (fun _ _ => ⟨rfl, rfl⟩) actions

end System

namespace Teardown
variable {state : Teardown router SL EL} {worker : Fin router.workerCount}

-----------------------------------------------------------------------------------------
-- The steps
-----------------------------------------------------------------------------------------

/-- The drop of a worker clears its flag, asks the thread to end or finds that it has, and joins
it once it has ended.
-/
theorem dropWorker_cases (possible : (state.dropWorker worker).2 = true)
    : (state.phase = .store
        ∧ (state.dropWorker worker).1
          = { state with
              isRunning := Function.update state.isRunning worker false, phase := .send })
      ∨ (state.phase = .send
        ∧ (state.system.workers worker).stopped = true
        ∧ (state.dropWorker worker).1 = { state with phase := .join })
      ∨ (state.phase = .send
        ∧ (state.system.workers worker).stopped = false
        ∧ (state.dropWorker worker).1
          = { state with
              system := state.system.setWorker worker
                { state.system.workers worker with
                  inbound := (state.system.workers worker).inbound ++ [.shutdown] },
              phase := .join })
      ∨ (state.phase = .join
        ∧ (state.system.workers worker).stopped = true
        ∧ (state.dropWorker worker).1
          = { state with
              system := state.system.setWorker worker
                { state.system.workers worker with inbound := [] },
              dropped := state.dropped + 1, phase := .store }) := by
  cases phase : state.phase with
  | store => exact Or.inl ⟨rfl, by simp only [dropWorker, phase]⟩
  | send =>
      cases stopped : (state.system.workers worker).stopped with
      | true => exact Or.inr (Or.inl ⟨rfl, rfl, by simp [dropWorker, phase, stopped]⟩)
      | false =>
          by_cases room : (state.system.workers worker).inbound.length < INBOUND_CAPACITY
          · exact Or.inr (Or.inr (Or.inl ⟨rfl, rfl, by simp [dropWorker, phase, stopped, room]⟩))
          · simp [dropWorker, phase, stopped, room] at possible
  | join =>
      cases stopped : (state.system.workers worker).stopped with
      | true => exact Or.inr (Or.inr (Or.inr ⟨rfl, rfl, by simp [dropWorker, phase, stopped]⟩))
      | false => simp [dropWorker, phase, stopped] at possible

/-- A worker that looks at the flag is between two messages. It goes on to its queue, or it sees
that its drop has begun and ends.
-/
theorem check_cases {stale : Bool} (possible : (state.check worker stale).2 = true)
    : (state.system.workers worker).stopped = false
      ∧ (state.system.workers worker).Free
      ∧ state.receiving worker = false
      ∧ ((state.check worker stale).1
          = { state with receiving := Function.update state.receiving worker true }
        ∨ (state.isRunning worker = false
          ∧ (state.check worker stale).1
            = { state with
                system := state.system.setWorker worker
                  { state.system.workers worker with stopped := true } })) := by
  by_cases free : (state.system.workers worker).stopped = false
      ∧ (state.system.workers worker).Free
      ∧ state.receiving worker = false
  · refine ⟨free.1, free.2.1, free.2.2, ?_⟩
    by_cases goes : state.isRunning worker = true ∨ stale = true
    · exact Or.inl (by simp only [check, if_pos free, if_pos goes])
    · refine Or.inr ⟨?_, by simp only [check, if_pos free, if_neg goes]⟩
      simp only [not_or, Bool.not_eq_true] at goes
      exact goes.1
  · simp only [check, if_neg free] at possible
    cases possible

-----------------------------------------------------------------------------------------
-- Termination
-----------------------------------------------------------------------------------------

/-- What a worker has to do before it takes its next message. -/
def effort (state : Teardown router SL EL) (worker : Fin router.workerCount) : Nat :=
  (state.system.workers worker).deltas.length
  + (state.system.workers worker).reply.toList.length
  + (if state.receiving worker ∨ (state.system.workers worker).stopped then 0 else 1)

/-- The steps of the drop, the messages and the efforts that are left. -/
def rank (state : Teardown router SL EL) : Nat ×ₗ Nat ×ₗ Nat :=
  toLex (3 * (router.workerCount - state.dropped) - state.phase.done,
    toLex (∑ worker, (state.system.workers worker).inbound.length,
      ∑ worker, state.effort worker))

variable {after : Teardown router SL EL}

/-- The drop gets on. -/
theorem rank_lt_of_drop
    (lower : 3 * (router.workerCount - after.dropped) - after.phase.done
      < 3 * (router.workerCount - state.dropped) - state.phase.done)
    : after.rank < state.rank :=
  Prod.Lex.toLex_lt_toLex.mpr (Or.inl lower)

/-- A worker has a message less. -/
theorem rank_lt_of_message (worker : Fin router.workerCount) {target : WorkerState SL EL}
    (dropped : after.dropped = state.dropped) (phase : after.phase = state.phase)
    (workers : after.system.workers = Function.update state.system.workers worker target)
    (lower : target.inbound.length < (state.system.workers worker).inbound.length)
    : after.rank < state.rank := by
  refine Prod.Lex.toLex_lt_toLex.mpr (Or.inr ⟨by rw [dropped, phase], ?_⟩)
  refine Prod.Lex.toLex_lt_toLex.mpr (Or.inl (Exchange.sum_lt_of_update worker ?_ ?_))
  · rwa [workers, Function.update_self]
  · intro other differ
    rw [workers, Function.update_of_ne differ]

/-- A worker is a step nearer to its next message. -/
theorem rank_lt_of_effort (worker : Fin router.workerCount)
    (dropped : after.dropped = state.dropped) (phase : after.phase = state.phase)
    (queues
      : ∀ other, (after.system.workers other).inbound = (state.system.workers other).inbound)
    (lower : after.effort worker < state.effort worker)
    (others : ∀ other, other ≠ worker → after.effort other = state.effort other)
    : after.rank < state.rank := by
  refine Prod.Lex.toLex_lt_toLex.mpr (Or.inr ⟨by rw [dropped, phase], ?_⟩)
  have same : ∑ other, (after.system.workers other).inbound.length
      = ∑ other, (state.system.workers other).inbound.length :=
    Finset.sum_congr rfl (fun other _ => congrArg List.length (queues other))
  exact Prod.Lex.toLex_lt_toLex.mpr (Or.inr ⟨same, Exchange.sum_lt_of_update worker lower others⟩)

-----------------------------------------------------------------------------------------
-- Messages and replies
-----------------------------------------------------------------------------------------

variable [Event EL] [Snapshot SL EL] [ApplyEvent EL SL]

/-- A worker in `recv` takes the first message of its queue, and ends at it or handles it. -/
theorem receive_cases {visits : List SnapshotId}
    (possible : (state.receive worker visits).2 = true)
    : state.receiving worker = true
      ∧ ∃ message inbound,
          (state.system.workers worker).stopped = false
          ∧ (state.system.workers worker).inbound = message :: inbound
          ∧ ((handleWorker router.lowerTimeHorizonDelta (state.system.workers worker).historyById
                message visits = none
              ∧ (state.receive worker visits).1
                = { state with
                    system := state.system.setWorker worker
                      { state.system.workers worker with inbound := [], stopped := true },
                    receiving := Function.update state.receiving worker false })
            ∨ ∃ handled,
                handleWorker router.lowerTimeHorizonDelta
                  (state.system.workers worker).historyById message visits
                = some handled
                ∧ (state.receive worker visits).1
                  = { state with
                      system := state.system.setWorker worker
                        { inbound, historyById := handled.historyById, deltas := handled.deltas,
                          reply := some handled.reply, stopped := false },
                      receiving := Function.update state.receiving worker false }) := by
  cases inRecv : state.receiving worker with
  | false => simp [receive, inRecv] at possible
  | true =>
      refine ⟨rfl, ?_⟩
      rcases state.system.handle_cases worker visits with
        same | ⟨message, inbound, running, _, _, queue, outcome⟩
      · simp [receive, inRecv, same] at possible
      · refine ⟨message, inbound, running, queue, ?_⟩
        rcases outcome with ⟨ends, stops⟩ | ⟨handled, shape, takes⟩
        · exact Or.inl ⟨ends, by simp [receive, inRecv, stops]⟩
        · exact Or.inr ⟨handled, shape, by simp [receive, inRecv, takes]⟩

/-- A step that is not possible changes nothing. -/
theorem step_of_impossible {action : TeardownAction router}
    (impossible : (state.step action).2 = false)
    : (state.step action).1 = state := by
  cases action with
  | drop =>
      rw [step, drop] at impossible ⊢
      split
      next left =>
        rw [dif_pos left] at impossible
        revert impossible
        unfold dropWorker
        dsimp only
        split <;> repeat' split
        all_goals simp
      next => rfl
  | check worker stale =>
      rw [step, check] at impossible ⊢
      revert impossible
      repeat' split
      all_goals simp
  | receive worker visits =>
      rw [step, receive] at impossible ⊢
      revert impossible
      dsimp only
      repeat' split
      all_goals simp
  | commit worker =>
      rw [step] at impossible ⊢
      rcases state.system.commit_cases worker with same | ⟨_, _, _, commits⟩
      · rw [same]
      · rw [commits] at impossible
        cases impossible
  | respond worker =>
      rw [step] at impossible ⊢
      rcases state.system.respond_cases worker with same | ⟨_, _, _, _, responds⟩
      · rw [same]
      · rw [responds] at impossible
        cases impossible

/-- Every possible step lowers the rank. -/
theorem rank_step_lt (state : Teardown router SL EL) (action : TeardownAction router)
    (possible : (state.step action).2 = true)
    : (state.step action).1.rank < state.rank := by
  cases action with
  | drop =>
      apply rank_lt_of_drop
      rw [step, drop] at possible ⊢
      split at possible
      next left =>
        rw [dif_pos left]
        rcases dropWorker_cases possible with
          ⟨phase, shape⟩ | ⟨phase, _, shape⟩ | ⟨phase, _, shape⟩ | ⟨phase, _, shape⟩
        all_goals
          rw [shape, phase]
          simp only [DropPhase.done]
          omega
      next => cases possible
  | check worker stale =>
      obtain ⟨running, _, outside, goes | ⟨_, ends⟩⟩ := check_cases possible
      · rw [step, goes]
        refine rank_lt_of_effort worker rfl rfl (fun _ => rfl) ?_ (fun other differ => ?_)
        · simp [effort, running, outside]
        · simp [effort, differ]
      · rw [step, ends]
        refine rank_lt_of_effort worker rfl rfl ?_ ?_ (fun other differ => ?_)
        · exact System.setWorker_part WorkerState.inbound rfl
        · simp [effort, running, outside]
        · simp [effort, System.setWorker_of_ne differ]
  | receive worker visits =>
      obtain ⟨_, message, inbound, _, queue, ⟨_, ends⟩ | ⟨handled, _, takes⟩⟩ :=
        receive_cases possible
      · rw [step, ends]
        refine rank_lt_of_message worker rfl rfl rfl ?_
        simp [queue]
      · rw [step, takes]
        refine rank_lt_of_message worker rfl rfl rfl ?_
        simp [queue]
  | commit worker =>
      rw [step] at possible ⊢
      rcases state.system.commit_cases worker with same | ⟨delta, deltas, pending, commits⟩
      · rw [same] at possible
        cases possible
      · rw [commits]
        refine rank_lt_of_effort worker rfl rfl ?_ ?_ (fun other differ => ?_)
        · exact System.setWorker_part WorkerState.inbound rfl
        · simp [effort, pending]
        · simp [effort, System.setWorker_of_ne differ]
  | respond worker =>
      rw [step] at possible ⊢
      rcases state.system.respond_cases worker with same | ⟨channel, reply, _, inHand, responds⟩
      · rw [same] at possible
        cases possible
      · rw [responds]
        refine rank_lt_of_effort worker rfl rfl ?_ ?_ (fun other differ => ?_)
        · exact System.setWorker_part WorkerState.inbound rfl
        · simp [effort, inHand]
        · simp [effort, System.setWorker_of_ne differ]

-----------------------------------------------------------------------------------------
-- Progress
-----------------------------------------------------------------------------------------

/-- A thread that has ended or is in `recv` has nothing in hand, one that is joined has ended or
will find the request to end, and a dropped one has ended.
-/
structure SoundAt (dropped : Nat) (phase : DropPhase) (worker : Fin router.workerCount)
    (target : WorkerState SL EL) (receiving : Bool)
    : Prop where
  ended : target.stopped = true → target.Free
  free : receiving = true → target.Free
  asked
    : worker.val = dropped → phase = .join
      → target.stopped = true ∨ .shutdown ∈ target.inbound
  gone : worker.val < dropped → target.stopped = true ∧ target.inbound = []

def Sound (state : Teardown router SL EL) : Prop :=
  ∀ worker,
    SoundAt state.dropped state.phase worker (state.system.workers worker)
      (state.receiving worker)

omit [Event EL] [Snapshot SL EL] [ApplyEvent EL SL] in
/-- A step of one worker keeps the drop sound when the worker is. -/
theorem Sound.update (sound : state.Sound) (worker : Fin router.workerCount)
    {after : Teardown router SL EL} {target : WorkerState SL EL} {receiving : Bool}
    (dropped : after.dropped = state.dropped) (phase : after.phase = state.phase)
    (workers : after.system.workers = Function.update state.system.workers worker target)
    (receives : after.receiving = Function.update state.receiving worker receiving)
    (own : SoundAt state.dropped state.phase worker target receiving)
    : after.Sound := by
  intro other
  rw [dropped, phase, workers, receives]
  by_cases same : other = worker
  · subst same
    rw [Function.update_self, Function.update_self]
    exact own
  · rw [Function.update_of_ne same, Function.update_of_ne same]
    exact sound other

omit [Event EL] [Snapshot SL EL] [ApplyEvent EL SL] in
/-- The drop of the next worker keeps the drop sound. -/
theorem Sound.dropWorker (sound : state.Sound) (place : worker.val = state.dropped)
    (possible : (state.dropWorker worker).2 = true)
    : (state.dropWorker worker).1.Sound := by
  have only {other : Fin router.workerCount} (same : other.val = state.dropped)
      : other = worker := Fin.ext (same.trans place.symm)
  rcases dropWorker_cases possible with
    ⟨_, shape⟩ | ⟨_, stopped, shape⟩ | ⟨_, _, shape⟩ | ⟨_, stopped, shape⟩
  · rw [shape]
    exact fun other => ⟨(sound other).ended, (sound other).free, nofun, (sound other).gone⟩
  · rw [shape]
    intro other
    refine ⟨(sound other).ended, (sound other).free, fun same _ => ?_, (sound other).gone⟩
    exact Or.inl (only same ▸ stopped)
  · rw [shape]
    intro other
    by_cases own : other = worker
    · subst own
      refine ⟨?_, ?_, fun _ _ => ?_, fun earlier => absurd place (Nat.ne_of_lt earlier)⟩
      · simpa [WorkerState.Free] using (sound other).ended
      · simpa [WorkerState.Free] using (sound other).free
      · simp
    · dsimp only
      rw [System.setWorker_of_ne own]
      exact ⟨(sound other).ended, (sound other).free, fun same => absurd (only same) own,
        (sound other).gone⟩
  · rw [shape]
    intro other
    by_cases own : other = worker
    · subst own
      refine ⟨?_, ?_, nofun, fun _ => ?_⟩
      · simpa [WorkerState.Free] using (sound other).ended
      · simpa [WorkerState.Free] using (sound other).free
      · simpa using stopped
    · dsimp only
      rw [System.setWorker_of_ne own]
      refine ⟨(sound other).ended, (sound other).free, nofun, fun earlier => ?_⟩
      have differ : other.val ≠ state.dropped := fun same => own (only same)
      exact (sound other).gone (by omega)

/-- Every step keeps the drop sound. -/
theorem Sound.step (sound : state.Sound) (action : TeardownAction router)
    : (state.step action).1.Sound := by
  cases possible : (state.step action).2 with
  | false => exact (step_of_impossible possible).symm ▸ sound
  | true =>
      cases action with
      | drop =>
          rw [Teardown.step, Teardown.drop] at possible ⊢
          split at possible
          next left =>
            rw [dif_pos left]
            exact sound.dropWorker rfl possible
          next => cases possible
      | check worker stale =>
          obtain ⟨running, free, outside, goes | ⟨_, ends⟩⟩ := check_cases possible
          · rw [Teardown.step, goes]
            have same := (Function.update_eq_self worker state.system.workers).symm
            refine sound.update worker rfl rfl same rfl ?_
            exact ⟨(sound worker).ended, fun _ => free, (sound worker).asked, (sound worker).gone⟩
          · rw [Teardown.step, ends]
            have same := (Function.update_eq_self worker state.receiving).symm
            refine sound.update worker rfl rfl rfl same ?_
            refine ⟨fun _ => free, fun _ => free, fun _ _ => Or.inl rfl, fun earlier => ?_⟩
            exact ⟨rfl, ((sound worker).gone earlier).2⟩
      | receive worker visits =>
          obtain ⟨inRecv, message, inbound, running, queue, outcome⟩ := receive_cases possible
          have free := (sound worker).free inRecv
          have going (earlier : worker.val < state.dropped) : False := by
            rw [((sound worker).gone earlier).1] at running
            cases running
          rcases outcome with ⟨_, ends⟩ | ⟨handled, shape, takes⟩
          · rw [Teardown.step, ends]
            refine sound.update worker rfl rfl rfl rfl ?_
            exact ⟨fun _ => free, fun _ => free, fun _ _ => Or.inl rfl,
              fun earlier => (going earlier).elim⟩
          · rw [Teardown.step, takes]
            refine sound.update worker rfl rfl rfl rfl ?_
            refine ⟨nofun, nofun, fun place joins => ?_, fun earlier => (going earlier).elim⟩
            rcases (sound worker).asked place joins with stopped | asked
            · rw [running] at stopped
              cases stopped
            · rw [queue] at asked
              rcases List.mem_cons.mp asked with rfl | later
              · cases shape
              · exact Or.inr later
      | commit worker =>
          rw [Teardown.step]
          rcases state.system.commit_cases worker with same | ⟨delta, deltas, pending, commits⟩
          · rw [same]
            exact sound
          · have busy : ¬(state.system.workers worker).Free := by
              intro free
              rw [free.1] at pending
              cases pending
            rw [commits]
            have same := (Function.update_eq_self worker state.receiving).symm
            refine sound.update worker rfl rfl rfl same ?_
            exact ⟨fun stopped => absurd ((sound worker).ended stopped) busy,
              fun inRecv => absurd ((sound worker).free inRecv) busy, (sound worker).asked,
              (sound worker).gone⟩
      | respond worker =>
          rw [Teardown.step]
          rcases state.system.respond_cases worker with
            same | ⟨channel, reply, committed, inHand, responds⟩
          · rw [same]
            exact sound
          · rw [responds]
            have same := (Function.update_eq_self worker state.receiving).symm
            refine sound.update worker rfl rfl rfl same ?_
            exact ⟨fun _ => ⟨committed, rfl⟩, fun _ => ⟨committed, rfl⟩, (sound worker).asked,
              (sound worker).gone⟩

/-- A thread with messages can take its next step. -/
theorem exists_possible_of_messages (running : (state.system.workers worker).stopped = false)
    (messages : (state.system.workers worker).inbound ≠ [])
    : ∃ action, (state.step action).2 = true := by
  cases deltas : (state.system.workers worker).deltas with
  | cons delta rest =>
      refine ⟨.commit worker, ?_⟩
      rw [step, System.commit_eq deltas]
  | nil =>
      cases inHand : (state.system.workers worker).reply with
      | some answer =>
          refine ⟨.respond worker, ?_⟩
          rw [step, System.respond_eq deltas inHand]
      | none =>
          cases inRecv : state.receiving worker with
          | false =>
              refine ⟨.check worker true, ?_⟩
              have free : (state.system.workers worker).Free := ⟨deltas, inHand⟩
              simp [step, check, running, free, inRecv]
          | true =>
              refine ⟨.receive worker, ?_⟩
              obtain ⟨message, inbound, queue⟩ := List.exists_cons_of_ne_nil messages
              cases shape : handleWorker router.lowerTimeHorizonDelta
                  (state.system.workers worker).historyById message with
              | some handled =>
                  have takes := System.handle_eq running deltas inHand queue shape
                  simp [step, receive, inRecv, takes]
              | none =>
                  simp [step, receive, inRecv, System.handle, running, deltas, inHand, queue, shape]

/-- As long as the drop has not returned, some step is possible. -/
theorem Sound.progress (sound : state.Sound) (going : state.dropped < router.workerCount)
    : ∃ action, (state.step action).2 = true := by
  let worker : Fin router.workerCount := ⟨state.dropped, going⟩
  have dropping (possible : (state.dropWorker worker).2 = true)
      : ∃ action, (state.step action).2 = true := by
    refine ⟨.drop, ?_⟩
    rw [Teardown.step, Teardown.drop, dif_pos going]
    exact possible
  cases phase : state.phase with
  | store => exact dropping (by simp [Teardown.dropWorker, phase])
  | send =>
      cases stopped : (state.system.workers worker).stopped with
      | true => exact dropping (by simp [Teardown.dropWorker, phase, stopped])
      | false =>
          by_cases room : (state.system.workers worker).inbound.length < INBOUND_CAPACITY
          · exact dropping (by simp [Teardown.dropWorker, phase, stopped, room])
          · -- The owner waits at a full queue, which the thread empties or leaves behind.
            apply exists_possible_of_messages stopped
            intro empty
            rw [empty] at room
            exact room (Nat.succ_pos _)
  | join =>
      cases stopped : (state.system.workers worker).stopped with
      | true => exact dropping (by simp [Teardown.dropWorker, phase, stopped])
      | false =>
          apply exists_possible_of_messages stopped
          intro empty
          rcases (sound worker).asked rfl phase with ended | asked
          · rw [stopped] at ended
            cases ended
          · rw [empty] at asked
            cases asked

omit [Event EL] [Snapshot SL EL] [ApplyEvent EL SL] in
/-- A drop starts sound when the threads that have ended or are in `recv` have nothing in hand. -/
theorem sound_start {system : System router SL EL} {receiving : Fin router.workerCount → Bool}
    (ended : ∀ worker, (system.workers worker).stopped = true → (system.workers worker).Free)
    (inRecv : ∀ worker, receiving worker = true → (system.workers worker).Free)
    : (start system receiving).Sound :=
  fun worker => ⟨ended worker, inRecv worker, nofun, nofun⟩

theorem Sound.run (sound : state.Sound) (actions : List (TeardownAction router))
    : (state.run actions).Sound :=
  Transducer.final_invariant (fun _ action before => before.step action) sound actions

variable [EventLanes EL SL]

/-- The drop of a router returns, whatever it was used for, wherever its threads are and however
they are scheduled, with stale reads of the flag, full queues and panics among them: no schedule
has only possible steps, and as long as the drop has not returned some step is possible. By a rank
that every possible step lowers, and an invariant by which only a returned drop is stuck.
-/
theorem drop_returns (actions : List (Action router SL EL))
    {receiving : Fin router.workerCount → Bool}
    (inRecv
      : ∀ worker, receiving worker = true →
        (((System.new : System router SL EL).run actions).workers worker).Free)
    (schedule : Nat → TeardownAction router)
    : let after (count : Nat) : Teardown router SL EL :=
        (start (System.new.run actions) receiving).run ((List.range count).map schedule)
      (∃ count, ((after count).step (schedule count)).2 = false)
      ∧ ∀ count, ¬(after count).Returned → ∃ action, ((after count).step action).2 = true := by
  intro after
  have ends := Transducer.exists_impossible (fun _ => True) rank
    (fun state action _ => rank_step_lt state action)
    (start (System.new.run actions) receiving) schedule (fun _ => trivial)
  refine ⟨ends, ?_⟩
  intro count going
  have sound := sound_start (System.run_free_of_stopped actions) inRecv
  exact (sound.run _).progress (Nat.lt_of_not_le going)

/-- The owner alone gets no further than the join, where the thread has to take the request. -/
theorem drop_returns_at_join
    : let router : Router := ⟨1, by decide, fun _ => 0, 1000, 60⟩
      let system : System router TestSnapshot TestEvent := System.new.run []
      let after (count : Nat) : Teardown router TestSnapshot TestEvent :=
        (start system (fun _ => true)).run ((List.range count).map (fun _ => .drop))
      (∃ count, ((after count).step .drop).2 = false)
      ∧ ∃ action, ((after 2).step action).2 = true := by
  intro router system after
  have free (worker : Fin router.workerCount) (_ : (fun _ => true) worker = true)
      : (system.workers worker).Free := ⟨rfl, rfl⟩
  obtain ⟨ends, goes⟩ :=
    drop_returns ([] : List (Action router TestSnapshot TestEvent)) free (fun _ => .drop)
  exact ⟨ends, goes 2 (by decide)⟩

end Teardown

end Contime
