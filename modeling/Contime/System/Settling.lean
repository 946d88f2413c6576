import Contime.System.ReplyChannels
import Contime.System.Teardown

/-! How calls come to an end. As long as a call is under way some client or worker can take a step,
and no schedule of such steps goes on for ever, so that every call returns or waits for a worker
that has ended.
-/

open scoped BigOperators

namespace Contime

universe u v
variable {SL : Type u} {EL : Type v} {router : Router}

-----------------------------------------------------------------------------------------
-- Termination
-----------------------------------------------------------------------------------------

/-- What a worker has to do with the message in hand. -/
def WorkerState.effort (state : WorkerState SL EL) : Nat :=
  state.deltas.length + state.reply.toList.length

namespace System
variable {system after : System router SL EL} {worker : Fin router.workerCount}

/-- The messages that are to be sent, those in the queues, and the efforts that are left. -/
def rank (system : System router SL EL) : Nat ×ₗ Nat ×ₗ Nat :=
  toLex ((system.calls.map (fun call => call.pending.length)).sum,
    toLex (∑ worker, (system.workers worker).inbound.length,
      ∑ worker, (system.workers worker).effort))

/-- A client has a message less to send. -/
theorem rank_lt_of_call {index : Nat} {call : Call router SL EL}
    {change : Call router SL EL → Call router SL EL}
    (found : system.calls[index]? = some call)
    (calls : after.calls = system.calls.modify index change)
    (lower : (change call).pending.length < call.pending.length)
    : after.rank < system.rank := by
  refine Prod.Lex.toLex_lt_toLex.mpr (Or.inl ?_)
  rw [calls]
  exact Exchange.sum_lt_of_modify (fun call => call.pending.length) change found lower

/-- A worker has a message less in its queue, or less to do with the one in hand. -/
theorem rank_lt_of_worker {target : WorkerState SL EL}
    (calls
      : after.calls.map (fun call => call.pending.length)
        = system.calls.map (fun call => call.pending.length))
    (workers : after.workers = Function.update system.workers worker target)
    (lower
      : target.inbound.length < (system.workers worker).inbound.length
        ∨ target.inbound = (system.workers worker).inbound
          ∧ target.effort < (system.workers worker).effort)
    : after.rank < system.rank := by
  have own : after.workers worker = target := by rw [workers, Function.update_self]
  have others (other : Fin router.workerCount) (differ : other ≠ worker)
      : after.workers other = system.workers other := by
    rw [workers, Function.update_of_ne differ]
  have pending : (after.calls.map (fun call => call.pending.length)).sum
      = (system.calls.map (fun call => call.pending.length)).sum := by
    rw [calls]
  refine Prod.Lex.toLex_lt_toLex.mpr (Or.inr ⟨pending, ?_⟩)
  rcases lower with shorter | ⟨queue, less⟩
  · refine Prod.Lex.toLex_lt_toLex.mpr (Or.inl (Exchange.sum_lt_of_update worker ?_ ?_))
    · rwa [own]
    · exact fun other differ => by rw [others other differ]
  · have queues : ∑ other, (after.workers other).inbound.length
        = ∑ other, (system.workers other).inbound.length := by
      refine Finset.sum_congr rfl (fun other _ => ?_)
      by_cases same : other = worker
      · rw [same, own, queue]
      · rw [others other same]
    refine Prod.Lex.toLex_lt_toLex.mpr
      (Or.inr ⟨queues, Exchange.sum_lt_of_update worker ?_ ?_⟩)
    · rwa [own]
    · exact fun other differ => by rw [others other differ]

variable [Event EL] [Snapshot SL EL] [ApplyEvent EL SL] [EventLanes EL SL]

/-- Every possible step of the calls under way lowers the rank. -/
theorem rank_step_lt (system : System router SL EL) {action : Action router SL EL}
    (serves : action.Serves) (possible : (system.step action).2 = true)
    : (system.step action).1.rank < system.rank := by
  cases action with
  | sendEvent | sendSnapshot | queryAt | sendAdvance => exact serves.elim
  | enqueue index =>
      rw [System.step] at possible ⊢
      rcases system.enqueue_cases index with
        same | ⟨call, _, _, found, accepted, next, ⟨_, fails⟩ | ⟨_, _, sends⟩⟩
      · rw [same] at possible
        cases possible
      · have inside := (List.getElem?_eq_some_iff.mp next).1
        rw [fails]
        refine rank_lt_of_call found rfl ?_
        simp only [Call.pending, accepted, if_true, List.length_drop]
        simpa using Nat.sub_pos_of_lt inside
      · have inside := (List.getElem?_eq_some_iff.mp next).1
        rw [sends]
        refine rank_lt_of_call found rfl ?_
        simp only [Call.pending, accepted, if_true, List.length_drop]
        omega
  | handle worker visits =>
      rw [System.step] at possible ⊢
      rcases system.handle_cases worker visits with
        same | ⟨_, _, _, _, _, queue, ⟨_, stops⟩ | ⟨_, _, takes⟩⟩
      · rw [same] at possible
        cases possible
      · rw [stops]
        exact rank_lt_of_worker rfl rfl (Or.inl (by simp [queue]))
      · rw [takes]
        exact rank_lt_of_worker rfl rfl (Or.inl (by simp [queue]))
  | commit worker =>
      rw [System.step] at possible ⊢
      rcases system.commit_cases worker with same | ⟨_, _, pending, commits⟩
      · rw [same] at possible
        cases possible
      · rw [commits]
        refine rank_lt_of_worker rfl rfl (Or.inr ⟨rfl, ?_⟩)
        simp [WorkerState.effort, pending]
  | respond worker =>
      rw [System.step] at possible ⊢
      rcases system.respond_cases worker with same | ⟨_, _, _, inHand, responds⟩
      · rw [same] at possible
        cases possible
      · rw [responds]
        refine rank_lt_of_worker (map_modify ?_ system.calls _) rfl (Or.inr ⟨rfl, ?_⟩)
        · exact fun _ => rfl
        · simp [WorkerState.effort, inHand]

-----------------------------------------------------------------------------------------
-- Progress
-----------------------------------------------------------------------------------------

/-- No client or worker can go on with the calls under way. -/
def Stuck (system : System router SL EL) : Prop :=
  ∀ action : Action router SL EL, action.Serves → (system.step action).2 = false

/-- In a stuck system no worker has anything in hand. -/
theorem Stuck.free (stuck : system.Stuck) (worker : Fin router.workerCount)
    : (system.workers worker).Free := by
  have commits := stuck (.commit worker) trivial
  have responds := stuck (.respond worker) trivial
  have committed : (system.workers worker).deltas = [] := by
    cases pending : (system.workers worker).deltas with
    | nil => rfl
    | cons delta deltas =>
        rw [System.step, commit_eq pending] at commits
        cases commits
  refine ⟨committed, ?_⟩
  cases inHand : (system.workers worker).reply with
  | none => rfl
  | some answer =>
      rw [System.step, respond_eq committed inHand] at responds
      cases responds

/-- In a stuck system the queues of running workers are empty. -/
theorem Stuck.inbound (stuck : system.Stuck)
    (running : (system.workers worker).stopped = false)
    : (system.workers worker).inbound = [] := by
  obtain ⟨committed, replied⟩ := stuck.free worker
  have handles := stuck (.handle worker) trivial
  cases queue : (system.workers worker).inbound with
  | nil => rfl
  | cons message inbound =>
      cases shape : handleWorker router.lowerTimeHorizonDelta
          (system.workers worker).historyById message with
      | some handled =>
          rw [System.step, handle_eq running committed replied queue shape] at handles
          cases handles
      | none =>
          simp [System.step, System.handle, running, committed, replied, queue, shape] at handles

/-- In a stuck system every call that did not fail has sent all its messages. -/
theorem Stuck.sent (stuck : system.Stuck) {index : Nat} {call : Call router SL EL}
    (found : system.calls[index]? = some call) (accepted : call.error = none)
    : call.messages.length ≤ call.sent := by
  have enqueues := stuck (.enqueue index) trivial
  cases next : call.messages[call.sent]? with
  | none => exact List.getElem?_eq_none_iff.mp next
  | some entry =>
      obtain ⟨worker, message⟩ := entry
      rw [System.step] at enqueues
      cases stopped : (system.workers worker).stopped with
      | true =>
          rw [enqueue_eq_of_stopped found accepted next stopped] at enqueues
          cases enqueues
      | false =>
          have room : (system.workers worker).inbound.length < INBOUND_CAPACITY := by
            rw [stuck.inbound stopped]
            exact Nat.succ_pos _
          rw [enqueue_eq found accepted next stopped room] at enqueues
          cases enqueues

-----------------------------------------------------------------------------------------
-- Whole runs
-----------------------------------------------------------------------------------------

/-- No call of a run has sent more than its messages. -/
theorem run_sent_le (actions : List (Action router SL EL))
    : ∀ call ∈ ((new : System router SL EL).run actions).calls,
        call.sent ≤ call.messages.length := by
  have kept (system : System router SL EL) (action : Action router SL EL)
      (before : ∀ call ∈ system.calls, call.sent ≤ call.messages.length)
      : ∀ call ∈ (system.step action).1.calls, call.sent ≤ call.messages.length := by
    intro call member
    obtain ⟨position, found⟩ := List.mem_iff_getElem?.mp member
    have still (same : (system.step action).1.calls.map outline = system.calls.map outline)
        : call.sent ≤ call.messages.length := by
      obtain ⟨earlier, old, messages, sent, _⟩ := outline_eq same found
      rw [← messages, ← sent]
      exact before earlier (List.mem_of_getElem? old)
    by_cases serves : action.Serves
    · cases action with
      | sendEvent | sendSnapshot | queryAt | sendAdvance => exact serves.elim
      | handle worker visits => exact still (by rw [System.step, calls_handle])
      | commit worker => exact still (by rw [System.step, calls_commit])
      | respond worker =>
          refine still ?_
          rw [System.step]
          rcases system.respond_cases worker with same | ⟨_, _, _, _, responds⟩
          · rw [same]
          · rw [responds]
            exact map_modify (fun call => by simp [outline]) system.calls _
      | enqueue index =>
          rw [System.step] at found still
          rcases system.enqueue_cases index with
            same | ⟨sender, _, _, own, _, next, ⟨_, fails⟩ | ⟨_, _, sends⟩⟩
          · exact still (by rw [same])
          · refine still ?_
            rw [fails]
            refine map_modify ?_ system.calls index
            exact fun _ => rfl
          · rw [sends] at found
            dsimp only at found
            by_cases mine : index = position
            · subst mine
              rw [List.getElem?_modify_eq, own] at found
              obtain rfl := Option.some.inj found
              exact (List.getElem?_eq_some_iff.mp next).1
            · rw [List.getElem?_modify_ne _ _ mine] at found
              exact before call (List.mem_of_getElem? found)
    · obtain ⟨opened, shape, unsent, _, _⟩ := system.step_opens serves
      rw [shape] at member
      rcases List.mem_append.mp member with old | added
      · exact before call old
      · rw [List.mem_singleton.mp added, unsent]
        exact Nat.zero_le _
  exact Transducer.final_invariant kept (fun _ member => by cases member) actions

/-- What a call of a stuck system waits for: a reply of a worker that has ended. -/
def Forsaken (system : System router SL EL) (index : Nat) (call : Call router SL EL) : Prop :=
  ∃ position worker message,
    call.messages[position]? = some (worker, message)
    ∧ (system.workers worker).stopped = true
    ∧ system.replyAt ⟨index, position⟩ = none

/-- In a stuck system of a run every message to a running worker is answered. -/
theorem replyAt_of_stuck {actions : List (Action router SL EL)}
    (stuck : ((new : System router SL EL).run actions).Stuck) {index position : Nat}
    {call : Call router SL EL} {message : WorkerInbound SL EL}
    (found : ((new : System router SL EL).run actions).calls[index]? = some call)
    (accepted : call.error = none)
    (listed : call.messages[position]? = some (worker, message))
    (running : (((new : System router SL EL).run actions).workers worker).stopped = false)
    : ((new : System router SL EL).run actions).replyAt ⟨index, position⟩ ≠ none := by
  have inside := (List.getElem?_eq_some_iff.mp listed).1
  have delivered : (worker, message) ∈ call.delivered := by
    rw [Call.delivered, List.take_of_length_le (stuck.sent found accepted)]
    exact List.mem_of_getElem? listed
  have posted : ⟨index, position⟩ ∈ channelsOf worker (sent actions) := by
    have own := ((run_carried actions).addressed index call found).2 position worker message listed
    refine List.mem_filterMap.mpr ⟨message, ?_, own⟩
    have sends := run_delivered actions (List.mem_of_getElem? found) delivered
    exact List.mem_map.mpr ⟨_, List.mem_filter.mpr ⟨sends, by simp⟩, rfl⟩
  obtain ⟨answered, lost, inOrder⟩ := run_inOrder actions worker
  have nothing : (((new : System router SL EL).run actions).workers worker).channels = [] := by
    rw [WorkerState.channels, (stuck.free worker).2, stuck.inbound running]
    rfl
  rw [inOrder.split, nothing, inOrder.running running, List.append_nil, List.append_nil] at posted
  exact inOrder.replied _ posted

/-- In a stuck system of a run every call has failed or completed or waits for a worker that has
ended.
-/
theorem Stuck.settled {actions : List (Action router SL EL)}
    (stuck : ((new : System router SL EL).run actions).Stuck) {index : Nat}
    {call : Call router SL EL}
    (found : ((new : System router SL EL).run actions).calls[index]? = some call)
    : call.error ≠ none ∨ call.Completed
      ∨ ((new : System router SL EL).run actions).Forsaken index call := by
  by_cases accepted : call.error = none
  · right
    have complete := ((run_carried _).addressed index call found).1
    have most := run_sent_le _ call (List.mem_of_getElem? found)
    have whole := Nat.le_antisymm most (stuck.sent found accepted)
    by_cases all : ∀ reply ∈ call.replies, reply ≠ none
    · exact Or.inl ⟨accepted, whole, all⟩
    · right
      obtain ⟨reply, member, missing⟩ : ∃ reply ∈ call.replies, reply = none := by
        by_contra none
        exact all (fun reply member missing => none ⟨reply, member, missing⟩)
      subst missing
      obtain ⟨position, place⟩ := List.mem_iff_getElem?.mp member
      have inside : position < call.messages.length :=
        complete ▸ (List.getElem?_eq_some_iff.mp place).1
      have unanswered : ((new : System router SL EL).run actions).replyAt ⟨index, position⟩
          = none := by
        rw [replyAt, found]
        simp [place]
      refine ⟨position, call.messages[position].1, call.messages[position].2,
        List.getElem?_eq_getElem inside, ?_, unanswered⟩
      by_contra running
      exact replyAt_of_stuck stuck found accepted (List.getElem?_eq_getElem inside)
        (Bool.eq_false_iff.mpr running) unanswered
  · exact Or.inl accepted

/-- No schedule of steps of the calls under way has only possible steps. -/
theorem serving_ends (system : System router SL EL) {schedule : Nat → Action router SL EL}
    (serves : ∀ count, (schedule count).Serves)
    : ∃ count,
        ((system.run ((List.range count).map schedule)).step (schedule count)).2 = false :=
  Transducer.exists_impossible Action.Serves rank (fun system _ => rank_step_lt system) system
    schedule serves

/-- Calls come to an end, however the clients and workers are scheduled: from any state of a run,
no schedule of steps of the calls under way has only possible steps, and when no such step is
possible any more every call has failed or completed or waits for a worker that has ended. By a
rank that every possible step lowers, and by the message that blocks a stuck call.
-/
theorem calls_settle (actions : List (Action router SL EL)) (schedule : Nat → Action router SL EL)
    (serves : ∀ count, (schedule count).Serves)
    : let after (count : Nat) : System router SL EL :=
        ((new : System router SL EL).run actions).run ((List.range count).map schedule)
      (∃ count, ((after count).step (schedule count)).2 = false)
      ∧ ∀ count, (after count).Stuck → ∀ index call, (after count).calls[index]? = some call
        → call.error ≠ none ∨ call.Completed ∨ (after count).Forsaken index call := by
  intro after
  refine ⟨serving_ends (new.run actions) serves, ?_⟩
  intro count stuck index call found
  have joined : after count
      = (new : System router SL EL).run (actions ++ (List.range count).map schedule) :=
    (Transducer.final_append _ _ _).symm
  rw [joined] at stuck found ⊢
  exact stuck.settled found

/-- An event is sent, handled and answered, after which nobody can go on. -/
theorem calls_settle_event
    : let router : Router := ⟨1, by decide, fun _ => 0, 1000, 60⟩
      let worker : Fin router.workerCount := ⟨0, by decide⟩
      let actions : List (Action router TestSnapshot TestEvent) :=
        [.sendEvent (.positive 1 5 10 1)]
      let schedule (count : Nat) : Action router TestSnapshot TestEvent :=
        [.enqueue 0, .handle worker, .commit worker, .commit worker].getD count (.respond worker)
      (∃ count,
        (((new.run actions).run ((List.range count).map schedule)).step (schedule count)).2 = false)
      ∧ ∀ call, ((new.run actions).run ((List.range 5).map schedule)).calls[0]? = some call
        → call.Completed := by
  intro router worker actions schedule
  have serves (count : Nat) : (schedule count).Serves := by
    match count with
    | 0 | 1 | 2 | 3 | _ + 4 => trivial
  let system : System router TestSnapshot TestEvent :=
    (new.run actions).run ((List.range 5).map schedule)
  have single : system.calls.length = 1 := by decide
  have accepted : (system.calls[0]?).map Call.error = some none := by decide
  have running : ∀ other : Fin 1, (system.workers other).stopped = false := by decide
  have stuck : system.Stuck := by
    intro action serves
    cases action with
    | sendEvent | sendSnapshot | queryAt | sendAdvance => exact serves.elim
    | enqueue index =>
        cases index with
        | zero => decide
        | succ index =>
            have absent : system.calls[index + 1]? = none :=
              List.getElem?_eq_none (by omega)
            simp [System.step, System.enqueue, absent]
    | handle other visits =>
        obtain rfl : other = worker := Fin.ext (Nat.lt_one_iff.mp other.isLt)
        have empty : (system.workers worker).inbound.length = 0 := by decide
        rcases system.handle_cases worker visits with same | ⟨message, inbound, _, _, _, queue, _⟩
        · exact congrArg Prod.snd same
        · rw [queue] at empty
          cases empty
    | commit other | respond other =>
        obtain rfl : other = worker := Fin.ext (Nat.lt_one_iff.mp other.isLt)
        decide
  obtain ⟨ends, settled⟩ := calls_settle actions schedule serves
  refine ⟨ends, fun call found => ?_⟩
  obtain failed | completed | ⟨_, other, _, _, stopped, _⟩ := settled 5 stuck 0 call found
  · have error := found ▸ accepted
    exact absurd (Option.some.inj error) failed
  · exact completed
  · exact absurd stopped (Bool.eq_false_iff.mp (running other))

end System

end Contime
