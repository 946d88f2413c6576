import Contime.System.Deliveries
import Contime.System.Traces
import Contime.Model.TestFixtures

/-! What a call that sends an event has handed to the workers when it returns. The call sends
the messages of its targets one after the other and returns at the first worker that is gone,
with the messages before it in the queues.
-/

namespace Contime

universe u v
variable {SL : Type u} {EL : Type v} [Event EL] [Snapshot SL EL] [ApplyEvent EL SL]
  [EventLanes EL SL] {router : Router}

/-- The messages that go to one worker, in order. -/
def messagesFor (worker : Fin router.workerCount)
    (messages : List (Fin router.workerCount × WorkerInbound SL EL))
    : List (WorkerInbound SL EL) :=
  (messages.filter (fun entry => entry.1 = worker)).map Prod.snd

/-- What a call sends, how much of it is sent, and how the call failed. -/
def Call.progress (call : Call router SL EL)
    : List (Fin router.workerCount × WorkerInbound SL EL) × Nat × Option RouterError :=
  (call.messages, call.sent, call.error)

namespace System

/-- How far the call of an index is. -/
def progress (system : System router SL EL) (index : Nat)
    : Option (List (Fin router.workerCount × WorkerInbound SL EL) × Nat × Option RouterError) :=
  (system.calls.map Call.progress)[index]?

/-- What a step of the call adds to a worker's queue. -/
def handed (index : Nat) (worker : Fin router.workerCount) (system : System router SL EL)
    (action : Action router SL EL)
    : List (WorkerInbound SL EL) :=
  match action with
  | .enqueue call =>
      if call = index then
        ((system.step action).1.workers worker).inbound.drop
          (system.workers worker).inbound.length
      else []
  | _ => []

/-- The action is the call's, and the worker that it sends its next message to is gone. -/
def Refused (index : Nat) (system : System router SL EL) (action : Action router SL EL) : Prop :=
  action = .enqueue index
  ∧ ∃ messages sent worker message,
    system.progress index = some (messages, sent, none)
    ∧ messages[sent]? = some (worker, message)
    ∧ (system.workers worker).stopped = true

variable {system : System router SL EL} {index : Nat}
  {messages : List (Fin router.workerCount × WorkerInbound SL EL)} {sent : Nat}
  {error : Option RouterError}

omit [Event EL] [Snapshot SL EL] [ApplyEvent EL SL] [EventLanes EL SL] in
/-- How far a call is tells all of it but its replies. -/
theorem exists_call_of_progress (now : system.progress index = some (messages, sent, error))
    : ∃ replies, system.calls[index]? = some { messages, sent, replies, error } := by
  rw [progress, List.getElem?_map, Option.map_eq_some_iff] at now
  obtain ⟨call, found, same⟩ := now
  obtain ⟨rfl, rest⟩ := Prod.mk.inj same
  obtain ⟨rfl, rfl⟩ := Prod.mk.inj rest
  exact ⟨call.replies, found⟩

/-- Only the call's own steps change how far it is. -/
theorem step_progress_of_ne (now : system.progress index = some (messages, sent, error))
    {action : Action router SL EL} (other : action ≠ .enqueue index)
    : (system.step action).1.progress index = some (messages, sent, error) := by
  have started (call : Call router SL EL) (after : System router SL EL)
      (calls : after.calls = system.calls ++ [call])
      : after.progress index = some (messages, sent, error) := by
    have inside : index < (system.calls.map Call.progress).length :=
      (List.getElem?_eq_some_iff.mp now).1
    rw [progress, calls, List.map_append, List.getElem?_append_left inside]
    exact now
  cases action with
  | sendEvent lane => exact started _ _ rfl
  | sendSnapshot lane => exact started _ _ rfl
  | queryAt time snapshotId => exact started _ _ rfl
  | sendAdvance time => exact started _ _ rfl
  | enqueue call =>
      have differ : call ≠ index := fun same => other (congrArg Action.enqueue same)
      have modified (change : Call router SL EL → Call router SL EL)
          : ((system.calls.modify call change).map Call.progress)[index]?
            = some (messages, sent, error) := by
        rw [List.getElem?_map, List.getElem?_modify_ne _ _ differ, ← List.getElem?_map]
        exact now
      rw [System.step]
      rcases system.enqueue_cases call with
        same | ⟨_, _, _, _, _, _, ⟨_, fails⟩ | ⟨_, _, sends⟩⟩
      · rwa [same]
      · rw [fails]
        exact modified _
      · rw [sends]
        exact modified _
  | handle worker visits =>
      rw [System.step, progress, calls_handle]
      exact now
  | commit worker =>
      rw [System.step, progress, calls_commit]
      exact now
  | respond worker =>
      rw [System.step]
      rcases system.respond_cases worker with same | ⟨channel, reply, _, _, responds⟩
      · rwa [same]
      · have kept (call : Call router SL EL)
            : Call.progress
                { call with replies := call.replies.set channel.position (some reply) }
              = call.progress := rfl
        rw [responds, progress]
        dsimp only
        rw [map_modify kept]
        exact now

omit [Event EL] [Snapshot SL EL] [ApplyEvent EL SL] [EventLanes EL SL] in
/-- The call's step is refused when it has not failed yet and the worker of its next message is
gone.
-/
theorem refused_iff (now : system.progress index = some (messages, sent, error))
    {action : Action router SL EL}
    : Refused index system action
      ↔ action = .enqueue index
        ∧ error = none
        ∧ ∃ worker message,
          messages[sent]? = some (worker, message)
          ∧ (system.workers worker).stopped = true := by
  refine and_congr_right fun _ => ?_
  constructor
  · intro refused
    obtain ⟨_, _, worker, message, going, next, stopped⟩ := refused
    rw [now] at going
    cases going
    exact ⟨rfl, worker, message, next, stopped⟩
  · intro refused
    obtain ⟨rfl, worker, message, next, stopped⟩ := refused
    exact ⟨messages, sent, worker, message, now, next, stopped⟩

section
variable {replies : List (Option (Reply SL))} {worker : Fin router.workerCount}
  {message : WorkerInbound SL EL}

omit [Event EL] [Snapshot SL EL] [ApplyEvent EL SL] [EventLanes EL SL] in
/-- A change of a call changes how far it is. -/
theorem progress_modify (found : system.calls[index]? = some ⟨messages, sent, replies, error⟩)
    (change : Call router SL EL → Call router SL EL)
    : ((system.calls.modify index change).map Call.progress)[index]?
      = some (change ⟨messages, sent, replies, error⟩).progress := by
  rw [List.getElem?_map, List.getElem?_modify_eq, found]
  rfl

/-- With its worker gone, the next message stays unsent and the call fails. -/
theorem enqueue_of_stopped (found : system.calls[index]? = some ⟨messages, sent, replies, none⟩)
    (next : messages[sent]? = some (worker, message))
    (stopped : (system.workers worker).stopped = true)
    : (system.enqueue index).1.progress index = some (messages, sent, some .error)
      ∧ ∀ other, handed index other system (.enqueue index) = [] := by
  have fails := enqueue_eq_of_stopped found rfl next stopped
  constructor
  · rw [fails]
    exact progress_modify found _
  · intro other
    rw [handed, if_pos rfl, System.step, fails]
    exact List.drop_length

/-- With its worker there and room in the queue, the next message joins the queue. -/
theorem enqueue_of_room (found : system.calls[index]? = some ⟨messages, sent, replies, none⟩)
    (next : messages[sent]? = some (worker, message))
    (running : (system.workers worker).stopped = false)
    (room : (system.workers worker).inbound.length < INBOUND_CAPACITY)
    : (system.enqueue index).1.progress index = some (messages, sent + 1, none)
      ∧ ∀ other, handed index other system (.enqueue index)
        = if other = worker then [message] else [] := by
  have sends := enqueue_eq found rfl next running room
  constructor
  · rw [sends]
    exact progress_modify found _
  · intro other
    rw [handed, if_pos rfl, System.step, sends]
    dsimp only
    by_cases same : other = worker
    · rw [if_pos same, same, setWorker_self]
      exact List.drop_left
    · rw [if_neg same, setWorker_of_ne same]
      exact List.drop_length

end

/-- A step of the call sends its next message, or finds that worker gone, or waits. -/
theorem step_progress (now : system.progress index = some (messages, sent, error))
    (action : Action router SL EL)
    : (∃ worker message,
        action = .enqueue index
        ∧ error = none
        ∧ messages[sent]? = some (worker, message)
        ∧ ¬Refused index system action
        ∧ (system.step action).1.progress index = some (messages, sent + 1, none)
        ∧ ∀ other, handed index other system action
          = if other = worker then [message] else [])
      ∨ (Refused index system action
        ∧ error = none
        ∧ (system.step action).1.progress index = some (messages, sent, some .error)
        ∧ ∀ other, handed index other system action = [])
      ∨ (¬Refused index system action
        ∧ (system.step action).1.progress index = some (messages, sent, error)
        ∧ ∀ other, handed index other system action = []) := by
  by_cases own : action = .enqueue index
  · subst own
    obtain ⟨replies, found⟩ := exists_call_of_progress now
    rcases system.enqueue_cases index with
      same | ⟨_, worker, message, listed, accepted, next, outcome⟩
    · refine Or.inr (Or.inr ⟨?_, ?_, fun other => ?_⟩)
      · intro refused
        obtain ⟨_, rfl, worker, message, next, stopped⟩ := (refused_iff now).mp refused
        have fails := enqueue_eq_of_stopped found rfl next stopped
        rw [same] at fails
        exact Bool.false_ne_true (congrArg Prod.snd fails)
      · rwa [System.step, same]
      · rw [handed, if_pos rfl, System.step, same]
        exact List.drop_length
    · rw [found] at listed
      cases listed
      obtain rfl : error = none := accepted
      rcases outcome with ⟨stopped, _⟩ | ⟨running, room, _⟩
      · refine Or.inr (Or.inl ⟨?_, rfl, enqueue_of_stopped found next stopped⟩)
        exact (refused_iff now).mpr ⟨rfl, rfl, worker, message, next, stopped⟩
      · refine Or.inl ⟨worker, message, rfl, rfl, next, ?_, enqueue_of_room found next running room⟩
        intro refused
        obtain ⟨_, _, other, _, own, stopped⟩ := (refused_iff now).mp refused
        rw [next] at own
        cases own
        rw [running] at stopped
        cases stopped
  · refine Or.inr (Or.inr ⟨fun refused => own refused.1, step_progress_of_ne now own, ?_⟩)
    intro other
    cases action with
    | enqueue call => exact if_neg fun same => own (congrArg Action.enqueue same)
    | sendEvent | sendSnapshot | queryAt | sendAdvance | handle | commit | respond => rfl

-----------------------------------------------------------------------------------------
-- Runs
-----------------------------------------------------------------------------------------

/-- The action is the call's, and the worker of its next message is gone after earlier messages
were sent.
-/
def Abandons (index : Nat) (system : System router SL EL) (action : Action router SL EL) : Prop :=
  Refused index system action
  ∧ ∃ messages sent, system.progress index = some (messages, sent, none) ∧ 0 < sent

/-- What a run of the call's and of any other steps adds to a worker's queue for the call. -/
def handedTo (index : Nat) (worker : Fin router.workerCount) (system : System router SL EL)
    (steps : List (Action router SL EL))
    : List (WorkerInbound SL EL) :=
  Transducer.emitted System.step (handed index worker) system steps

/-- A failed call does nothing any more. -/
theorem progress_run_of_failed {reason : RouterError}
    (now : system.progress index = some (messages, sent, some reason))
    (steps : List (Action router SL EL))
    : (system.run steps).progress index = some (messages, sent, some reason) := by
  induction steps generalizing system with
  | nil => exact now
  | cons action rest ih =>
      apply ih
      rcases step_progress now action with ⟨_, _, _, going, _⟩ | ⟨_, going, _⟩ | ⟨_, same, _⟩
      · cases going
      · cases going
      · exact same

/-- The workers get the messages of a call in order, each at the worker it goes to. -/
theorem progress_run (now : system.progress index = some (messages, sent, error))
    (within : sent ≤ messages.length) (steps : List (Action router SL EL))
    : ∃ later failure,
        (system.run steps).progress index = some (messages, later, failure)
        ∧ later ≤ messages.length
        ∧ ∀ worker,
          messagesFor worker (messages.take sent) ++ handedTo index worker system steps
            = messagesFor worker (messages.take later) := by
  induction steps generalizing system sent error with
  | nil => exact ⟨sent, error, now, within, fun worker => List.append_nil _⟩
  | cons action rest ih =>
      have first (other : Fin router.workerCount)
          : handedTo index other system (action :: rest)
            = handed index other system action
              ++ handedTo index other (system.step action).1 rest := rfl
      rcases step_progress now action with
        ⟨worker, message, _, _, next, _, after, handed⟩ | ⟨_, _, after, handed⟩
          | ⟨_, after, handed⟩
      · obtain ⟨inside, own⟩ := List.getElem?_eq_some_iff.mp next
        obtain ⟨later, failure, final, reached, taken⟩ := ih after inside
        refine ⟨later, failure, final, reached, fun other => ?_⟩
        have joined
            : messagesFor other (messages.take (sent + 1))
              = messagesFor other (messages.take sent)
                ++ (if other = worker then [message] else []) := by
          rw [List.take_succ_eq_append_getElem inside, own]
          by_cases same : other = worker
          · simp [messagesFor, same]
          · simp [messagesFor, same, Ne.symm same]
        rw [← taken other, first, handed other, joined, List.append_assoc]
      · obtain ⟨later, failure, final, reached, taken⟩ := ih after within
        refine ⟨later, failure, final, reached, fun other => ?_⟩
        rw [← taken other, first, handed other, List.nil_append]
      · obtain ⟨later, failure, final, reached, taken⟩ := ih after within
        refine ⟨later, failure, final, reached, fun other => ?_⟩
        rw [← taken other, first, handed other, List.nil_append]

/-- A call fails with messages sent exactly when one of its steps abandons them. -/
theorem each_not_abandons_iff (now : system.progress index = some (messages, sent, error))
    (whole : error ≠ none → sent = 0) (steps : List (Action router SL EL))
    : Transducer.Each System.step (fun system action => ¬Abandons index system action)
        system steps
      ↔ ∀ messages sent reason,
          (system.run steps).progress index = some (messages, sent, some reason) → sent = 0 := by
  induction steps generalizing system sent error with
  | nil =>
      refine iff_of_true trivial ?_
      intro messages sent reason final
      rw [run, Transducer.final_nil, now] at final
      cases final
      exact whole (Option.some_ne_none _)
  | cons action rest ih =>
      rw [Transducer.each_cons, run_cons]
      rcases step_progress now action with
        ⟨_, _, _, _, _, accepted, after, _⟩ | ⟨refused, rfl, after, _⟩ | ⟨accepted, after, _⟩
      · rw [and_iff_right (fun abandons => accepted abandons.1)]
        exact ih after (fun failed => absurd rfl failed)
      · cases sent with
        | zero =>
            rw [and_iff_right]
            · exact ih after (fun _ => rfl)
            · intro ⟨_, messages, sent, going, earlier⟩
              rw [now] at going
              cases going
              exact Nat.lt_irrefl 0 earlier
        | succ sent =>
            refine iff_of_false ?_ ?_
            · intro each
              exact each.1 ⟨refused, messages, sent + 1, now, Nat.succ_pos sent⟩
            · intro always
              exact Nat.succ_ne_zero sent (always _ _ _ (progress_run_of_failed after rest))
      · rw [and_iff_right (fun abandons => accepted abandons.1)]
        exact ih after whole

-----------------------------------------------------------------------------------------
-- Sending an event
-----------------------------------------------------------------------------------------

/-- If `send_event` has returned `Err`, no worker was handed the event; if it has returned `Ok`,
every worker was handed the messages of its own targets.
-/
def AllOrNothing (before : System router SL EL) (eventLane : EL)
    (steps : List (Action router SL EL))
    : Prop :=
  let index := before.calls.length
  let start := (before.step (.sendEvent eventLane)).1
  ∀ call, (start.run steps).calls[index]? = some call →
    (call.error ≠ none → ∀ worker, handedTo index worker start steps = [])
    ∧ (call.error = none → call.sent = call.messages.length →
      ∀ worker, handedTo index worker start steps
        = messagesFor worker (eventMessages router index eventLane))

omit [Event EL] [Snapshot SL EL] [ApplyEvent EL SL] [EventLanes EL SL] in
theorem eq_nil_of_messagesFor (nothing : ∀ worker, messagesFor worker messages = [])
    : messages = [] := by
  cases messages with
  | nil => rfl
  | cons entry rest =>
      have own := nothing entry.1
      simp [messagesFor] at own

/-- A call that failed with a message in a queue is not all or nothing. -/
theorem not_allOrNothing {before : System router SL EL} {eventLane : EL}
    {steps : List (Action router SL EL)} {reason : RouterError}
    (failed
      : (before.run (.sendEvent eventLane :: steps)).calls[before.calls.length]?.map Call.error
        = some (some reason))
    (worker : Fin router.workerCount)
    (partly
      : (handedTo before.calls.length worker (before.step (.sendEvent eventLane)).1
          steps).isEmpty = false)
    : ¬AllOrNothing before eventLane steps := by
  intro whole
  obtain ⟨call, found, error⟩ := Option.map_eq_some_iff.mp failed
  have nothing := (whole call found).1 (by simp [error]) worker
  rw [nothing] at partly
  cases partly

/-- The call of an event is turned away with no message when the event would exceed the budget, and
starts with all its messages to send otherwise.
-/
theorem progress_sendEvent (before : System router SL EL) (eventLane : EL)
    : (before.step (.sendEvent eventLane)).1.progress before.calls.length
      = if before.memoryUsage + Event.conservativeSize eventLane ≥ router.memoryBudget then
          some ([], 0, some .memoryFull)
        else some (eventMessages router before.calls.length eventLane, 0, none) := by
  rw [progress, step, accept, List.getElem?_map]
  dsimp only
  rw [List.getElem?_append_right (Nat.le_refl _), Nat.sub_self]
  split
  · rfl
  · rfl

/-- The call is all or nothing exactly when it does not fail with messages sent. -/
theorem allOrNothing_iff_unsent {before : System router SL EL} {eventLane : EL}
    (start
      : (before.step (.sendEvent eventLane)).1.progress before.calls.length
        = some (messages, 0, error))
    (all : error = none → messages = eventMessages router before.calls.length eventLane)
    (steps : List (Action router SL EL))
    : AllOrNothing before eventLane steps
      ↔ ∀ messages sent reason,
          ((before.step (.sendEvent eventLane)).1.run steps).progress before.calls.length
            = some (messages, sent, some reason)
          → sent = 0 := by
  obtain ⟨later, failure, final, within, taken⟩ := progress_run start (Nat.zero_le _) steps
  obtain ⟨replies, found⟩ := exists_call_of_progress final
  have handed (worker : Fin router.workerCount)
      : handedTo before.calls.length worker (before.step (.sendEvent eventLane)).1 steps
        = messagesFor worker (messages.take later) := taken worker
  constructor
  · intro whole _ sent reason failed
    rw [final] at failed
    cases failed
    have nothing : messages.take later = [] := by
      apply eq_nil_of_messagesFor
      intro worker
      rw [← handed worker]
      exact (whole _ found).1 (Option.some_ne_none _) worker
    rcases List.take_eq_nil_iff.mp nothing with none | empty
    · exact none
    · rw [empty] at within
      exact Nat.eq_zero_of_le_zero within
  · intro unsent call listed
    rw [found] at listed
    cases listed
    refine ⟨fun failed worker => ?_, fun accepted whole worker => ?_⟩
    · obtain ⟨reason, rfl⟩ := Option.ne_none_iff_exists'.mp failed
      rw [handed worker, unsent _ _ _ final]
      rfl
    · have started : error = none := by
        cases error with
        | none => rfl
        | some reason =>
            rw [progress_run_of_failed start steps] at final
            cases final
            cases accepted
      have reached : later = messages.length := whole
      rw [handed worker, reached, List.take_length, all started]

-----------------------------------------------------------------------------------------
-- A fixed set of workers that are gone
-----------------------------------------------------------------------------------------

/-- Against a fixed set of workers that are gone, a call sends messages as long as their workers
are there and fails at the first whose worker is not.
-/
theorem progress_run_of_fixed {gone : Fin router.workerCount → Bool}
    (now : system.progress index = some (messages, sent, error))
    (before : ∀ entry ∈ messages.take sent, gone entry.1 = false)
    (stops : error ≠ none → ∃ entry, messages[sent]? = some entry ∧ gone entry.1 = true)
    {steps : List (Action router SL EL)}
    (fixed
      : Transducer.Each System.step
          (fun system _ => ∀ worker, (system.workers worker).stopped = gone worker) system steps)
    : ∃ later failure,
        (system.run steps).progress index = some (messages, later, failure)
        ∧ (∀ entry ∈ messages.take later, gone entry.1 = false)
        ∧ (failure ≠ none
          → ∃ entry, messages[later]? = some entry ∧ gone entry.1 = true) := by
  induction steps generalizing system sent error with
  | nil => exact ⟨sent, error, now, before, stops⟩
  | cons action rest ih =>
      obtain ⟨current, fixed⟩ := fixed
      rcases step_progress now action with
        ⟨worker, message, own, rfl, next, accepted, after, _⟩ | ⟨refused, rfl, after, _⟩
          | ⟨_, after, _⟩
      · refine ih after ?_ (fun failed => absurd rfl failed) fixed
        intro entry member
        obtain ⟨inside, same⟩ := List.getElem?_eq_some_iff.mp next
        rw [List.take_succ_eq_append_getElem inside, same] at member
        rcases List.mem_append.mp member with earlier | last
        · exact before entry earlier
        · rw [List.mem_singleton.mp last, ← current worker]
          refine Bool.eq_false_iff.mpr fun stopped => ?_
          exact accepted ((refused_iff now).mpr ⟨own, rfl, worker, message, next, stopped⟩)
      · refine ih after before ?_ fixed
        intro _
        obtain ⟨_, _, worker, message, next, stopped⟩ := (refused_iff now).mp refused
        exact ⟨(worker, message), next, current worker ▸ stopped⟩
      · exact ih after before stops fixed

/-- Against a fixed set of workers that are gone, a call within the budget that has returned is
all or nothing exactly when no target's worker is gone or the first target's worker is.
-/
theorem allOrNothing_iff_of_fixed {before : System router SL EL} {eventLane : EL}
    {gone : Fin router.workerCount → Bool} {steps : List (Action router SL EL)}
    (accepted
      : (before.step (.sendEvent eventLane)).1.progress before.calls.length
        = some (eventMessages router before.calls.length eventLane, 0, none))
    (fixed
      : Transducer.Each System.step
          (fun system _ => ∀ worker, (system.workers worker).stopped = gone worker)
          (before.step (.sendEvent eventLane)).1 steps)
    (returned
      : ∃ messages sent failure,
          ((before.step (.sendEvent eventLane)).1.run steps).progress before.calls.length
            = some (messages, sent, failure)
          ∧ (failure ≠ none ∨ sent = messages.length))
    : AllOrNothing before eventLane steps
      ↔ (∀ target ∈ (EventLanes.snapshots eventLane : List SL),
          gone (router.workerIndex (Snapshot.id target)) = false)
        ∨ ∃ first ∈ (EventLanes.snapshots eventLane : List SL)[0]?,
          gone (router.workerIndex (Snapshot.id first)) = true := by
  rw [allOrNothing_iff_unsent accepted (fun _ => rfl) steps]
  obtain ⟨later, failure, final, there, stops⟩ :=
    progress_run_of_fixed accepted (by simp) (fun failed => absurd rfl failed) fixed
  have delivered {position : Nat} {target : SL}
      (listed : (EventLanes.snapshots eventLane : List SL)[position]? = some target)
      : (eventMessages router before.calls.length eventLane)[position]?
        = some (delivery router eventLane target ⟨before.calls.length, position⟩) :=
    getElem?_eventMessages.mpr ⟨target, listed, rfl⟩
  have reached {position : Nat} {target : SL} (earlier : position < later)
      (listed : (EventLanes.snapshots eventLane : List SL)[position]? = some target)
      : gone (router.workerIndex (Snapshot.id target)) = false := by
    apply there (delivery router eventLane target ⟨before.calls.length, position⟩)
    apply List.mem_of_getElem?
    rw [List.getElem?_take_of_lt earlier, delivered listed]
  obtain ⟨_, _, _, last, ended⟩ := returned
  rw [final] at last
  cases last
  cases failure with
  | none =>
      refine iff_of_true ?_ (Or.inl ?_)
      · intro _ _ _ failed
        rw [final] at failed
        cases failed
      · intro target member
        obtain ⟨position, listed⟩ := List.getElem?_of_mem member
        refine reached ?_ listed
        rw [ended.resolve_left (fun failed => failed rfl)]
        exact (List.getElem?_eq_some_iff.mp (delivered listed)).1
  | some reason =>
      obtain ⟨entry, next, missing⟩ := stops (Option.some_ne_none _)
      obtain ⟨target, listed, rfl⟩ := getElem?_eventMessages.mp next
      cases later with
      | zero =>
          refine iff_of_true ?_ (Or.inr ⟨target, listed, missing⟩)
          intro _ _ _ failed
          rw [final] at failed
          cases failed
          rfl
      | succ later =>
          refine iff_of_false ?_ ?_
          · intro unsent
            exact Nat.succ_ne_zero later (unsent _ _ _ final)
          · intro all
            rcases all with none | ⟨first, head, absent⟩
            · rw [delivery, none target (List.mem_of_getElem? listed)] at missing
              cases missing
            · rw [reached (Nat.succ_pos later) head] at absent
              cases absent

/-- Sending an event is all or nothing exactly when its call never finds a worker gone after it
sent a message to another target. Where the set of workers that are gone is fixed, and the call has
returned, this is so exactly when the event exceeds the budget, no target's worker is gone, or the
first target's worker is. By induction over the steps of the call among those of all others.
-/
theorem sendEvent_allOrNothing_iff (before : System router SL EL) (eventLane : EL)
    (steps : List (Action router SL EL))
    : (AllOrNothing before eventLane steps
        ↔ Transducer.Each System.step
            (fun system action => ¬Abandons before.calls.length system action)
            (before.step (.sendEvent eventLane)).1 steps)
      ∧ ∀ gone : Fin router.workerCount → Bool,
          Transducer.Each System.step
            (fun system _ => ∀ worker, (system.workers worker).stopped = gone worker)
            (before.step (.sendEvent eventLane)).1 steps
          → (∃ messages sent failure,
              ((before.step (.sendEvent eventLane)).1.run steps).progress before.calls.length
                = some (messages, sent, failure)
              ∧ (failure ≠ none ∨ sent = messages.length))
          → (AllOrNothing before eventLane steps
            ↔ before.memoryUsage + Event.conservativeSize eventLane ≥ router.memoryBudget
              ∨ (∀ target ∈ (EventLanes.snapshots eventLane : List SL),
                  gone (router.workerIndex (Snapshot.id target)) = false)
              ∨ ∃ first ∈ (EventLanes.snapshots eventLane : List SL)[0]?,
                gone (router.workerIndex (Snapshot.id first)) = true) := by
  have start := progress_sendEvent before eventLane
  split at start
  next exceeds =>
    refine ⟨?_, fun gone _ _ => iff_of_true ?_ (Or.inl exceeds)⟩
    · rw [allOrNothing_iff_unsent start nofun steps,
        each_not_abandons_iff start (fun _ => rfl) steps]
    · rw [allOrNothing_iff_unsent start nofun steps, progress_run_of_failed start steps]
      intro _ _ _ failed
      cases failed
      rfl
  next room =>
    refine ⟨?_, fun gone fixed returned => ?_⟩
    · rw [allOrNothing_iff_unsent start (fun _ => rfl) steps,
        each_not_abandons_iff start (fun failed => absurd rfl failed) steps]
    · rw [or_iff_right room]
      exact allOrNothing_iff_of_fixed start fixed returned

/-- A query has ended the worker of a character. An event of the character and of an account of the
same worker fails at its first target and reaches nobody.
-/
theorem sendEvent_allOrNothing_iff_first_gone
    : let router : Router :=
        { workerCount := 2, workersPositive := by decide,
          hashOne := fun snapshotId => .ofNat snapshotId.toNat,
          memoryBudget := 1000, lowerTimeHorizonDelta := 60 }
      let before : System router (SnapshotLane docLanes) (EventLane docLanes) :=
        new.run
          [.sendSnapshot ⟨.characterAt, ⟨1, 5, [], 100⟩⟩, .enqueue 0, .handle 1, .commit 1,
            .respond 1, .sendEvent ⟨.onCharacterCreated, ⟨2, 1, 1, 8, 2⟩⟩, .enqueue 1, .enqueue 1,
            .handle 1, .commit 1, .respond 1,
            .sendSnapshot ⟨.characterAt, ⟨1, 5, [], 100⟩⟩, .enqueue 2, .handle 1, .commit 1,
            .respond 1, .queryAt 5 1, .enqueue 3, .handle 1]
      let event : EventLane docLanes := ⟨.onCharacterCreated, ⟨3, 1, 6, 9, 3⟩⟩
      AllOrNothing before event [.enqueue 4] := by
  intro router before event
  have fixed
      : Transducer.Each System.step
          (fun system _ => ∀ worker, (system.workers worker).stopped = decide (worker.val = 1))
          (before.step (.sendEvent event)).1 [.enqueue 4] :=
    ⟨by decide, trivial⟩
  have failed
      : (((before.step (.sendEvent event)).1.run [.enqueue 4]).progress before.calls.length).map
          (fun progress => progress.2.2)
        = some (some .error) := by
    decide
  obtain ⟨⟨messages, sent, failure⟩, final, rfl⟩ := Option.map_eq_some_iff.mp failed
  have returned
      : ∃ messages sent failure,
          ((before.step (.sendEvent event)).1.run [.enqueue 4]).progress before.calls.length
            = some (messages, sent, failure)
          ∧ (failure ≠ none ∨ sent = messages.length) :=
    ⟨messages, sent, some .error, final, Or.inl (Option.some_ne_none _)⟩
  refine ((sendEvent_allOrNothing_iff before event [.enqueue 4]).2 _ fixed returned).mpr ?_
  exact Or.inr (Or.inr ⟨_, rfl, by decide⟩)

/-- A query at the time of a snapshot ends the worker of a character. The next event of the
character and its account returns `Err`, and the account has the event and the character has not.
-/
theorem event_reaches_one_of_two
    : let router : Router :=
        { workerCount := 2, workersPositive := by decide,
          hashOne := fun snapshotId => .ofNat snapshotId.toNat,
          memoryBudget := 1000, lowerTimeHorizonDelta := 60 }
      let first : EventLane docLanes := ⟨.onCharacterCreated, ⟨2, 1, 1, 8, 2⟩⟩
      let second : EventLane docLanes := ⟨.onCharacterCreated, ⟨2, 1, 6, 9, 3⟩⟩
      let snapshot : SnapshotLane docLanes := ⟨.characterAt, ⟨1, 5, [], 100⟩⟩
      let before : System router (SnapshotLane docLanes) (EventLane docLanes) :=
        new.run
          [.sendEvent first, .enqueue 0, .enqueue 0, .handle 0, .commit 0, .commit 0, .respond 0,
            .handle 1, .commit 1, .commit 1, .respond 1,
            .sendSnapshot snapshot, .enqueue 1, .handle 1, .commit 1, .respond 1,
            .queryAt 5 1, .enqueue 2, .handle 1]
      let steps : List (Action router (SnapshotLane docLanes) (EventLane docLanes)) :=
        [.enqueue 3, .enqueue 3, .handle 0, .commit 0, .respond 0]
      let after := before.run (.sendEvent second :: steps)
      (after.calls[3]?.map Call.error = some (some .error))
      ∧ ((after.held 2).map (fun history => history.events.keys) = some [⟨1, 8⟩, ⟨6, 9⟩])
      ∧ ((after.held 1).map (fun history => history.events.keys) = some [⟨1, 8⟩])
      ∧ ¬AllOrNothing before second steps := by
  intro router first second snapshot before steps after
  have failed : after.calls[before.calls.length]?.map Call.error = some (some .error) := by decide
  have last : before.calls.length = 3 := by decide
  refine ⟨last ▸ failed, by decide, by decide, not_allOrNothing failed 0 ?_⟩
  decide

end System

end Contime
