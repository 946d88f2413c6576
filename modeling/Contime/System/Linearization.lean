import Contime.System.PartialSends
import Contime.System.Quiescence

/-! Queries among the calls of other clients. A query returns what the messages sent before its own
make of the id, as if each of them had taken effect when it was sent, however long the workers
take to handle them.
-/

namespace Contime

universe u v
variable {SL : Type u} {EL : Type v} [Event EL] [Snapshot SL EL] [ApplyEvent EL SL]
  [EventLanes EL SL] {router : Router}

/-- The messages that a call has sent. -/
def Call.delivered (call : Call router SL EL)
    : List (Fin router.workerCount × WorkerInbound SL EL) :=
  call.messages.take call.sent

namespace System

/-- The message that a step adds to a worker's queue, with the worker. -/
def sends (system : System router SL EL)
    : Action router SL EL → List (Fin router.workerCount × WorkerInbound SL EL)
  | .enqueue index =>
      match system.calls[index]?, (system.enqueue index).1.calls[index]? with
      | some call, some after => (call.messages.take after.sent).drop call.sent
      | _, _ => []
  | .sendEvent _ | .sendSnapshot _ | .queryAt _ _ | .sendAdvance _ | .handle _ _ | .commit _
  | .respond _ => []

/-- The messages that a run has added to the workers' queues, in order. -/
def sent (actions : List (Action router SL EL))
    : List (Fin router.workerCount × WorkerInbound SL EL) :=
  Transducer.emitted step sends new actions

/-- The messages that the workers have handled in a run, in order. -/
def handled (actions : List (Action router SL EL))
    : List (Fin router.workerCount × WorkerInbound SL EL) :=
  Transducer.emitted step handles new actions

theorem sent_concat (past : List (Action router SL EL)) (action : Action router SL EL)
    : sent (past ++ [action])
      = sent past ++ ((new : System router SL EL).run past).sends action :=
  Transducer.emitted_concat sends new past action

theorem handled_concat (past : List (Action router SL EL)) (action : Action router SL EL)
    : handled (past ++ [action])
      = handled past ++ ((new : System router SL EL).run past).handles action :=
  Transducer.emitted_concat handles new past action

/-- What a query of the id returns when these messages are handled one after the other before it;
`none` when it ends in the panic of the range call.
-/
def answerBehind (snapshotId : SnapshotId)
    (messages : List (Fin router.workerCount × WorkerInbound SL EL)) (time : Time)
    : Option (QueryResult SL) :=
  match (inputsOf snapshotId messages).foldl (Input.take router.lowerTimeHorizonDelta) none with
  | some history => (history.snapshotAt time).map .found
  | none => some .notFound

omit [Event EL] [ApplyEvent EL SL] [EventLanes EL SL] in
/-- Only the messages of the worker of an id concern its history. -/
theorem inputsOf_eq (snapshotId : SnapshotId)
    (messages : List (Fin router.workerCount × WorkerInbound SL EL))
    : inputsOf snapshotId messages
      = (messagesFor (router.workerIndex snapshotId) messages).filterMap
          (WorkerInbound.inputFor snapshotId) := by
  rw [inputsOf, messagesFor, List.filterMap_map, List.filterMap_filter]
  refine List.filterMap_congr (fun entry _ => ?_)
  simp only [decide_eq_true_eq, Function.comp_apply]

omit [Event EL] [Snapshot SL EL] [ApplyEvent EL SL] [EventLanes EL SL] in
theorem messagesFor_append (worker : Fin router.workerCount)
    (first second : List (Fin router.workerCount × WorkerInbound SL EL))
    : messagesFor worker (first ++ second)
      = messagesFor worker first ++ messagesFor worker second := by
  rw [messagesFor, List.filter_append, List.map_append]
  rfl

omit [Event EL] [Snapshot SL EL] [ApplyEvent EL SL] [EventLanes EL SL] in
/-- A message to a worker splits all messages where it splits those to the worker. -/
theorem messagesFor_split {worker : Fin router.workerCount}
    {messages : List (Fin router.workerCount × WorkerInbound SL EL)}
    {before after : List (WorkerInbound SL EL)} {message : WorkerInbound SL EL}
    (equal : messagesFor worker messages = before ++ message :: after)
    : ∃ first second,
        messages = first ++ (worker, message) :: second ∧ messagesFor worker first = before := by
  obtain ⟨left, right, parts, own, others⟩ := List.map_eq_append_iff.mp equal
  obtain ⟨entry, later, rfl, rfl, _⟩ := List.map_eq_cons_iff.mp others
  obtain ⟨first, rest, rfl, kept, split⟩ := List.filter_eq_append_iff.mp parts
  obtain ⟨skipped, second, rfl, dropped, chosen, _⟩ := List.filter_eq_cons_iff.mp split
  obtain ⟨target, message⟩ := entry
  obtain rfl : target = worker := by simpa using chosen
  refine ⟨first ++ skipped, second, by simp, ?_⟩
  have none : messagesFor target skipped = [] := by
    simp only [messagesFor, List.map_eq_nil_iff, List.filter_eq_nil_iff]
    exact dropped
  rw [messagesFor_append, none, List.append_nil, messagesFor, kept, own]

-----------------------------------------------------------------------------------------
-- The queues
-----------------------------------------------------------------------------------------

variable {system : System router SL EL}

omit [Event EL] [Snapshot SL EL] [ApplyEvent EL SL] [EventLanes EL SL] in
/-- A step of a call sends nothing and leaves the queues alone, or sends its next message. -/
theorem sends_enqueue (system : System router SL EL) (index : Nat)
    : (system.sends (.enqueue index) = []
        ∧ (system.enqueue index).1.workers = system.workers
        ∧ (system.enqueue index).1.calls.map Call.delivered = system.calls.map Call.delivered)
      ∨ ∃ call worker message,
          system.calls[index]? = some call
          ∧ call.messages[call.sent]? = some (worker, message)
          ∧ (system.workers worker).stopped = false
          ∧ system.sends (.enqueue index) = [(worker, message)]
          ∧ (system.enqueue index).1
            = { system.setWorker worker
                  { system.workers worker with
                    inbound := (system.workers worker).inbound ++ [message] } with
                calls := system.calls.modify index (fun call =>
                  { call with sent := call.sent + 1 }) } := by
  rcases system.enqueue_cases index with
    same | ⟨call, worker, message, found, _, next, ⟨_, fails⟩ | ⟨running, _, sends⟩⟩
  · refine Or.inl ⟨?_, by rw [same], by rw [same]⟩
    rw [System.sends, same]
    cases system.calls[index]? with
    | none => rfl
    | some call => exact List.drop_take_self
  · refine Or.inl ⟨by simp [System.sends, fails, found], by rw [fails], ?_⟩
    rw [fails]
    refine map_modify ?_ system.calls index
    exact fun _ => rfl
  · refine Or.inr ⟨call, worker, message, found, next, running, ?_, by rw [sends]⟩
    obtain ⟨inside, own⟩ := List.getElem?_eq_some_iff.mp next
    have chosen : (call.messages.take (call.sent + 1)).drop call.sent = [(worker, message)] := by
      rw [List.take_succ_eq_append_getElem inside, own]
      exact List.drop_left' (List.length_take_of_le (Nat.le_of_lt inside))
    simp [System.sends, sends, found, chosen]

omit [Event EL] [Snapshot SL EL] [ApplyEvent EL SL] [EventLanes EL SL] in
/-- A step sends at most one message. -/
theorem sends_length_le (system : System router SL EL) (action : Action router SL EL)
    : (system.sends action).length ≤ 1 := by
  cases action with
  | enqueue index =>
      rcases system.sends_enqueue index with ⟨nothing, _, _⟩ | ⟨_, _, _, _, _, _, one, _⟩
      · exact nothing ▸ Nat.zero_le 1
      · exact one ▸ Nat.le_refl 1
  | sendEvent | sendSnapshot | queryAt | sendAdvance | handle | commit | respond =>
      exact Nat.zero_le 1

/-- What of a worker only a message that it gets or takes changes. -/
def passage (state : WorkerState SL EL) : Bool × List (WorkerInbound SL EL) :=
  (state.stopped, state.inbound)

/-- A worker that a step leaves running was running, and its queue passes on in order what is sent
to it.
-/
theorem step_queue (system : System router SL EL) (action : Action router SL EL)
    {worker : Fin router.workerCount}
    (running : ((system.step action).1.workers worker).stopped = false)
    : (system.workers worker).stopped = false
      ∧ (system.workers worker).inbound ++ messagesFor worker (system.sends action)
        = messagesFor worker (system.handles action)
          ++ ((system.step action).1.workers worker).inbound := by
  have still (same : passage ((system.step action).1.workers worker)
        = passage (system.workers worker))
      (noSends : messagesFor worker (system.sends action) = [])
      (noHandles : messagesFor worker (system.handles action) = [])
      : (system.workers worker).stopped = false
        ∧ (system.workers worker).inbound ++ messagesFor worker (system.sends action)
          = messagesFor worker (system.handles action)
            ++ ((system.step action).1.workers worker).inbound := by
    obtain ⟨stopped, queue⟩ := Prod.mk.inj same
    refine ⟨stopped ▸ running, ?_⟩
    rw [noSends, noHandles, queue, List.append_nil, List.nil_append]
  cases action with
  | sendEvent | sendSnapshot | queryAt | sendAdvance => exact still rfl rfl rfl
  | commit other =>
      refine still ?_ rfl rfl
      rw [System.step]
      rcases system.commit_cases other with same | ⟨_, _, _, commits⟩
      · rw [same]
      · rw [commits]
        refine setWorker_part passage ?_ worker
        rfl
  | respond other =>
      refine still ?_ rfl rfl
      rw [System.step]
      rcases system.respond_cases other with same | ⟨_, _, _, _, responds⟩
      · rw [same]
      · rw [responds]
        refine setWorker_part passage ?_ worker
        rfl
  | enqueue index =>
      rw [System.step] at running still ⊢
      rcases system.sends_enqueue index with
        ⟨nothing, same, _⟩ | ⟨_, target, message, _, _, before, one, shape⟩
      · exact still (by rw [same]) (by rw [nothing]; rfl) rfl
      · by_cases own : target = worker
        · subst own
          refine ⟨before, ?_⟩
          rw [one, shape]
          simp [messagesFor, handles]
        · refine still ?_ ?_ rfl
          · rw [shape]
            simp [setWorker_of_ne (Ne.symm own)]
          · simp [one, messagesFor, own]
  | handle other visits =>
      rw [System.step] at running still ⊢
      rcases system.handle_cases other visits with
        same | ⟨message, inbound, before, _, _, queue, ⟨_, stops⟩ | ⟨next, _, takes⟩⟩
      · refine still (by rw [same]) rfl ?_
        simp [handles, same, messagesFor]
      · by_cases own : other = worker
        · subst own
          simp [stops] at running
        · refine still ?_ rfl ?_
          · rw [stops]
            simp [setWorker_of_ne (Ne.symm own)]
          · simp [handles, stops, messagesFor]
      · by_cases own : other = worker
        · subst own
          refine ⟨before, ?_⟩
          simp [handles, takes, queue, messagesFor, sends]
        · refine still ?_ rfl ?_
          · rw [takes]
            simp [setWorker_of_ne (Ne.symm own)]
          · simp [handles, takes, queue, messagesFor, own]

/-- A running worker has handled what was sent to it, up to what waits in its queue. -/
theorem run_queue (actions : List (Action router SL EL)) {worker : Fin router.workerCount}
    (running : (((new : System router SL EL).run actions).workers worker).stopped = false)
    : messagesFor worker (sent actions)
      = messagesFor worker (handled actions)
        ++ (((new : System router SL EL).run actions).workers worker).inbound := by
  induction actions using List.reverseRecOn with
  | nil => rfl
  | append_singleton past action ih =>
      rw [run_concat] at running ⊢
      obtain ⟨before, passes⟩ := step_queue _ action running
      rw [sent_concat, handled_concat, messagesFor_append, messagesFor_append, List.append_assoc,
        ← passes, ← List.append_assoc, ih before]

-----------------------------------------------------------------------------------------
-- Where replies and messages come from
-----------------------------------------------------------------------------------------

/-- In one step of the run a worker takes a message and has this reply to it from then on. -/
def Replies (actions : List (Action router SL EL)) (channel : ReplyChannel) (reply : Reply SL)
    : Prop :=
  ∃ before worker visits after message taken,
    actions = before ++ .handle worker visits :: after
    ∧ (((new : System router SL EL).run before).workers worker).stopped = false
    ∧ (((new : System router SL EL).run before).workers worker).inbound.head? = some message
    ∧ handleWorker router.lowerTimeHorizonDelta
        (((new : System router SL EL).run before).workers worker).historyById message
      = some taken
    ∧ taken.reply = (channel, reply)

theorem Replies.concat {past : List (Action router SL EL)} {channel : ReplyChannel}
    {reply : Reply SL} (replies : Replies past channel reply) (action : Action router SL EL)
    : Replies (past ++ [action]) channel reply := by
  obtain ⟨before, worker, visits, after, message, taken, rfl, rest⟩ := replies
  exact ⟨before, worker, visits, after ++ [action], message, taken, by simp, rest⟩

/-- Only a worker that takes a message has a new reply in hand. -/
theorem step_inHand (system : System router SL EL) (action : Action router SL EL)
    {worker : Fin router.workerCount} {channel : ReplyChannel} {reply : Reply SL}
    (inHand : ((system.step action).1.workers worker).reply = some (channel, reply))
    : (system.workers worker).reply = some (channel, reply)
      ∨ ∃ visits message taken,
          action = .handle worker visits
          ∧ (system.workers worker).stopped = false
          ∧ (system.workers worker).inbound.head? = some message
          ∧ handleWorker router.lowerTimeHorizonDelta (system.workers worker).historyById message
            = some taken
          ∧ taken.reply = (channel, reply) := by
  have still (same : ((system.step action).1.workers worker).reply = (system.workers worker).reply)
      : (system.workers worker).reply = some (channel, reply) := same ▸ inHand
  cases action with
  | sendEvent | sendSnapshot | queryAt | sendAdvance => exact Or.inl inHand
  | commit other =>
      left
      apply still
      rw [System.step]
      rcases system.commit_cases other with same | ⟨_, _, _, commits⟩
      · rw [same]
      · rw [commits]
        refine setWorker_part WorkerState.reply ?_ worker
        rfl
  | enqueue index =>
      left
      apply still
      rw [System.step]
      rcases system.sends_enqueue index with ⟨_, same, _⟩ | ⟨_, _, _, _, _, _, _, shape⟩
      · rw [same]
      · rw [shape]
        refine setWorker_part WorkerState.reply ?_ worker
        rfl
  | respond other =>
      left
      rw [System.step] at inHand
      rcases system.respond_cases other with same | ⟨_, _, _, _, responds⟩
      · rwa [same] at inHand
      · rw [responds] at inHand
        by_cases own : worker = other
        · subst own
          simp at inHand
        · simpa [setWorker_of_ne own] using inHand
  | handle other visits =>
      rw [System.step] at inHand
      rcases system.handle_cases other visits with
        same | ⟨message, inbound, running, _, _, queue, ⟨_, stops⟩ | ⟨taken, shape, takes⟩⟩
      · rw [same] at inHand
        exact Or.inl inHand
      · left
        rw [stops] at inHand
        rw [← inHand]
        refine (setWorker_part WorkerState.reply ?_ worker).symm
        rfl
      · rw [takes] at inHand
        by_cases own : worker = other
        · subst own
          rw [setWorker_self] at inHand
          obtain ⟨other, ordered, _, answers, _⟩ := handleWorker_without shape
          exact Or.inr ⟨visits, message, other, rfl, running, by rw [queue]; rfl, ordered,
            answers.symm.trans (Option.some.inj inHand)⟩
        · rw [setWorker_of_ne own] at inHand
          exact Or.inl inHand

/-- A step that starts a call only adds it, with its messages to send; a query asks on the first
channel of its own call.
-/
theorem step_opens (system : System router SL EL) {action : Action router SL EL}
    (starts : ¬action.Serves)
    : ∃ call,
        (system.step action).1 = { system with calls := system.calls ++ [call] }
        ∧ call.sent = 0
        ∧ (∀ reply ∈ call.replies, reply = none)
        ∧ ∀ position worker snapshotId time reply,
          call.messages[position]? = some (worker, .snapshotAt snapshotId time reply)
          → action = .queryAt time snapshotId
            ∧ worker = router.workerIndex snapshotId
            ∧ reply = ⟨system.calls.length, 0⟩
            ∧ position = 0 := by
  by_cases mutates : action.Mutates
  · obtain ⟨call, shape, sound, unsent, unanswered⟩ := step_start system mutates
    refine ⟨call, shape, unsent, unanswered, ?_⟩
    intro position worker snapshotId time reply found
    exact (sound.mutates _ (List.mem_of_getElem? found)).elim
  · cases action with
    | sendEvent | sendSnapshot | sendAdvance => exact (mutates trivial).elim
    | enqueue | handle | commit | respond => exact (starts trivial).elim
    | queryAt time snapshotId =>
        refine ⟨_, rfl, rfl, by simp [Call.open], ?_⟩
        intro position worker target instant reply found
        obtain ⟨rfl, equal⟩ : position = 0
            ∧ (router.workerIndex snapshotId,
                (.snapshotAt snapshotId time ⟨system.calls.length, 0⟩ : WorkerInbound SL EL))
              = (worker, .snapshotAt target instant reply) := by
          simpa [Call.open, List.getElem?_singleton] using found
        cases equal
        exact ⟨rfl, rfl, rfl, rfl⟩

/-- Only a response changes the replies that handles have. -/
theorem replyAt_step (system : System router SL EL) {action : Action router SL EL}
    (other : ∀ worker, action ≠ .respond worker) (channel : ReplyChannel)
    : (system.step action).1.replyAt channel = system.replyAt channel := by
  by_cases serves : action.Serves
  · cases action with
    | sendEvent | sendSnapshot | queryAt | sendAdvance => exact serves.elim
    | respond worker => exact absurd rfl (other worker)
    | handle worker visits => rw [replyAt, System.step, calls_handle, replyAt]
    | commit worker => rw [replyAt, System.step, calls_commit, replyAt]
    | enqueue index =>
        refine replyAt_congr ?_ channel
        rw [System.step]
        rcases system.enqueue_cases index with
          same | ⟨_, _, _, _, _, _, ⟨_, fails⟩ | ⟨_, _, sends⟩⟩
        · rw [same]
        · rw [fails]
          refine map_modify ?_ system.calls index
          exact fun _ => rfl
        · rw [sends]
          refine map_modify ?_ system.calls index
          exact fun _ => rfl
  · obtain ⟨call, shape, _, unanswered, _⟩ := system.step_opens serves
    rw [shape]
    exact replyAt_start rfl unanswered channel

/-- A handle gets its replies from what a worker has in hand. -/
theorem step_replyAt (system : System router SL EL) (action : Action router SL EL)
    {channel : ReplyChannel} {reply : Reply SL}
    (replied : (system.step action).1.replyAt channel = some reply)
    : system.replyAt channel = some reply
      ∨ ∃ worker, (system.workers worker).reply = some (channel, reply) := by
  cases action with
  | respond worker =>
      rw [System.step] at replied
      rcases system.respond_cases worker with same | ⟨other, answer, _, inHand, responds⟩
      · rw [same] at replied
        exact Or.inl replied
      · rw [responds] at replied
        by_cases own : channel = other
        · subst own
          rw [replyAt_self rfl replied]
          exact Or.inr ⟨worker, inHand⟩
        · left
          rw [← replied]
          exact (replyAt_of_ne own rfl).symm
  | sendEvent | sendSnapshot | queryAt | sendAdvance | enqueue | handle | commit =>
      rw [replyAt_step system (fun _ same => by cases same)] at replied
      exact Or.inl replied

/-- The messages that calls have sent are old ones and the one that the step sends. -/
theorem step_delivered (system : System router SL EL) (action : Action router SL EL)
    {call : Call router SL EL} (member : call ∈ (system.step action).1.calls)
    {entry : Fin router.workerCount × WorkerInbound SL EL} (delivered : entry ∈ call.delivered)
    : (∃ earlier ∈ system.calls, entry ∈ earlier.delivered) ∨ entry ∈ system.sends action := by
  have still (same : (system.step action).1.calls.map Call.delivered
        = system.calls.map Call.delivered)
      : ∃ earlier ∈ system.calls, entry ∈ earlier.delivered := by
    have listed := same ▸ List.mem_map_of_mem (f := Call.delivered) member
    obtain ⟨earlier, old, equal⟩ := List.mem_map.mp listed
    exact ⟨earlier, old, equal ▸ delivered⟩
  by_cases serves : action.Serves
  · cases action with
    | sendEvent | sendSnapshot | queryAt | sendAdvance => exact serves.elim
    | handle worker visits => exact Or.inl (still (by rw [System.step, calls_handle]))
    | commit worker => exact Or.inl (still (by rw [System.step, calls_commit]))
    | respond worker =>
        refine Or.inl (still ?_)
        rw [System.step]
        rcases system.respond_cases worker with same | ⟨_, _, _, _, responds⟩
        · rw [same]
        · rw [responds]
          refine map_modify ?_ system.calls _
          exact fun _ => rfl
    | enqueue index =>
        rcases system.sends_enqueue index with
          ⟨_, _, same⟩ | ⟨sender, worker, message, found, next, _, one, shape⟩
        · exact Or.inl (still same)
        · obtain ⟨position, listed⟩ := List.mem_iff_getElem?.mp member
          rw [System.step, shape] at listed
          dsimp only at listed
          by_cases own : position = index
          · subst own
            rw [List.getElem?_modify_eq, found] at listed
            obtain rfl := Option.some.inj listed
            rw [Call.delivered, List.take_add_one, next] at delivered
            rcases List.mem_append.mp delivered with old | last
            · exact Or.inl ⟨sender, List.mem_of_getElem? found, old⟩
            · exact Or.inr (one ▸ last)
          · rw [List.getElem?_modify_ne _ _ (Ne.symm own)] at listed
            exact Or.inl ⟨call, List.mem_of_getElem? listed, delivered⟩
  · obtain ⟨opened, shape, unsent, _, _⟩ := system.step_opens serves
    left
    rw [shape] at member
    rcases List.mem_append.mp member with old | added
    · exact ⟨call, old, delivered⟩
    · rw [List.mem_singleton.mp added, Call.delivered, unsent] at delivered
      exact absurd delivered List.not_mem_nil

-----------------------------------------------------------------------------------------
-- Runs
-----------------------------------------------------------------------------------------

/-- Every reply in hand or with a handle is one that a worker came to in the run. -/
theorem run_replies (actions : List (Action router SL EL))
    : let system : System router SL EL := new.run actions
      (∀ worker channel reply,
          (system.workers worker).reply = some (channel, reply)
          → Replies actions channel reply)
      ∧ ∀ channel reply, system.replyAt channel = some reply → Replies actions channel reply := by
  induction actions using List.reverseRecOn with
  | nil => exact ⟨fun _ _ _ => nofun, fun _ _ => nofun⟩
  | append_singleton past action ih =>
      intro system
      obtain ⟨inHand, replied⟩ := ih
      have steps : system = ((new.run past).step action).1 := run_concat new past action
      rw [steps]
      refine ⟨fun worker channel reply found => ?_, fun channel reply found => ?_⟩
      · rcases step_inHand _ action found with old | ⟨visits, message, taken, rfl, rest⟩
        · exact (inHand worker channel reply old).concat action
        · exact ⟨past, worker, visits, [], message, taken, rfl, rest⟩
      · rcases step_replyAt _ action found with old | ⟨worker, old⟩
        · exact (replied channel reply old).concat action
        · exact (inHand worker channel reply old).concat action

/-- A query among the messages of a run's calls is the message of a call that the run starts to ask
it.
-/
theorem run_asked (actions : List (Action router SL EL)) {channel reply : ReplyChannel}
    {worker : Fin router.workerCount} {snapshotId : SnapshotId} {time : Time}
    (listed : ((new : System router SL EL).run actions).messageAt channel
      = some (worker, .snapshotAt snapshotId time reply))
    : reply = channel
      ∧ worker = router.workerIndex snapshotId
      ∧ ∃ before after,
        actions = before ++ .queryAt time snapshotId :: after
        ∧ channel = ⟨((new : System router SL EL).run before).calls.length, 0⟩ := by
  induction actions using List.reverseRecOn with
  | nil => cases listed
  | append_singleton past action ih =>
      have later (old : ((new : System router SL EL).run past).messageAt channel
            = some (worker, .snapshotAt snapshotId time reply))
          : reply = channel
            ∧ worker = router.workerIndex snapshotId
            ∧ ∃ before after,
              past ++ [action] = before ++ .queryAt time snapshotId :: after
              ∧ channel = ⟨((new : System router SL EL).run before).calls.length, 0⟩ := by
        obtain ⟨same, own, before, after, rfl, place⟩ := ih old
        exact ⟨same, own, before, after ++ [action], by simp, place⟩
      rw [run_concat] at listed
      by_cases serves : action.Serves
      · rw [messageAt_step _ serves] at listed
        exact later listed
      · obtain ⟨call, shape, _, _, queries⟩ := step_opens (new.run past) serves
        rw [shape] at listed
        rcases (messageAt_start rfl).mp listed with old | ⟨place, found⟩
        · exact later old
        · obtain ⟨rfl, own, same, first⟩ := queries _ _ _ _ _ found
          have asked : channel = ⟨((new : System router SL EL).run past).calls.length, 0⟩ := by
            rw [← place, ← first]
          exact ⟨same.trans asked.symm, own, past, [], rfl, asked⟩

/-- No call is ever forgotten. -/
theorem calls_length_le (system : System router SL EL) (actions : List (Action router SL EL))
    : system.calls.length ≤ (system.run actions).calls.length := by
  induction actions generalizing system with
  | nil => exact Nat.le_refl _
  | cons action rest ih =>
      refine Nat.le_trans ?_ (ih (system.step action).1)
      by_cases serves : action.Serves
      · have same := congrArg List.length (skeletons_step system serves)
        rw [List.length_map, List.length_map] at same
        exact Nat.le_of_eq same.symm
      · obtain ⟨call, shape, _⟩ := system.step_opens serves
        rw [shape, List.length_append]
        exact Nat.le_add_right _ _

/-- Each call of a run starts in one place. -/
theorem start_unique {past future before after : List (Action router SL EL)}
    {first second : Action router SL EL} (starts : ¬ first.Serves) (opens : ¬ second.Serves)
    (same : past ++ first :: future = before ++ second :: after)
    (place
      : ((new : System router SL EL).run past).calls.length
        = ((new : System router SL EL).run before).calls.length)
    : past = before ∧ first = second ∧ future = after := by
  have counted (front rest : List (Action router SL EL)) {action : Action router SL EL}
      (starts : ¬ action.Serves)
      : ((new : System router SL EL).run front).calls.length
        < ((new : System router SL EL).run (front ++ action :: rest)).calls.length := by
    obtain ⟨call, shape, _⟩ := step_opens (new.run front) starts
    have joined : (new : System router SL EL).run (front ++ action :: rest)
        = ((new.run front).step action).1.run rest :=
      Transducer.final_append new front (action :: rest)
    have one : ((new.run front).step action).1.calls.length
        = ((new : System router SL EL).run front).calls.length + 1 := by
      rw [shape, List.length_append, List.length_singleton]
    rw [joined]
    exact Nat.le_trans (Nat.le_of_eq one.symm)
      (calls_length_le ((new.run front).step action).1 rest)
  rcases List.append_eq_append_iff.mp same with ⟨middle, front, back⟩ | ⟨middle, front, back⟩
  · rcases middle with _ | ⟨action, middle⟩
    · cases back
      exact ⟨by simpa using front.symm, rfl, rfl⟩
    · cases back
      exact absurd (front ▸ counted past middle starts) (Nat.not_lt.mpr (Nat.le_of_eq place.symm))
  · rcases middle with _ | ⟨action, middle⟩
    · cases back
      exact ⟨by simpa using front, rfl, rfl⟩
    · cases back
      exact absurd (front ▸ counted before middle opens) (Nat.not_lt.mpr (Nat.le_of_eq place))

/-- The calls of a run have sent what the run has added to the queues. -/
theorem run_delivered (actions : List (Action router SL EL)) {call : Call router SL EL}
    (member : call ∈ ((new : System router SL EL).run actions).calls)
    : call.delivered ⊆ sent actions := by
  induction actions using List.reverseRecOn generalizing call with
  | nil => cases member
  | append_singleton past action ih =>
      intro entry delivered
      rw [run_concat] at member
      rw [sent_concat, List.mem_append]
      rcases step_delivered _ action member delivered with ⟨earlier, old, within⟩ | own
      · exact Or.inl (ih old within)
      · exact Or.inr own

/-- A query that a worker handles now returns what the messages make of the id that the worker has
handled.
-/
theorem answerBehind_eq_answer {actions : List (Action router SL EL)} {snapshotId : SnapshotId}
    {messages : List (Fin router.workerCount × WorkerInbound SL EL)}
    (same : messagesFor (router.workerIndex snapshotId) messages
      = messagesFor (router.workerIndex snapshotId) (handled actions))
    (time : Time)
    : answerBehind snapshotId messages time
      = ((new : System router SL EL).run actions).answer time snapshotId := by
  rw [answer, held_new_run, inputsFor, answerBehind, inputsOf_eq, same, ← inputsOf_eq]
  rfl

omit [EventLanes EL SL] in
/-- Only a query has a result for its reply. -/
theorem eq_snapshotAt_of_queried {delta : Time} {historyById : HistoryById SL EL}
    {message : WorkerInbound SL EL} {taken : Handled SL EL} {channel : ReplyChannel}
    {result : QueryResult SL} (shape : handleWorker delta historyById message = some taken)
    (reply : taken.reply = (channel, .queried result))
    : ∃ snapshotId time, message = .snapshotAt snapshotId time channel := by
  cases message with
  | snapshotAt snapshotId time other =>
      refine ⟨snapshotId, time, ?_⟩
      have same : taken.reply.1 = other := by
        rw [handleWorker] at shape
        split at shape
        · obtain ⟨snapshot, _, rfl⟩ := Option.map_eq_some_iff.mp shape
          rfl
        · rw [← Option.some.inj shape]
      rw [← same, reply]
  | event | snapshot | advanceTime =>
      rw [← Option.some.inj shape] at reply
      cases reply
  | shutdown => cases shape

omit [Event EL] [Snapshot SL EL] [ApplyEvent EL SL] [EventLanes EL SL] in
/-- What a step sends is the next message of the call that takes the step. -/
theorem eq_enqueue_of_sends {action : Action router SL EL}
    {entry : Fin router.workerCount × WorkerInbound SL EL} (sends : system.sends action = [entry])
    : ∃ index position,
        action = .enqueue index ∧ system.messageAt ⟨index, position⟩ = some entry := by
  cases action with
  | sendEvent | sendSnapshot | queryAt | sendAdvance | handle | commit | respond => cases sends
  | enqueue index =>
      rcases system.sends_enqueue index with
        ⟨nothing, _⟩ | ⟨call, worker, message, found, next, _, one, _⟩
      · rw [nothing] at sends
        cases sends
      · refine ⟨index, call.sent, rfl, ?_⟩
        rw [one] at sends
        obtain rfl := List.singleton_inj.mp sends
        simp [messageAt, found, next]

/-- What a completed call asks for is sent before anything that follows. -/
theorem run_completed (past later : List (Action router SL EL)) {call : Call router SL EL}
    (member : call ∈ ((new : System router SL EL).run past).calls) (completed : call.Completed)
    : call.messages ⊆ sent (past ++ later) := by
  have whole : call.delivered = call.messages := by
    rw [Call.delivered, completed.2.1, List.take_length]
  have old := run_delivered past member
  rw [whole] at old
  rw [sent, Transducer.emitted_append]
  exact fun entry within => List.mem_append_left _ (old within)

/-- Where every call that a run starts asks for such messages only, the run sends no other. -/
theorem sent_forall {kept : Fin router.workerCount × WorkerInbound SL EL → Prop}
    {actions : List (Action router SL EL)}
    (starts : ∀ (system : System router SL EL), ∀ action ∈ actions, ¬ action.Serves
      → ∃ call,
        (system.step action).1.calls = system.calls ++ [call] ∧ ∀ entry ∈ call.messages, kept entry)
    : ∀ entry ∈ sent actions, kept entry := by
  suffices both
      : (∀ call ∈ ((new : System router SL EL).run actions).calls,
          ∀ entry ∈ call.messages, kept entry)
        ∧ ∀ entry ∈ sent actions, kept entry from both.2
  induction actions using List.reverseRecOn with
  | nil =>
      exact ⟨fun _ member => absurd member List.not_mem_nil,
        fun _ member => absurd member List.not_mem_nil⟩
  | append_singleton past action ih =>
      obtain ⟨calls, messages⟩ := ih (fun system earlier member =>
        starts system earlier (List.mem_append_left _ member))
      rw [run_concat, sent_concat]
      refine ⟨fun call member => ?_, fun entry member => ?_⟩
      · by_cases serves : action.Serves
        · have listed : skeleton call ∈ (new.run past).calls.map skeleton :=
            skeletons_step (new.run past) serves ▸ List.mem_map_of_mem member
          obtain ⟨earlier, old, same⟩ := List.mem_map.mp listed
          have equal : earlier.messages = call.messages := congrArg Prod.fst same
          exact equal ▸ calls earlier old
        · obtain ⟨opened, shape, fine⟩ := starts (new.run past) action (by simp) serves
          rw [shape] at member
          rcases List.mem_append.mp member with old | last
          · exact calls call old
          · exact List.mem_singleton.mp last ▸ fine
      · rcases List.mem_append.mp member with old | last
        · exact messages entry old
        · cases action with
          | sendEvent | sendSnapshot | queryAt | sendAdvance | handle | commit | respond =>
              exact absurd last List.not_mem_nil
          | enqueue index =>
              rcases (new.run past).sends_enqueue index with
                ⟨nothing, _⟩ | ⟨call, worker, message, found, next, _, one, _⟩
              · rw [nothing] at last
                exact absurd last List.not_mem_nil
              · rw [one] at last
                obtain rfl := List.mem_singleton.mp last
                exact calls call (List.mem_of_getElem? found) _ (List.mem_of_getElem? next)

/-- A query takes effect when its message is sent, behind the start of its call. -/
theorem run_answered {actions : List (Action router SL EL)} {index : Nat}
    {result : QueryResult SL}
    (answered : ((new : System router SL EL).run actions).replyAt ⟨index, 0⟩
      = some (.queried result))
    : ∃ before time snapshotId between after,
        actions = before ++ .queryAt time snapshotId :: (between ++ .enqueue index :: after)
        ∧ ((new : System router SL EL).run before).calls.length = index
        ∧ ((new : System router SL EL).run (before ++ .queryAt time snapshotId :: between)).sends
            (.enqueue index)
          = [(router.workerIndex snapshotId, .snapshotAt snapshotId time ⟨index, 0⟩)]
        ∧ answerBehind snapshotId (sent (before ++ .queryAt time snapshotId :: between)) time
          = some result := by
  obtain ⟨handledBefore, worker, visits, handledAfter, message, taken, rfl, running, front, shape,
    reply⟩ := (run_replies actions).2 _ _ answered
  obtain ⟨snapshotId, time, rfl⟩ := eq_snapshotAt_of_queried shape reply
  obtain ⟨inbound, queue⟩ := List.head?_eq_some_iff.mp front
  have passed := run_queue handledBefore running
  rw [queue] at passed
  obtain ⟨first, second, all, same⟩ := messagesFor_split passed
  obtain ⟨past, action, later, rfl, earlier, own⟩ :=
    Transducer.emitted_split sends_length_le all
  obtain ⟨sender, position, rfl, listed⟩ := eq_enqueue_of_sends own
  obtain ⟨place, rfl, before, between, rfl, start⟩ := run_asked past listed
  obtain ⟨rfl, rfl⟩ := ReplyChannel.mk.inj place
  have opened := (ReplyChannel.mk.inj start).1
  refine ⟨before, time, snapshotId, between,
    later ++ .handle (router.workerIndex snapshotId) visits :: handledAfter, by simp, opened.symm,
    own, ?_⟩
  rw [sent, earlier, answerBehind_eq_answer same]
  rw [handleWorker_answer] at shape
  obtain ⟨found, answer, rfl⟩ := Option.map_eq_some_iff.mp shape
  cases reply
  exact answer

/-- The answer to a query is what the messages sent before its own make of its id, one after the
other: the query takes effect when its message is sent, between its start and its answer, and so
does every message of the calls that have completed before it starts. By induction over the run, a
queue holds what was sent to its worker and not yet handled, in order.
-/
theorem query_linearizable {actions : List (Action router SL EL)} {index : Nat}
    {result : QueryResult SL}
    (answered : ((new : System router SL EL).run actions).replyAt ⟨index, 0⟩
      = some (.queried result))
    : ∃ before time snapshotId between after,
        actions = before ++ .queryAt time snapshotId :: (between ++ .enqueue index :: after)
        ∧ ((new : System router SL EL).run before).calls.length = index
        ∧ ((new : System router SL EL).run (before ++ .queryAt time snapshotId :: between)).sends
            (.enqueue index)
          = [(router.workerIndex snapshotId, .snapshotAt snapshotId time ⟨index, 0⟩)]
        ∧ answerBehind snapshotId (sent (before ++ .queryAt time snapshotId :: between)) time
          = some result
        ∧ ∀ call ∈ ((new : System router SL EL).run before).calls,
          call.Completed
          → call.messages ⊆ sent (before ++ .queryAt time snapshotId :: between) := by
  obtain ⟨before, time, snapshotId, between, after, same, opened, own, answer⟩ :=
    run_answered answered
  exact ⟨before, time, snapshotId, between, after, same, opened, own, answer,
    fun call member completed =>
      run_completed before (.queryAt time snapshotId :: between) member completed⟩

/-- An event that overtakes the query counts, one that is sent behind it does not, though both are
sent before a worker takes any message.
-/
theorem query_linearizable_between_events
    : let router : Router := ⟨1, by decide, fun _ => 0, 1000, 60⟩
      let actions : List (Action router TestSnapshot TestEvent) :=
        [.queryAt 9 1, .sendEvent (.positive 1 5 10 1), .enqueue 1, .enqueue 0,
          .sendEvent (.positive 1 6 11 2), .enqueue 2, .handle 0, .commit 0, .commit 0, .respond 0,
          .handle 0, .respond 0]
      ∃ before time snapshotId between after,
        actions = before ++ .queryAt time snapshotId :: (between ++ .enqueue 0 :: after)
        ∧ answerBehind snapshotId (sent (before ++ .queryAt time snapshotId :: between)) time
          = some (.found ⟨1, 9, [1], 1⟩) := by
  intro router actions
  have answered : ((new : System router TestSnapshot TestEvent).run actions).replyAt ⟨0, 0⟩
      = some (.queried (.found ⟨1, 9, [1], 1⟩)) := by decide
  obtain ⟨before, time, snapshotId, between, after, same, _, _, answer, _⟩ :=
    query_linearizable answered
  exact ⟨before, time, snapshotId, between, after, same, answer⟩

end System

end Contime
