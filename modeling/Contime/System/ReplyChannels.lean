import Contime.System.Linearization

/-! The senders of the reply channels. A channel's sender goes with its message from the call to the
queue of one worker and on to the reply, so that every channel gets at most one reply, and the
replies of a worker come in the order in which the messages were sent to it.
-/

namespace Contime

universe u v
variable {SL : Type u} {EL : Type v} {router : Router}

/-- The channel that a message is answered on. -/
def WorkerInbound.reply : WorkerInbound SL EL → Option ReplyChannel
  | .event _ _ _ reply | .snapshot _ reply | .snapshotAt _ _ reply | .advanceTime _ reply =>
      some reply
  | .shutdown => none

/-- The channels whose senders a worker has, in the order of its replies. -/
def WorkerState.channels (state : WorkerState SL EL) : List ReplyChannel :=
  (state.reply.map Prod.fst).toList ++ state.inbound.filterMap WorkerInbound.reply

/-- A worker answers a message on its channel. -/
theorem reply_handleWorker [Event EL] [Snapshot SL EL] [ApplyEvent EL SL] {delta : Time}
    {historyById : HistoryById SL EL} {message : WorkerInbound SL EL} {visits : List SnapshotId}
    {handled : Handled SL EL} (shape : handleWorker delta historyById message visits = some handled)
    : message.reply = some handled.reply.1 := by
  cases message with
  | shutdown => cases shape
  | snapshotAt snapshotId time channel =>
      rw [handleWorker] at shape
      split at shape
      · obtain ⟨snapshot, _, rfl⟩ := Option.map_eq_some_iff.mp shape
        rfl
      · rw [← Option.some.inj shape]
        rfl
  | event | snapshot | advanceTime =>
      rw [← Option.some.inj shape]
      rfl

namespace System
variable {system : System router SL EL} {worker : Fin router.workerCount}

/-- Calls whose messages are answered on their own channels, one for each message. -/
def Addressed (calls : List (Call router SL EL)) : Prop :=
  ∀ (index : Nat) (call : Call router SL EL), calls[index]? = some call
  → call.replies.length = call.messages.length
    ∧ ∀ (position : Nat) (target : Fin router.workerCount) (message : WorkerInbound SL EL),
      call.messages[position]? = some (target, message)
      → message.reply = some ⟨index, position⟩

/-- The channel belongs to a message that its call has sent to the worker. -/
def SentTo (system : System router SL EL) (worker : Fin router.workerCount)
    (channel : ReplyChannel)
    : Prop :=
  ∃ call message,
    system.calls[channel.call]? = some call
    ∧ call.messages[channel.position]? = some (worker, message)
    ∧ channel.position < call.sent

/-- Every worker has the senders of messages that were sent to it, each once, and no reply was sent
on them. Replies are there only for messages that were sent.
-/
structure Carried (system : System router SL EL) : Prop where
  addressed : Addressed system.calls
  sent : ∀ worker, ∀ channel ∈ (system.workers worker).channels, system.SentTo worker channel
  distinct : ∀ worker, (system.workers worker).channels.Nodup
  pending
    : ∀ worker, ∀ channel ∈ (system.workers worker).channels, system.replyAt channel = none
  replied
    : ∀ channel call, system.calls[channel.call]? = some call → system.replyAt channel ≠ none
      → channel.position < call.sent

theorem carried_new : (new : System router SL EL).Carried :=
  ⟨fun _ _ => nofun, fun _ _ => nofun, fun _ => .nil, fun _ _ _ => rfl, fun _ _ => nofun⟩

/-- The sender of a channel is with the worker that its message goes to. -/
theorem SentTo.unique {other : Fin router.workerCount} {channel : ReplyChannel}
    (first : system.SentTo worker channel) (second : system.SentTo other channel)
    : worker = other := by
  obtain ⟨call, message, found, listed, _⟩ := first
  obtain ⟨same, also, again, other, _⟩ := second
  rw [found] at again
  obtain rfl := Option.some.inj again
  rw [listed] at other
  exact (Prod.mk.inj (Option.some.inj other)).1

/-- What of a call its replies leave alone. -/
def outline (call : Call router SL EL)
    : List (Fin router.workerCount × WorkerInbound SL EL) × Nat × Nat :=
  (call.messages, call.sent, call.replies.length)

theorem outline_eq {before after : List (Call router SL EL)}
    (same : after.map outline = before.map outline) {index : Nat} {call : Call router SL EL}
    (found : after[index]? = some call)
    : ∃ earlier,
        before[index]? = some earlier
        ∧ earlier.messages = call.messages
        ∧ earlier.sent = call.sent
        ∧ earlier.replies.length = call.replies.length := by
  have listed := congrArg (·[index]?) same
  simp only [List.getElem?_map, found, Option.map_some] at listed
  obtain ⟨earlier, at', equal⟩ := Option.map_eq_some_iff.mp listed.symm
  obtain ⟨messages, rest⟩ := Prod.mk.inj equal
  obtain ⟨sent, replies⟩ := Prod.mk.inj rest
  exact ⟨earlier, at', messages, sent, replies⟩

/-- Steps that keep the outlines of all calls keep what is sent. -/
theorem SentTo.of_outline {after : System router SL EL} {channel : ReplyChannel}
    (before : system.SentTo worker channel)
    (calls : after.calls.map outline = system.calls.map outline)
    : after.SentTo worker channel := by
  obtain ⟨call, message, found, listed, sent⟩ := before
  obtain ⟨later, place, messages, same, _⟩ := outline_eq calls.symm found
  exact ⟨later, message, place, messages ▸ listed, same ▸ sent⟩

/-- A new call keeps what is sent. -/
theorem SentTo.start {channel : ReplyChannel} (before : system.SentTo worker channel)
    (call : Call router SL EL)
    : SentTo { system with calls := system.calls ++ [call] } worker channel := by
  obtain ⟨sender, message, found, rest⟩ := before
  have inside : channel.call < system.calls.length := (List.getElem?_eq_some_iff.mp found).1
  exact ⟨sender, message, (List.getElem?_append_left inside).trans found, rest⟩

/-- A call that sends its next message keeps what is sent. -/
theorem SentTo.enqueue {channel : ReplyChannel} (before : system.SentTo worker channel)
    (index : Nat)
    : (system.enqueue index).1.SentTo worker channel := by
  rcases system.enqueue_cases index with
    same | ⟨call, _, _, found, _, _, ⟨_, fails⟩ | ⟨_, _, sends⟩⟩
  · rwa [same]
  · rw [fails]
    refine before.of_outline (map_modify ?_ system.calls index)
    exact fun _ => rfl
  · obtain ⟨sender, message, place, listed, inside⟩ := before
    rw [sends]
    by_cases own : index = channel.call
    · subst own
      rw [found] at place
      obtain rfl := Option.some.inj place
      refine ⟨{ call with sent := call.sent + 1 }, message, ?_, listed, Nat.lt_succ_of_lt inside⟩
      dsimp only
      rw [List.getElem?_modify_eq, found]
      rfl
    · exact ⟨sender, message, (List.getElem?_modify_ne _ _ own).trans place, listed, inside⟩

/-- A reply keeps what is sent. -/
theorem SentTo.respond {channel : ReplyChannel} (before : system.SentTo worker channel)
    (other : Fin router.workerCount)
    : (system.respond other).1.SentTo worker channel := by
  refine before.of_outline ?_
  rcases system.respond_cases other with same | ⟨_, _, _, _, responds⟩
  · rw [same]
  · rw [responds]
    exact map_modify (fun call => by simp [outline]) system.calls _

/-- A step in which the workers take on no sender: they reply with some, and lose others. -/
structure Releases (system after : System router SL EL) : Prop where
  calls : after.calls.map outline = system.calls.map outline
  channels
    : ∀ worker, (after.workers worker).channels.Sublist (system.workers worker).channels
  answered
    : ∀ channel reply, system.replyAt channel = some reply → after.replyAt channel = some reply
  replied
    : ∀ channel, after.replyAt channel ≠ none
      → system.replyAt channel ≠ none
        ∨ ∃ worker,
            channel ∈ (system.workers worker).channels
            ∧ channel ∉ (after.workers worker).channels

theorem Releases.refl (system : System router SL EL) : system.Releases system :=
  ⟨rfl, fun _ => .refl _, fun _ _ => id, fun _ => Or.inl⟩

/-- Steps that take on no sender keep the senders carried. -/
theorem Releases.carried {after : System router SL EL} (releases : system.Releases after)
    (carried : system.Carried)
    : after.Carried := by
  refine ⟨?_, ?_, ?_, ?_, ?_⟩
  · intro index call found
    obtain ⟨earlier, place, messages, _, length⟩ := outline_eq releases.calls found
    rw [← messages, ← length]
    exact carried.addressed index earlier place
  · intro worker channel member
    have before := (releases.channels worker).subset member
    exact (carried.sent worker channel before).of_outline releases.calls
  · exact fun worker => (carried.distinct worker).sublist (releases.channels worker)
  · intro worker channel member
    have before := (releases.channels worker).subset member
    by_contra some
    rcases releases.replied channel some with old | ⟨other, owned, gone⟩
    · exact old (carried.pending worker channel before)
    · obtain rfl := (carried.sent worker channel before).unique (carried.sent other channel owned)
      exact gone member
  · intro channel call found some
    obtain ⟨earlier, place, _, sent, _⟩ := outline_eq releases.calls found
    rw [← sent]
    rcases releases.replied channel some with old | ⟨worker, owned, _⟩
    · exact carried.replied channel earlier place old
    · obtain ⟨same, _, again, _, inside⟩ := carried.sent worker channel owned
      rw [place] at again
      obtain rfl := Option.some.inj again
      exact inside

/-- A step of one worker that changes no call and takes on no sender. -/
theorem releases_of_worker {after : System router SL EL} {state : WorkerState SL EL}
    (calls : after.calls = system.calls)
    (workers : after.workers = Function.update system.workers worker state)
    (channels : state.channels.Sublist (system.workers worker).channels)
    : system.Releases after := by
  refine ⟨congrArg _ calls, fun other => ?_, fun channel reply there => ?_,
    fun channel some => Or.inl ?_⟩
  · by_cases own : other = worker
    · subst own
      rwa [workers, Function.update_self]
    · rw [workers, Function.update_of_ne own]
  · rwa [replyAt, calls]
  · rwa [replyAt, calls] at some

theorem releases_commit (system : System router SL EL) (worker : Fin router.workerCount)
    : system.Releases (system.commit worker).1 := by
  rcases system.commit_cases worker with same | ⟨_, _, _, commits⟩
  · rw [same]
    exact .refl system
  · rw [commits]
    exact releases_of_worker rfl rfl (.refl (system.workers worker).channels)

/-- A worker has no sender of a channel with a reply, so that its own reply goes elsewhere. -/
theorem Carried.replyAt_respond_of_some (carried : system.Carried) (worker : Fin router.workerCount)
    {channel : ReplyChannel} {reply : Reply SL} (replied : system.replyAt channel = some reply)
    : (system.respond worker).1.replyAt channel = some reply := by
  rcases system.respond_cases worker with same | ⟨other, answer, _, inHand, responds⟩
  · rwa [same]
  · have differ : channel ≠ other := by
      intro own
      subst own
      have pending := carried.pending worker channel (by simp [WorkerState.channels, inHand])
      rw [replied] at pending
      cases pending
    rw [responds]
    rwa [replyAt_of_ne differ rfl]

/-- A reply goes out on the first channel of its worker. -/
theorem Carried.releases_respond (carried : system.Carried) (worker : Fin router.workerCount)
    : system.Releases (system.respond worker).1 := by
  have answered (channel : ReplyChannel) (reply : Reply SL)
      (there : system.replyAt channel = some reply)
      : (system.respond worker).1.replyAt channel = some reply :=
    carried.replyAt_respond_of_some worker there
  rcases system.respond_cases worker with same | ⟨channel, reply, _, inHand, responds⟩
  · rw [same]
    exact .refl system
  · have before : (system.workers worker).channels
        = channel :: (system.workers worker).inbound.filterMap WorkerInbound.reply := by
      rw [WorkerState.channels, inHand]
      rfl
    have once := before ▸ carried.distinct worker
    rw [responds] at answered ⊢
    refine ⟨map_modify ?_ system.calls channel.call, fun other => ?_, answered, ?_⟩
    · intro call
      simp [outline]
    · by_cases own : other = worker
      · subst own
        rw [before]
        simp [WorkerState.channels]
      · simp [setWorker_of_ne own]
    · intro other some
      by_cases own : other = channel
      · subst own
        refine Or.inr ⟨worker, by simp [before], ?_⟩
        simpa [WorkerState.channels] using (List.nodup_cons.mp once).1
      · left
        rwa [replyAt_of_ne own rfl] at some

/-- The calls behind a new one are the old ones. -/
theorem getElem?_start {calls : List (Call router SL EL)} {call other : Call router SL EL}
    {index : Nat} (found : (calls ++ [call])[index]? = some other)
    : calls[index]? = some other ∨ (index = calls.length ∧ other = call) := by
  by_cases old : index < calls.length
  · rw [List.getElem?_append_left old] at found
    exact Or.inl found
  · rw [List.getElem?_append_right (Nat.le_of_not_lt old), List.getElem?_singleton] at found
    split at found
    next first =>
      refine Or.inr ⟨by omega, (Option.some.inj found).symm⟩
    next => cases found

/-- A new call has sent nothing yet. -/
theorem Carried.start (carried : system.Carried) {call : Call router SL EL}
    (unanswered : ∀ reply ∈ call.replies, reply = none)
    (addressed : Addressed (system.calls ++ [call]))
    : Carried { system with calls := system.calls ++ [call] } := by
  refine ⟨addressed, ?_, carried.distinct, ?_, ?_⟩
  · intro worker channel member
    exact (carried.sent worker channel member).start call
  · intro worker channel member
    rw [replyAt_start rfl unanswered]
    exact carried.pending worker channel member
  · intro channel other found some
    rw [replyAt_start rfl unanswered] at some
    rcases getElem?_start found with old | ⟨last, _⟩
    · exact carried.replied channel other old some
    · refine absurd ?_ some
      rw [replyAt, last, List.getElem?_eq_none (Nat.le_refl _)]
      rfl

/-- A call that sends its next message passes on the sender of the message's channel. -/
theorem Carried.enqueue (carried : system.Carried) (index : Nat)
    : (system.enqueue index).1.Carried := by
  rcases system.enqueue_cases index with
    same | ⟨call, worker, message, found, _, next, ⟨_, fails⟩ | ⟨_, _, sends⟩⟩
  · rwa [same]
  · have replies (channel : ReplyChannel)
        : (system.enqueue index).1.replyAt channel = system.replyAt channel := by
      rw [fails]
      refine replyAt_congr (map_modify ?_ system.calls index) channel
      exact fun _ => rfl
    rw [fails] at replies ⊢
    refine Releases.carried ⟨map_modify ?_ system.calls index, fun other => .refl _, ?_, ?_⟩ carried
    · exact fun _ => rfl
    · intro channel reply there
      rwa [replies]
    · intro channel answered
      rw [replies] at answered
      exact Or.inl answered
  · have replies (channel : ReplyChannel)
        : (system.enqueue index).1.replyAt channel = system.replyAt channel := by
      rw [sends]
      refine replyAt_congr (map_modify ?_ system.calls index) channel
      exact fun _ => rfl
    have passed : message.reply = some ⟨index, call.sent⟩ :=
      (carried.addressed index call found).2 call.sent worker message next
    have own
        : (system.enqueue index).1.calls[index]? = some { call with sent := call.sent + 1 } := by
      rw [sends]
      dsimp only
      rw [List.getElem?_modify_eq, found]
      rfl
    have others {place : Nat} (differ : place ≠ index)
        : (system.enqueue index).1.calls[place]? = system.calls[place]? := by
      rw [sends]
      exact List.getElem?_modify_ne _ _ (Ne.symm differ)
    have fresh : ⟨index, call.sent⟩ ∉ (system.workers worker).channels := by
      intro member
      obtain ⟨_, _, again, _, inside⟩ := carried.sent worker _ member
      rw [found] at again
      obtain rfl := Option.some.inj again
      exact Nat.lt_irrefl _ inside
    have channels (other : Fin router.workerCount)
        : ((system.enqueue index).1.workers other).channels
          = (system.workers other).channels
            ++ (if other = worker then [⟨index, call.sent⟩] else []) := by
      rw [sends]
      dsimp only
      by_cases same : other = worker
      · subst same
        simp [WorkerState.channels, passed]
      · simp [setWorker_of_ne same, same]
    refine ⟨?_, ?_, ?_, ?_, ?_⟩
    · intro place other at'
      by_cases same : place = index
      · subst same
        rw [own] at at'
        obtain rfl := Option.some.inj at'
        exact carried.addressed place call found
      · rw [others same] at at'
        exact carried.addressed place other at'
    · intro other channel member
      rw [channels, List.mem_append] at member
      rcases member with old | new
      · exact (carried.sent other channel old).enqueue index
      · split at new
        next same =>
          obtain rfl := List.mem_singleton.mp new
          exact ⟨_, message, own, same ▸ next, Nat.lt_succ_self _⟩
        next => cases new
    · intro other
      rw [channels]
      split
      next same =>
        subst same
        exact (carried.distinct other).append (List.nodup_singleton _) (by simpa using fresh)
      next => simpa using carried.distinct other
    · intro other channel member
      rw [replies]
      rw [channels, List.mem_append] at member
      rcases member with old | new
      · exact carried.pending other channel old
      · split at new
        next same =>
          obtain rfl := List.mem_singleton.mp new
          by_contra answered
          exact Nat.lt_irrefl _ (carried.replied _ call found answered)
        next => cases new
    · intro channel other at' answered
      rw [replies] at answered
      by_cases same : channel.call = index
      · rw [same, own] at at'
        obtain rfl := Option.some.inj at'
        have before := carried.replied channel call (same ▸ found) answered
        exact Nat.lt_succ_of_lt before
      · rw [others same] at at'
        exact carried.replied channel other at' answered

variable [Event EL] [Snapshot SL EL] [ApplyEvent EL SL]

/-- A message that is taken keeps its sender until its reply, or loses all senders of the worker. -/
theorem releases_handle (system : System router SL EL) (worker : Fin router.workerCount)
    (visits : List SnapshotId)
    : system.Releases (system.handle worker visits).1 := by
  rcases system.handle_cases worker visits with
    same | ⟨message, inbound, _, _, replied, queue, ⟨_, stops⟩ | ⟨taken, shape, takes⟩⟩
  · rw [same]
    exact .refl system
  · rw [stops]
    refine releases_of_worker rfl rfl ?_
    simp [WorkerState.channels, replied]
  · rw [takes]
    refine releases_of_worker rfl rfl ?_
    simp [WorkerState.channels, replied, queue, reply_handleWorker shape]

variable [EventLanes EL SL]

/-- A step that starts a call only adds it. Nothing has answered it, and its messages are answered
on its own channels.
-/
theorem step_addresses (system : System router SL EL) {action : Action router SL EL}
    (starts : ¬action.Serves)
    : ∃ call,
        (system.step action).1 = { system with calls := system.calls ++ [call] }
        ∧ (∀ reply ∈ call.replies, reply = none)
        ∧ call.replies.length = call.messages.length
        ∧ ∀ position target message, call.messages[position]? = some (target, message)
          → WorkerInbound.reply message = some ⟨system.calls.length, position⟩ := by
  have opened (messages : List (Fin router.workerCount × WorkerInbound SL EL))
      : (∀ reply ∈ (Call.open messages).replies, reply = none)
        ∧ (Call.open messages).replies.length = messages.length :=
    ⟨fun _ member => (List.mem_map.mp member).choose_spec.2.symm, List.length_map _⟩
  have accepted (size : UInt64) {messages : List (Fin router.workerCount × WorkerInbound SL EL)}
      (own
        : ∀ position target message, messages[position]? = some (target, message)
          → WorkerInbound.reply message = some ⟨system.calls.length, position⟩)
      : ∃ call,
          (system.accept size (.open messages)).1
            = { system with calls := system.calls ++ [call] }
          ∧ (∀ reply ∈ call.replies, reply = none)
          ∧ call.replies.length = call.messages.length
          ∧ ∀ position target message, call.messages[position]? = some (target, message)
            → WorkerInbound.reply message = some ⟨system.calls.length, position⟩ := by
    obtain ⟨call, shape, turned⟩ := system.accept_calls size (.open messages)
    refine ⟨call, shape, ?_⟩
    rcases turned with rfl | rfl
    · exact ⟨fun _ => nofun, rfl, fun _ _ _ => nofun⟩
    · exact ⟨(opened messages).1, (opened messages).2, own⟩
  cases action with
  | sendEvent lane =>
      refine accepted _ (fun position target message found => ?_)
      rw [eventMessages, List.getElem?_mapIdx, Option.map_eq_some_iff] at found
      obtain ⟨snapshot, _, equal⟩ := found
      cases equal
      rfl
  | sendSnapshot lane =>
      refine accepted _ (fun position target message found => ?_)
      rw [List.getElem?_singleton] at found
      split at found
      next first =>
        cases found
        rw [first]
        rfl
      next => cases found
  | queryAt time snapshotId =>
      refine ⟨_, rfl, (opened _).1, (opened _).2, fun position target message found => ?_⟩
      rw [Call.open, List.getElem?_singleton] at found
      split at found
      next first =>
        cases found
        rw [first]
        rfl
      next => cases found
  | sendAdvance time =>
      refine ⟨_, rfl, (opened _).1, (opened _).2, fun position target message found => ?_⟩
      rw [Call.open, List.getElem?_map, Option.map_eq_some_iff] at found
      obtain ⟨worker, place, equal⟩ := found
      cases equal
      obtain ⟨inside, rfl⟩ := List.getElem?_eq_some_iff.mp place
      simp [WorkerInbound.reply]
  | enqueue | handle | commit | respond => exact (starts trivial).elim

/-- Every step keeps the senders carried. -/
theorem Carried.step (carried : system.Carried) (action : Action router SL EL)
    : (system.step action).1.Carried := by
  by_cases serves : action.Serves
  · cases action with
    | sendEvent | sendSnapshot | queryAt | sendAdvance => exact serves.elim
    | enqueue index => exact carried.enqueue index
    | handle worker visits => exact (system.releases_handle worker visits).carried carried
    | commit worker => exact (system.releases_commit worker).carried carried
    | respond worker => exact (carried.releases_respond worker).carried carried
  · obtain ⟨call, shape, unanswered, length, own⟩ := step_addresses system serves
    rw [shape]
    refine carried.start unanswered (fun index other found => ?_)
    rcases getElem?_start found with old | ⟨rfl, rfl⟩
    · exact carried.addressed index other old
    · exact ⟨length, own⟩

/-- In every run the senders are carried. -/
theorem run_carried (actions : List (Action router SL EL))
    : ((new : System router SL EL).run actions).Carried :=
  Transducer.final_invariant (fun _ action before => before.step action) carried_new actions

-----------------------------------------------------------------------------------------
-- The order of replies
-----------------------------------------------------------------------------------------

/-- The channels of the messages to a worker, in order. -/
def channelsOf (worker : Fin router.workerCount)
    (messages : List (Fin router.workerCount × WorkerInbound SL EL))
    : List ReplyChannel :=
  (messagesFor worker messages).filterMap WorkerInbound.reply

theorem SentTo.step {channel : ReplyChannel} (before : system.SentTo worker channel)
    (action : Action router SL EL)
    : (system.step action).1.SentTo worker channel := by
  by_cases serves : action.Serves
  · cases action with
    | sendEvent | sendSnapshot | queryAt | sendAdvance => exact serves.elim
    | enqueue index => exact before.enqueue index
    | handle other visits =>
        refine before.of_outline ?_
        rw [System.step, calls_handle]
    | commit other =>
        refine before.of_outline ?_
        rw [System.step, calls_commit]
    | respond other => exact before.respond other
  · obtain ⟨call, shape, _⟩ := step_addresses system serves
    rw [shape]
    exact before.start call

omit [Event EL] [Snapshot SL EL] [ApplyEvent EL SL] [EventLanes EL SL] in
/-- A worker that responds leaves the reply on the channel of a message that was sent to it. -/
theorem replyAt_respond {channel : ReplyChannel} {reply : Reply SL}
    (addressed : Addressed system.calls) (sentTo : system.SentTo worker channel)
    (committed : (system.workers worker).deltas = [])
    (inHand : (system.workers worker).reply = some (channel, reply))
    : (system.respond worker).1.replyAt channel = some reply := by
  obtain ⟨call, message, found, listed, _⟩ := sentTo
  have inside : channel.position < call.replies.length := by
    rw [(addressed channel.call call found).1]
    exact (List.getElem?_eq_some_iff.mp listed).1
  rw [respond_eq committed inHand, replyAt]
  dsimp only
  rw [List.getElem?_modify_eq, found]
  simp [inside]

/-- A reply that is there stays. -/
theorem Carried.replyAt_step (carried : system.Carried) (action : Action router SL EL)
    {channel : ReplyChannel} {reply : Reply SL} (replied : system.replyAt channel = some reply)
    : (system.step action).1.replyAt channel = some reply := by
  cases action with
  | respond worker => exact carried.replyAt_respond_of_some worker replied
  | sendEvent | sendSnapshot | queryAt | sendAdvance | enqueue | handle | commit =>
      rwa [System.replyAt_step system (fun _ same => by cases same)]

/-- The senders that a worker has after a step: the old ones and that of a message that is sent to
it, or none when it ends, or all but the one that it replies with.
-/
theorem Carried.channels_step (carried : system.Carried) (action : Action router SL EL)
    (worker : Fin router.workerCount)
    : (((system.step action).1.workers worker).channels
          = (system.workers worker).channels ++ channelsOf worker (system.sends action)
        ∧ ((system.step action).1.workers worker).stopped = (system.workers worker).stopped
        ∧ (channelsOf worker (system.sends action) = []
          ∨ (system.workers worker).stopped = false))
      ∨ (((system.step action).1.workers worker).channels = []
        ∧ channelsOf worker (system.sends action) = []
        ∧ (system.workers worker).stopped = false
        ∧ ((system.step action).1.workers worker).stopped = true
        ∧ ∀ channel, (system.step action).1.replyAt channel = system.replyAt channel)
      ∨ ∃ channel,
          (system.workers worker).channels
            = channel :: ((system.step action).1.workers worker).channels
          ∧ channelsOf worker (system.sends action) = []
          ∧ ((system.step action).1.workers worker).stopped = (system.workers worker).stopped
          ∧ (system.step action).1.replyAt channel ≠ none := by
  have still (channels : ((system.step action).1.workers worker).channels
        = (system.workers worker).channels)
      (stopped : ((system.step action).1.workers worker).stopped
        = (system.workers worker).stopped)
      (nothing : channelsOf worker (system.sends action) = [])
      : ((system.step action).1.workers worker).channels
          = (system.workers worker).channels ++ channelsOf worker (system.sends action)
        ∧ ((system.step action).1.workers worker).stopped = (system.workers worker).stopped
        ∧ (channelsOf worker (system.sends action) = []
          ∨ (system.workers worker).stopped = false) :=
    ⟨by rw [nothing, List.append_nil, channels], stopped, Or.inl nothing⟩
  have frame (same : (system.step action).1.workers worker = system.workers worker) :=
    still (congrArg WorkerState.channels same) (congrArg WorkerState.stopped same)
  cases action with
  | sendEvent | sendSnapshot | queryAt | sendAdvance => exact Or.inl (frame rfl rfl)
  | commit other =>
      left
      by_cases own : worker = other
      · subst own
        rw [System.step] at still ⊢
        rcases system.commit_cases worker with same | ⟨_, _, _, commits⟩
        · exact still (by rw [same]) (by rw [same]) rfl
        · refine still ?_ ?_ rfl
          · simp [commits, WorkerState.channels]
          · simp [commits]
      · exact frame (workers_commit_of_ne own) rfl
  | enqueue index =>
      left
      rw [System.step] at frame ⊢
      rcases system.sends_enqueue index with
        ⟨nothing, same, _⟩ | ⟨_, target, message, _, _, running, one, shape⟩
      · exact frame (by rw [same]) (by rw [nothing]; rfl)
      · by_cases own : worker = target
        · subst own
          refine ⟨?_, by simp [shape], Or.inr running⟩
          simp [shape, one, channelsOf, messagesFor, WorkerState.channels]
        · refine frame ?_ ?_
          · rw [shape]
            exact setWorker_of_ne own ..
          · simp [one, channelsOf, messagesFor, Ne.symm own]
  | respond other =>
      by_cases own : worker = other
      · subst own
        rw [System.step] at frame ⊢
        rcases system.respond_cases worker with same | ⟨channel, reply, committed, inHand, responds⟩
        · exact Or.inl (frame (by rw [same]) rfl)
        · have mine : channel ∈ (system.workers worker).channels := by
            simp [WorkerState.channels, inHand]
          have answered := replyAt_respond carried.addressed (carried.sent worker channel mine)
            committed inHand
          refine Or.inr (Or.inr ⟨channel, ?_, rfl, by simp [responds], by simp [answered]⟩)
          simp [responds, WorkerState.channels, inHand]
      · exact Or.inl (frame (workers_respond_of_ne own) rfl)
  | handle other visits =>
      by_cases own : worker = other
      · subst own
        rw [System.step] at still frame ⊢
        rcases system.handle_cases worker visits with
          same | ⟨message, inbound, running, _, replied, queue,
            ⟨_, stops⟩ | ⟨taken, shape, takes⟩⟩
        · exact Or.inl (frame (by rw [same]) rfl)
        · refine Or.inr (Or.inl ⟨?_, rfl, running, by simp [stops], fun channel => ?_⟩)
          · simp [stops, WorkerState.channels, replied]
          · rw [replyAt, calls_handle, replyAt]
        · refine Or.inl (still ?_ ?_ rfl)
          · simp [takes, WorkerState.channels, replied, queue, reply_handleWorker shape]
          · simp [takes, running]
      · exact Or.inl (frame (workers_handle_of_ne own visits) rfl)

/-- What was sent to a worker is, in order, what it has answered, what it has in hand or in its
queue, and what it has lost when it ended. Exactly what it has answered has a reply.
-/
structure InOrder (system : System router SL EL) (worker : Fin router.workerCount)
    (posted answered lost : List ReplyChannel)
    : Prop where
  split : posted = answered ++ (system.workers worker).channels ++ lost
  sent : ∀ channel ∈ posted, system.SentTo worker channel
  once : posted.Nodup
  running : (system.workers worker).stopped = false → lost = []
  replied : ∀ channel ∈ answered, system.replyAt channel ≠ none
  waiting : ∀ channel ∈ (system.workers worker).channels, system.replyAt channel = none
  unanswered : ∀ channel ∈ lost, system.replyAt channel = none

/-- What a worker has answered stays answered. -/
theorem InOrder.replied_step {posted answered lost : List ReplyChannel}
    (inOrder : system.InOrder worker posted answered lost) (carried : system.Carried)
    (action : Action router SL EL)
    : ∀ channel ∈ answered, (system.step action).1.replyAt channel ≠ none := by
  intro channel member
  obtain ⟨reply, found⟩ := Option.ne_none_iff_exists'.mp (inOrder.replied channel member)
  rw [carried.replyAt_step action found]
  exact Option.some_ne_none reply

/-- What a worker has lost is never answered, as only the worker that has a channel replies on it
and no worker has two of the same.
-/
theorem InOrder.unanswered_step {posted answered lost : List ReplyChannel}
    (inOrder : system.InOrder worker posted answered lost) (carried : system.Carried)
    (action : Action router SL EL)
    : ∀ channel ∈ lost, (system.step action).1.replyAt channel = none := by
  intro channel member
  by_contra answer
  obtain ⟨reply, found⟩ := Option.ne_none_iff_exists'.mp answer
  rcases step_replyAt system action found with old | ⟨other, inHand⟩
  · rw [inOrder.unanswered channel member] at old
    cases old
  · have owned : channel ∈ (system.workers other).channels := by
      simp [WorkerState.channels, inHand]
    have posted : channel ∈ posted := by
      rw [inOrder.split]
      exact List.mem_append_right _ member
    obtain rfl := (carried.sent other channel owned).unique (inOrder.sent channel posted)
    have once := inOrder.once
    rw [inOrder.split] at once
    exact (List.nodup_append.mp once).2.2 channel (List.mem_append_right _ owned) channel member
      rfl

/-- Every step keeps what was sent to a worker in order: it adds to the queue, or loses it, or moves
its first channel to the answered ones.
-/
theorem InOrder.step {posted answered lost : List ReplyChannel}
    (inOrder : system.InOrder worker posted answered lost) (carried : system.Carried)
    (action : Action router SL EL)
    : ∃ answered lost,
        (system.step action).1.InOrder worker
          (posted ++ channelsOf worker (system.sends action)) answered lost := by
  have after := carried.step action
  have sent (channel : ReplyChannel) (member : channel ∈ posted)
      : (system.step action).1.SentTo worker channel := (inOrder.sent channel member).step action
  have replied := inOrder.replied_step carried action
  have unanswered := inOrder.unanswered_step carried action
  rcases carried.channels_step action worker with
    ⟨channels, stopped, quiet⟩ | ⟨channels, nothing, running, ends, still⟩
      | ⟨channel, channels, nothing, stopped, answer⟩
  · refine ⟨answered, lost, ?_, ?_, ?_, fun going => ?_, replied, after.pending worker, unanswered⟩
    · rw [channels, inOrder.split]
      rcases quiet with nothing | running
      · simp [nothing]
      · simp [inOrder.running running]
    · intro channel member
      rcases List.mem_append.mp member with old | new
      · exact sent channel old
      · exact after.sent worker channel (channels ▸ List.mem_append_right _ new)
    · rcases quiet with nothing | running
      · rw [nothing, List.append_nil]
        exact inOrder.once
      · have distinct := after.distinct worker
        rw [channels] at distinct
        refine inOrder.once.append (List.nodup_append.mp distinct).2.1 ?_
        intro channel old new
        rw [inOrder.split, inOrder.running running, List.append_nil] at old
        rcases List.mem_append.mp old with first | later
        · refine replied channel first (after.pending worker channel ?_)
          exact channels ▸ List.mem_append_right _ new
        · exact (List.nodup_append.mp distinct).2.2 channel later channel new rfl
    · exact inOrder.running (stopped ▸ going)
  · rw [nothing, List.append_nil]
    refine ⟨answered, (system.workers worker).channels ++ lost, ?_, sent, inOrder.once, ?_, replied,
      after.pending worker, ?_⟩
    · rw [channels, List.append_nil, ← List.append_assoc]
      exact inOrder.split
    · intro going
      rw [ends] at going
      cases going
    · intro channel member
      rcases List.mem_append.mp member with had | gone
      · rw [still]
        exact carried.pending worker channel had
      · exact unanswered channel gone
  · rw [nothing, List.append_nil]
    refine ⟨answered ++ [channel], lost, ?_, sent, inOrder.once, ?_, ?_, after.pending worker,
      unanswered⟩
    · rw [inOrder.split, channels]
      simp
    · exact fun going => inOrder.running (stopped ▸ going)
    · intro other member
      rcases List.mem_append.mp member with old | new
      · exact replied other old
      · obtain rfl := List.mem_singleton.mp new
        exact answer

theorem run_inOrder (actions : List (Action router SL EL)) (worker : Fin router.workerCount)
    : ∃ answered lost,
        ((new : System router SL EL).run actions).InOrder worker
          (channelsOf worker (sent actions)) answered lost := by
  induction actions using List.reverseRecOn with
  | nil =>
      exact ⟨[], [], rfl, fun _ => nofun, .nil, fun _ => rfl, fun _ => nofun, fun _ => nofun,
        fun _ => nofun⟩
  | append_singleton past action ih =>
      obtain ⟨answered, lost, inOrder⟩ := ih
      rw [run_concat, sent_concat, channelsOf, messagesFor_append, List.filterMap_append]
      exact inOrder.step (run_carried past) action

/-- The messages that a run has sent to a worker are, in order, those that are answered, those that
the worker has in hand or in its queue, and those that it lost when it ended. Each is answered at
most once, on its own channel, and exactly those of the first group have a reply, by induction over
the steps of the run.
-/
theorem replies_in_order (actions : List (Action router SL EL)) (worker : Fin router.workerCount)
    : ∃ answered lost,
        ((new : System router SL EL).run actions).InOrder worker
          (channelsOf worker (sent actions)) answered lost :=
  run_inOrder actions worker

end System

end Contime
