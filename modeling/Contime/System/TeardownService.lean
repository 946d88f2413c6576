import Contime.System.ReplyChannels
import Contime.System.Teardown
import Contime.Model.TestFixtures

/-! What a router that is dropped still does for its clients: every worker serves a prefix of its
queue.
-/

namespace Contime

universe u v
variable {SL : Type u} {EL : Type v} {router : Router} [Event EL] [Snapshot SL EL]
  [ApplyEvent EL SL]

namespace Teardown
variable {state : Teardown router SL EL} {worker : Fin router.workerCount}

/-- No step of a drop passes on a sender, but to a reply. -/
theorem releases_step (carried : state.system.Carried) (action : TeardownAction router)
    : state.system.Releases (state.step action).1.system := by
  cases possible : (state.step action).2 with
  | false => exact (step_of_impossible possible).symm ▸ .refl state.system
  | true =>
      cases action with
      | commit worker => exact state.system.releases_commit worker
      | respond worker => exact carried.releases_respond worker
      | drop =>
          rw [step, drop] at possible ⊢
          split at possible
          next left =>
            rw [dif_pos left]
            rcases dropWorker_cases possible with
              ⟨_, shape⟩ | ⟨_, _, shape⟩ | ⟨_, _, shape⟩ | ⟨_, _, shape⟩
            · exact shape ▸ .refl state.system
            · exact shape ▸ .refl state.system
            · rw [shape]
              refine System.releases_of_worker rfl rfl ?_
              simp [WorkerState.channels, WorkerInbound.reply]
            · rw [shape]
              refine System.releases_of_worker rfl rfl ?_
              simp [WorkerState.channels]
          next => cases possible
      | check worker stale =>
          obtain ⟨_, _, _, goes | ⟨_, ends⟩⟩ := check_cases possible
          · rw [step, goes]
            exact .refl state.system
          · rw [step, ends]
            exact System.releases_of_worker rfl rfl
              (.refl (state.system.workers worker).channels)
      | receive worker visits =>
          rw [step, receive] at possible ⊢
          split
          · dsimp only
            split
            · exact state.system.releases_handle worker visits
            · exact .refl state.system
          · exact .refl state.system

/-- The request to end that a running worker has behind its messages. -/
def asked (dropped : Nat) (phase : DropPhase) (worker : Fin router.workerCount)
    : List (WorkerInbound SL EL) :=
  if worker.val = dropped ∧ phase = .join then [.shutdown] else []

/-- Of what a worker had in hand and in its queue, it has served a prefix: the histories are those
after the served messages, whose replies are there or in hand, and the others have none.
-/
structure Serves (state : Teardown router SL EL) (before : WorkerState SL EL)
    (worker : Fin router.workerCount) (served rest : List (WorkerInbound SL EL))
    : Prop where
  split : before.inbound = served ++ rest
  queue
    : (state.system.workers worker).stopped = false
      → (state.system.workers worker).inbound = rest ++ asked state.dropped state.phase worker
  histories
    : workerRun router.lowerTimeHorizonDelta before.historyById served
      = some (state.system.workers worker).historyById
  inHand
    : ∀ channel reply, before.reply = some (channel, reply)
      → (state.system.workers worker).reply = some (channel, reply)
        ∨ state.system.replyAt channel = some reply
  replied
    : ∀ message ∈ served, ∀ channel, message.reply = some channel
      → (∃ reply, (state.system.workers worker).reply = some (channel, reply))
        ∨ state.system.replyAt channel ≠ none
  unanswered
    : ∀ message ∈ rest, ∀ channel, message.reply = some channel
      → (∀ reply, (state.system.workers worker).reply ≠ some (channel, reply))
        ∧ state.system.replyAt channel = none
        ∧ state.system.SentTo worker channel

variable {before : WorkerState SL EL} {served rest : List (WorkerInbound SL EL)}

/-- A step that answers no message of the worker, and of the worker changes only its queue and what
is pending.
-/
theorem Serves.keep (serves : state.Serves before worker served rest)
    {after : Teardown router SL EL}
    (answered
      : ∀ channel reply, state.system.replyAt channel = some reply
        → after.system.replyAt channel = some reply)
    (unanswered
      : ∀ channel, state.system.SentTo worker channel
        → after.system.SentTo worker channel
          ∧ after.system.replyAt channel = state.system.replyAt channel)
    (reply : (after.system.workers worker).reply = (state.system.workers worker).reply)
    (histories
      : (after.system.workers worker).historyById = (state.system.workers worker).historyById)
    (queue
      : (after.system.workers worker).stopped = false
        → (after.system.workers worker).inbound = rest ++ asked after.dropped after.phase worker)
    : after.Serves before worker served rest := by
  refine ⟨serves.split, queue, ?_, ?_, ?_, ?_⟩
  · rw [histories]
    exact serves.histories
  · intro channel first own
    rw [reply]
    exact (serves.inHand channel first own).imp_right (answered channel first)
  · intro message member channel own
    rw [reply]
    refine (serves.replied message member channel own).imp_right (fun there => ?_)
    obtain ⟨first, found⟩ := Option.ne_none_iff_exists'.mp there
    rw [answered channel first found]
    exact Option.some_ne_none first
  · intro message member channel own
    obtain ⟨free, none, sentTo⟩ := serves.unanswered message member channel own
    obtain ⟨still, same⟩ := unanswered channel sentTo
    rw [reply, same]
    exact ⟨free, none, still⟩

/-- A step that changes no call, and of the worker only its queue and what is pending. -/
theorem Serves.keep_of_calls (serves : state.Serves before worker served rest)
    {after : Teardown router SL EL} (calls : after.system.calls = state.system.calls)
    (reply : (after.system.workers worker).reply = (state.system.workers worker).reply)
    (histories
      : (after.system.workers worker).historyById = (state.system.workers worker).historyById)
    (queue
      : (after.system.workers worker).stopped = false
        → (after.system.workers worker).inbound = rest ++ asked after.dropped after.phase worker)
    : after.Serves before worker served rest := by
  have replies (channel : ReplyChannel)
      : after.system.replyAt channel = state.system.replyAt channel := by
    rw [System.replyAt, System.replyAt, calls]
  refine serves.keep (fun channel first there => ?_) (fun channel sentTo => ?_) reply histories
    queue
  · rwa [replies]
  · exact ⟨sentTo.of_outline (congrArg _ calls), replies channel⟩

/-- A step of another party that changes no call and does not ask the worker to end. -/
theorem Serves.frame (serves : state.Serves before worker served rest)
    {after : Teardown router SL EL} (calls : after.system.calls = state.system.calls)
    (same : after.system.workers worker = state.system.workers worker)
    (request
      : (asked after.dropped after.phase worker : List (WorkerInbound SL EL))
        = asked state.dropped state.phase worker)
    : after.Serves before worker served rest := by
  refine serves.keep_of_calls calls ?_ ?_ ?_
  · rw [same]
  · rw [same]
  · rw [same, request]
    exact serves.queue

/-- A worker that takes a message serves it, or ends at it. -/
theorem Serves.receive (serves : state.Serves before worker served rest)
    (once : (before.inbound.filterMap WorkerInbound.reply).Nodup)
    (free : (state.system.workers worker).Free) {visits : List SnapshotId}
    (possible : (state.receive worker visits).2 = true)
    : ∃ served rest, (state.receive worker visits).1.Serves before worker served rest := by
  obtain ⟨_, message, inbound, running, queue, ⟨_, ends⟩ | ⟨handled, shape, takes⟩⟩ :=
    receive_cases possible
  · refine ⟨served, rest, ?_⟩
    rw [ends]
    exact serves.keep_of_calls rfl (by simp) (by simp) (by simp)
  · have waiting := serves.queue running
    rw [queue] at waiting
    cases rest with
    | nil =>
        -- Only the request to end is left, and no worker handles it.
        rw [List.nil_append, asked] at waiting
        split at waiting
        · obtain ⟨rfl, _⟩ := List.cons.inj waiting
          cases shape
        · cases waiting
    | cons first rest =>
        obtain ⟨rfl, later⟩ := List.cons.inj waiting
        refine ⟨served ++ [message], rest, ?_⟩
        have passed := reply_handleWorker shape
        have calls : (state.receive worker visits).1.system.calls = state.system.calls := by
          rw [takes]
          rfl
        have replies (channel : ReplyChannel)
            : (state.receive worker visits).1.system.replyAt channel
              = state.system.replyAt channel := by
          rw [System.replyAt, System.replyAt, calls]
        have inHand : ((state.receive worker visits).1.system.workers worker).reply
            = some handled.reply := by
          rw [takes]
          simp
        refine ⟨?_, ?_, ?_, ?_, ?_, ?_⟩
        · rw [serves.split]
          simp
        · intro _
          rw [takes]
          simpa using later
        · rw [workerRun, List.foldlM_append]
          have earlier := serves.histories
          rw [workerRun] at earlier
          obtain ⟨ordered, inOrder, histories, _⟩ := handleWorker_without shape
          rw [earlier, takes]
          simp [inOrder, histories]
        · intro channel reply own
          rw [replies]
          rcases serves.inHand channel reply own with held | there
          · rw [free.2] at held
            cases held
          · exact Or.inr there
        · intro other member channel own
          rw [replies, inHand]
          rcases List.mem_append.mp member with old | new
          · rcases serves.replied other old channel own with ⟨reply, held⟩ | there
            · rw [free.2] at held
              cases held
            · exact Or.inr there
          · obtain rfl := List.mem_singleton.mp new
            rw [passed] at own
            obtain rfl := Option.some.inj own
            exact Or.inl ⟨handled.reply.2, rfl⟩
        · intro other member channel own
          obtain ⟨_, none, sentTo⟩ := serves.unanswered other (.tail _ member) channel own
          rw [replies, inHand]
          refine ⟨fun reply equal => ?_, none, sentTo.of_outline (congrArg _ calls)⟩
          rw [serves.split, List.filterMap_append] at once
          have distinct := (List.nodup_append.mp once).2.1
          rw [List.filterMap_cons, passed] at distinct
          refine (List.nodup_cons.mp distinct).1 ?_
          rw [Option.some.inj equal]
          exact List.mem_filterMap.mpr ⟨other, member, own⟩

/-- A worker that replies serves nothing new. -/
theorem Serves.respond (serves : state.Serves before worker served rest)
    (carried : state.system.Carried) (other : Fin router.workerCount)
    : (state.step (.respond other)).1.Serves before worker served rest := by
  rcases state.system.respond_cases other with same | ⟨channel, reply, committed, held, responds⟩
  · rw [Teardown.step, same]
    exact serves
  · have mine : channel ∈ (state.system.workers other).channels := by
      simp [WorkerState.channels, held]
    have sentTo := carried.sent other channel mine
    have answer := System.replyAt_respond carried.addressed sentTo committed held
    have stays {earlier : ReplyChannel} {answer : Reply SL}
        (there : state.system.replyAt earlier = some answer)
        : (state.system.respond other).1.replyAt earlier = some answer :=
      carried.replyAt_respond_of_some other there
    have others {earlier : ReplyChannel} (differ : earlier ≠ channel)
        : (state.system.respond other).1.replyAt earlier = state.system.replyAt earlier := by
      rw [responds]
      exact System.replyAt_of_ne differ rfl
    by_cases own : other = worker
    · subst own
      have empty : ((state.system.respond other).1.workers other).reply = none := by
        rw [responds]
        simp
      refine ⟨serves.split, ?_, ?_, ?_, ?_, ?_⟩
      · have queue := serves.queue
        rw [Teardown.step, responds]
        simpa using queue
      · have histories := serves.histories
        rw [Teardown.step, responds]
        simpa using histories
      · intro earlier first mine
        right
        rcases serves.inHand earlier first mine with now | there
        · rw [held] at now
          obtain ⟨rfl, rfl⟩ := Prod.mk.inj (Option.some.inj now)
          exact answer
        · exact stays there
      · intro message member earlier mine
        right
        rcases serves.replied message member earlier mine with ⟨first, now⟩ | there
        · rw [held] at now
          obtain ⟨rfl, rfl⟩ := Prod.mk.inj (Option.some.inj now)
          exact fun none => Option.some_ne_none _ (answer.symm.trans none)
        · obtain ⟨first, found⟩ := Option.ne_none_iff_exists'.mp there
          exact fun none => Option.some_ne_none _ ((stays found).symm.trans none)
      · intro message member later mine
        obtain ⟨free, none, sent⟩ := serves.unanswered message member later mine
        have differ : later ≠ channel := by
          intro same
          exact free reply (same ▸ held)
        refine ⟨fun first now => ?_, (others differ).trans none, sent.respond other⟩
        exact Option.some_ne_none _ (now.symm.trans empty)
    · have still := state.system.workers_respond_of_ne (Ne.symm own)
      refine serves.keep (fun _ _ => stays) (fun later sent => ?_)
        (congrArg WorkerState.reply still) (congrArg WorkerState.historyById still)
        (fun running => ?_)
      · refine ⟨sent.respond other, others ?_⟩
        rintro rfl
        exact own (sentTo.unique sent)
      · exact (congrArg WorkerState.inbound still).trans (serves.queue (still ▸ running))

/-- A worker that is dropped has served what it had served before, and may be asked to end. -/
theorem Serves.drop (serves : state.Serves before worker served rest)
    (possible : (state.step .drop).2 = true)
    : (state.step .drop).1.Serves before worker served rest := by
  rw [Teardown.step, Teardown.drop] at possible ⊢
  split at possible
  next left =>
    rw [dif_pos left]
    have other (own : worker ≠ ⟨state.dropped, left⟩) : worker.val ≠ state.dropped :=
      fun same => own (Fin.ext same)
    rcases dropWorker_cases possible with
      ⟨phase, shape⟩ | ⟨phase, stopped, shape⟩ | ⟨phase, running, shape⟩
        | ⟨phase, stopped, shape⟩
    · rw [shape]
      exact serves.frame rfl rfl (by simp [asked, phase])
    · rw [shape]
      by_cases own : worker = ⟨state.dropped, left⟩
      · subst own
        refine serves.keep_of_calls rfl rfl rfl (fun going => ?_)
        rw [stopped] at going
        cases going
      · exact serves.frame rfl rfl (by simp [asked, phase, other own])
    · rw [shape]
      by_cases own : worker = ⟨state.dropped, left⟩
      · subst own
        refine serves.keep_of_calls rfl (by simp) (by simp) (fun _ => ?_)
        simp [serves.queue running, asked, phase]
      · exact serves.frame rfl (System.setWorker_of_ne own ..)
          (by simp [asked, phase, other own])
    · rw [shape]
      by_cases own : worker = ⟨state.dropped, left⟩
      · subst own
        refine serves.keep_of_calls rfl (by simp) (by simp) (fun going => ?_)
        simp [stopped] at going
      · exact serves.frame rfl (System.setWorker_of_ne own ..)
          (by simp [asked, phase, other own])
  next => cases possible

/-- Every step of the drop keeps that the worker serves its queue in order. -/
theorem Serves.step (serves : state.Serves before worker served rest) (sound : state.Sound)
    (carried : state.system.Carried)
    (once : (before.inbound.filterMap WorkerInbound.reply).Nodup)
    (action : TeardownAction router)
    : ∃ served rest, (state.step action).1.Serves before worker served rest := by
  cases possible : (state.step action).2 with
  | false => exact ⟨served, rest, (step_of_impossible possible).symm ▸ serves⟩
  | true =>
      cases action with
      | respond other => exact ⟨served, rest, serves.respond carried other⟩
      | commit other =>
          refine ⟨served, rest, ?_⟩
          by_cases own : worker = other
          · subst own
            rw [Teardown.step]
            rcases state.system.commit_cases worker with same | ⟨_, _, _, commits⟩
            · rw [same]
              exact serves
            · rw [commits]
              refine serves.keep_of_calls rfl (by simp) (by simp) ?_
              simpa using serves.queue
          · exact serves.frame (state.system.calls_commit other)
              (System.workers_commit_of_ne own) rfl
      | check other stale =>
          refine ⟨served, rest, ?_⟩
          obtain ⟨_, _, _, goes | ⟨_, ends⟩⟩ := check_cases possible
          · rw [Teardown.step, goes]
            exact serves.frame rfl rfl rfl
          · rw [Teardown.step, ends]
            by_cases own : worker = other
            · subst own
              exact serves.keep_of_calls rfl (by simp) (by simp) (by simp)
            · exact serves.frame rfl (System.setWorker_of_ne own ..) rfl
      | receive other visits =>
          by_cases own : worker = other
          · subst own
            obtain ⟨inRecv, _⟩ := receive_cases possible
            exact serves.receive once ((sound worker).free inRecv) possible
          · refine ⟨served, rest, ?_⟩
            obtain ⟨_, _, _, _, _, ⟨_, ends⟩ | ⟨_, _, takes⟩⟩ := receive_cases possible
            · rw [Teardown.step, ends]
              exact serves.frame rfl (System.setWorker_of_ne own ..) rfl
            · rw [Teardown.step, takes]
              exact serves.frame rfl (System.setWorker_of_ne own ..) rfl
      | drop => exact ⟨served, rest, serves.drop possible⟩

-----------------------------------------------------------------------------------------
-- Whole drops
-----------------------------------------------------------------------------------------

/-- A drop starts with nothing served. -/
theorem serves_start {system : System router SL EL} (carried : system.Carried)
    (receiving : Fin router.workerCount → Bool) (worker : Fin router.workerCount)
    : (start system receiving).Serves (system.workers worker) worker []
        (system.workers worker).inbound := by
  refine ⟨rfl, fun _ => ?_, rfl, fun _ _ => Or.inl, fun _ => nofun, ?_⟩
  · simp [start, asked]
  · intro message member channel own
    have queued : channel ∈ (system.workers worker).inbound.filterMap WorkerInbound.reply :=
      List.mem_filterMap.mpr ⟨message, member, own⟩
    have had : channel ∈ (system.workers worker).channels := List.mem_append_right _ queued
    refine ⟨fun reply inHand => ?_, carried.pending worker channel had,
      carried.sent worker channel had⟩
    have inHand : (system.workers worker).reply = some (channel, reply) := inHand
    have once := carried.distinct worker
    rw [WorkerState.channels, inHand] at once
    exact (List.nodup_cons.mp once).1 queued

theorem Serves.run (serves : state.Serves before worker served rest) (sound : state.Sound)
    (carried : state.system.Carried)
    (once : (before.inbound.filterMap WorkerInbound.reply).Nodup)
    (actions : List (TeardownAction router))
    : ∃ served rest, (state.run actions).Serves before worker served rest := by
  induction actions generalizing state served rest with
  | nil => exact ⟨served, rest, serves⟩
  | cons action actions ih =>
      obtain ⟨served, rest, next⟩ := serves.step sound carried once action
      exact ih next (sound.step action) ((releases_step carried action).carried carried)

variable [EventLanes EL SL]

/-- When the drop of a router returns, every worker has ended and has served a prefix of its
queue, with the message in hand before it: its histories are those after the served messages, each
of which has its reply, and no other message has one. By induction over the steps of the drop.
-/
theorem drop_serves_prefix (actions : List (Action router SL EL))
    {receiving : Fin router.workerCount → Bool}
    (inRecv
      : ∀ worker, receiving worker = true →
        (((System.new : System router SL EL).run actions).workers worker).Free)
    {steps : List (TeardownAction router)}
    (returned
      : ((start ((System.new : System router SL EL).run actions) receiving).run steps).Returned)
    (worker : Fin router.workerCount)
    : let before : System router SL EL := System.new.run actions
      let after : System router SL EL := ((start before receiving).run steps).system
      (after.workers worker).stopped = true
      ∧ ∃ served lost,
          (before.workers worker).inbound = served ++ lost
          ∧ workerRun router.lowerTimeHorizonDelta (before.workers worker).historyById served
            = some (after.workers worker).historyById
          ∧ (∀ channel reply, (before.workers worker).reply = some (channel, reply)
            → after.replyAt channel = some reply)
          ∧ (∀ message ∈ served, ∀ channel, message.reply = some channel
            → after.replyAt channel ≠ none)
          ∧ ∀ message ∈ lost, ∀ channel, message.reply = some channel
            → after.replyAt channel = none := by
  intro before after
  have carried : before.Carried := System.run_carried actions
  have sound : (start before receiving).Sound :=
    sound_start (System.run_free_of_stopped actions) inRecv
  have once : ((before.workers worker).inbound.filterMap WorkerInbound.reply).Nodup :=
    (List.nodup_append.mp (carried.distinct worker)).2.1
  obtain ⟨served, lost, serves⟩ :=
    (serves_start carried receiving worker).run sound carried once steps
  have final := sound.run steps worker
  have stopped := (final.gone (Nat.lt_of_lt_of_le worker.isLt returned)).1
  have empty := (final.ended stopped).2
  refine ⟨stopped, served, lost, serves.split, serves.histories, ?_, ?_, ?_⟩
  · intro channel reply own
    rcases serves.inHand channel reply own with held | there
    · rw [empty] at held
      cases held
    · exact there
  · intro message member channel own
    rcases serves.replied message member channel own with ⟨reply, held⟩ | there
    · rw [empty] at held
      cases held
    · exact there
  · intro message member channel own
    exact (serves.unanswered message member channel own).2.1

/-- The worker takes the event before its flag is cleared and sees the flag behind it, so that the
query in its queue is lost.
-/
theorem drop_serves_prefix_event_before_query
    : let router : Router := ⟨1, by decide, fun _ => 0, 1000, 60⟩
      let worker : Fin router.workerCount := ⟨0, by decide⟩
      let actions : List (Action router TestSnapshot TestEvent) :=
        [.sendEvent (.positive 1 5 10 1), .enqueue 0, .queryAt 9 1, .enqueue 1]
      let receiving : Fin router.workerCount → Bool := fun _ => false
      let steps : List (TeardownAction router) :=
        [.check worker false, .receive worker, .drop, .commit worker, .commit worker,
          .respond worker, .check worker false, .drop, .drop]
      ∃ served lost,
        ((System.new.run actions).workers worker).inbound = served ++ lost
        ∧ workerRun router.lowerTimeHorizonDelta
            ((System.new.run actions).workers worker).historyById served
          = some (((start (System.new.run actions) receiving).run steps).system.workers
              worker).historyById := by
  intro router worker actions receiving steps
  have idle (worker : Fin router.workerCount) (inRecv : receiving worker = true)
      : (((System.new : System router TestSnapshot TestEvent).run actions).workers
          worker).Free := by
    cases inRecv
  have returned
      : ((start ((System.new : System router TestSnapshot TestEvent).run actions)
          receiving).run steps).Returned := by
    decide
  obtain ⟨_, served, lost, split, histories, _⟩ :=
    drop_serves_prefix actions idle returned worker
  exact ⟨served, lost, split, histories⟩

end Teardown

end Contime
