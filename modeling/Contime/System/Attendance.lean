import Contime.Handle.Completion
import Contime.System.TeardownService
import Contime.Model.TestFixtures

/-! A client that polls or waits on the handle of a call while the router goes on and is dropped.
The senders of its channels go with the messages, so that every sender is gone when the drop has
returned, and no client hangs.
-/

namespace Contime

universe u v w x
variable {SL : Type u} {EL : Type v} {router : Router} {replyCount : Nat}

-----------------------------------------------------------------------------------------
-- The router and the client
-----------------------------------------------------------------------------------------

/-- One atomic step of the router or of the client. -/
inductive Move (Action : Type w) where
  | router (action : Action)
  | tryRecv
  | wait
  | recv

/-- The state of a router, and the client that holds the handle of one of its calls. -/
structure Attended (State : Type w) (replyCount : Nat) where
  state : State
  handle : HandleState replyCount

/-- What the workers have done with the senders of a call: a reply that is there was sent, and a
sender that no worker has is gone.
-/
def System.senders (system : System router SL EL) (call : Nat)
    (channels : Fin replyCount → OneShot Unit)
    : Fin replyCount → OneShot Unit :=
  fun rx =>
    let channel :=
      if (system.replyAt ⟨call, rx⟩).isSome then (channels rx).send () else channels rx
    if ∀ worker, ⟨call, rx⟩ ∉ (system.workers worker).channels then channel.dropSender
    else channel

namespace Attended
variable {State : Type w} {Action : Type x}

/-- One step, with the result of a poll. -/
def step (advance : State → Action → State × Bool) (view : State → System router SL EL)
    (call : Nat) (attended : Attended State replyCount)
    : Move Action
      → Attended State replyCount × Option (Except HandleError (Option Unit))
  | .router action =>
      let state := (advance attended.state action).1
      let channels := (view state).senders call attended.handle.channels
      ({ state, handle := { attended.handle with channels } }, none)
  | .tryRecv => own .tryRecv
  | .wait => own .wait
  | .recv => own .recv
where
  own (action : HandleAction replyCount)
      : Attended State replyCount × Option (Except HandleError (Option Unit)) :=
    ({ attended with handle := (attended.handle.step action).1 },
      (attended.handle.step action).2)

def run (advance : State → Action → State × Bool) (view : State → System router SL EL)
    (call : Nat) (attended : Attended State replyCount) (moves : List (Move Action))
    : Attended State replyCount :=
  Transducer.final (step advance view call) attended moves

end Attended

/-- The steps of the router. -/
def Move.action? {Action : Type w} : Move Action → Option Action
  | .router action => some action
  | .tryRecv | .wait | .recv => none

namespace Attended
variable {State : Type w} {Action : Type x} {advance : State → Action → State × Bool}
  {view : State → System router SL EL} {call : Nat}

/-- The client does not disturb the router. -/
theorem state_run (attended : Attended State replyCount) (moves : List (Move Action))
    : (attended.run advance view call moves).state
      = Transducer.final advance attended.state (moves.filterMap Move.action?) := by
  induction moves generalizing attended with
  | nil => rfl
  | cons move rest ih =>
      rw [run, Transducer.final_cons]
      cases move <;> exact ih _

/-- A client that calls `wait` waits from then on. -/
theorem waits_run (attended : Attended State replyCount) {moves : List (Move Action)}
    (waits : attended.handle.client.Waits ∨ .wait ∈ moves)
    : (attended.run advance view call moves).handle.client.Waits := by
  induction moves generalizing attended with
  | nil => exact waits.resolve_right List.not_mem_nil
  | cons move rest ih =>
      rw [run, Transducer.final_cons]
      refine ih _ ?_
      rcases waits with before | member
      · have still (action : HandleAction replyCount)
            : (attended.handle.step action).1.client.Waits :=
          HandleState.step_waits.mpr (Or.inl before)
        left
        cases move with
        | router action => exact before
        | tryRecv => exact still .tryRecv
        | wait => exact still .wait
        | recv => exact still .recv
      · cases member with
        | head => exact Or.inl (HandleState.step_waits.mpr (Or.inr rfl))
        | tail _ later => exact Or.inr later

end Attended

-----------------------------------------------------------------------------------------
-- The channels and the workers
-----------------------------------------------------------------------------------------

/-- The client relies on nothing that is not so, and its channels are as the workers left them. -/
structure Fits (system : System router SL EL) (call : Nat) (handle : HandleState replyCount)
    : Prop where
  sound : handle.Sound
  sent : ∀ rx, (handle.channels rx).sent = true ↔ system.replyAt ⟨call, rx⟩ ≠ none
  dropped
    : ∀ rx, (handle.channels rx).dropped = true
      ↔ ∀ worker, ⟨call, rx⟩ ∉ (system.workers worker).channels

variable {system : System router SL EL} {call : Nat} {handle : HandleState replyCount}

/-- What the workers do with a sender is a step of the sender. -/
theorem senderStep_senders (system : System router SL EL) (call : Nat)
    (channels : Fin replyCount → OneShot Unit) (rx : Fin replyCount)
    : OneShot.SenderStep (channels rx) (system.senders call channels rx) := by
  have sends
      : OneShot.SenderStep (channels rx)
          (if (system.replyAt ⟨call, rx⟩).isSome then (channels rx).send () else channels rx) := by
    split
    · exact OneShot.senderStep_send (channels rx) ()
    · exact .refl (channels rx)
  rw [System.senders]
  split
  · exact sends.trans (OneShot.senderStep_dropSender _)
  · exact sends

/-- The client's own steps keep its channels as the workers left them. -/
theorem Fits.step (fits : Fits system call handle) {action : HandleAction replyCount}
    (own : action = .tryRecv ∨ action = .wait ∨ action = .recv)
    : Fits system call (handle.step action).1 := by
  have same := HandleState.sameSenders_step fits.sound own
  refine ⟨(HandleState.step_spec fits.sound action).1, fun rx => ?_, fun rx => ?_⟩
  · rw [(same rx).1]
    exact fits.sent rx
  · rw [(same rx).2]
    exact fits.dropped rx

/-- A step of the router that brings no sender of the call back. -/
theorem Fits.senders (fits : Fits system call handle) {after : System router SL EL}
    (answered
      : ∀ rx : Fin replyCount, system.replyAt ⟨call, rx⟩ ≠ none → after.replyAt ⟨call, rx⟩ ≠ none)
    (replied
      : ∀ rx : Fin replyCount, after.replyAt ⟨call, rx⟩ ≠ none
        → system.replyAt ⟨call, rx⟩ ≠ none
          ∨ ∃ worker, ⟨call, rx⟩ ∈ (system.workers worker).channels)
    (channels
      : ∀ (rx : Fin replyCount) worker, ⟨call, rx⟩ ∈ (after.workers worker).channels
        → ∃ worker, ⟨call, rx⟩ ∈ (system.workers worker).channels)
    : Fits after call { handle with channels := after.senders call handle.channels } := by
  have steps := senderStep_senders after call handle.channels
  have sent (rx : Fin replyCount)
      : (after.senders call handle.channels rx).sent
        = if (after.replyAt ⟨call, rx⟩).isSome then
            (handle.channels rx).sent || !(handle.channels rx).dropped
          else (handle.channels rx).sent := by
    rw [System.senders]
    split <;> split <;> simp [OneShot.dropSender, OneShot.sent_send]
  refine ⟨HandleClient.Sound.senderSteps steps fits.sound, fun rx => ?_, fun rx => ?_⟩
  · show (after.senders call handle.channels rx).sent = true ↔ _
    rw [sent]
    cases there : after.replyAt ⟨call, rx⟩ with
    | none =>
        have unsent : ¬(handle.channels rx).sent = true := fun before =>
          answered rx ((fits.sent rx).mp before) there
        simpa using unsent
    | some reply =>
        simp only [Option.isSome_some, if_true, Bool.or_eq_true, Bool.not_eq_true', ne_eq,
          reduceCtorEq, not_false_eq_true, iff_true]
        have now : after.replyAt ⟨call, rx⟩ ≠ none := by simp [there]
        rcases replied rx now with before | ⟨worker, had⟩
        · exact Or.inl ((fits.sent rx).mpr before)
        · refine Or.inr (Bool.eq_false_iff.mpr fun gone => ?_)
          exact (fits.dropped rx).mp gone worker had
  · have dropped
        : (after.senders call handle.channels rx).dropped = true
          ↔ (∀ worker, ⟨call, rx⟩ ∉ (after.workers worker).channels)
            ∨ (handle.channels rx).dropped = true := by
      rw [System.senders]
      split
      next gone => simp [OneShot.dropSender, gone]
      next there =>
        rw [or_iff_right there]
        split
        · rw [OneShot.dropped_send]
        · rfl
    refine dropped.trans (or_iff_left_of_imp fun gone worker member => ?_)
    obtain ⟨other, had⟩ := channels rx worker member
    exact (fits.dropped rx).mp gone other had

/-- Steps that take on no sender bring none back. -/
theorem Fits.releases (fits : Fits system call handle) {after : System router SL EL}
    (releases : system.Releases after)
    : Fits after call { handle with channels := after.senders call handle.channels } := by
  refine fits.senders (fun rx there => ?_) (fun rx some => ?_) (fun rx worker member => ?_)
  · obtain ⟨reply, found⟩ := Option.ne_none_iff_exists'.mp there
    rw [releases.answered _ reply found]
    exact Option.some_ne_none reply
  · exact (releases.replied _ some).imp_right fun ⟨worker, had, _⟩ => ⟨worker, had⟩
  · exact ⟨worker, (releases.channels worker).subset member⟩

/-- A handle that its call returns has the channels as the workers left them. -/
theorem fits_new (fresh : handle = .ofApply replyCount ∨ handle = .ofAdvance replyCount)
    : Fits system call { handle with channels := system.senders call handle.channels } := by
  have channels : handle.channels = fun _ => .new := by
    rcases fresh with rfl | rfl
    · rfl
    · rfl
  have sound : handle.Sound := by
    rcases fresh with rfl | rfl
    · exact awaits_new
    · exact awaits_new
  refine ⟨HandleClient.Sound.senderSteps (senderStep_senders system call handle.channels) sound,
    fun rx => ?_, fun rx => ?_⟩
  · show (system.senders call handle.channels rx).sent = true ↔ _
    rw [channels, System.senders, ← Option.isSome_iff_ne_none]
    split <;> split <;> simp_all [OneShot.dropSender, OneShot.sent_send, OneShot.new]
  · show (system.senders call handle.channels rx).dropped = true ↔ _
    rw [channels, System.senders]
    split <;> split <;> simp_all [OneShot.dropSender, OneShot.new]

/-- Once every sender of its call is gone, a client that waits is told whether all of them were
answered.
-/
theorem Fits.wait_returns (fits : Fits system call handle)
    (gone : ∀ rx, (handle.channels rx).dropped = true)
    {earlier later : List (HandleAction replyCount)}
    (waits : (handle.run earlier).client.Waits) (enough : replyCount < later.count .recv)
    : ((handle.run (earlier ++ later)).client = .returned (.ok ())
        ∧ ∀ rx : Fin replyCount, system.replyAt ⟨call, rx⟩ ≠ none)
      ∨ ((handle.run (earlier ++ later)).client = .returned (.error .workerDropped)
        ∧ ∃ rx : Fin replyCount, system.replyAt ⟨call, rx⟩ = none) := by
  have settled : Settled handle.channels := fun rx => Or.inr (gone rx)
  have advance := HandleState.advance_run fits.sound earlier
  have kept := HandleState.sound_run fits.sound earlier
  obtain ⟨result, ends⟩ :=
    HandleState.returned_of_settled kept (settled.advance advance)
      (HandleState.within_of_waits kept waits enough)
  rw [← HandleState.run_append] at ends
  have final : (handle.run (earlier ++ later)).Sound :=
    HandleState.sound_run fits.sound (earlier ++ later)
  rw [HandleState.Sound, ends] at final
  rw [ends]
  by_cases all : ∀ rx : Fin replyCount, system.replyAt ⟨call, rx⟩ ≠ none
  · left
    have replied : Replied (handle.run (earlier ++ later)).channels :=
      Replied.advance (fun rx => (fits.sent rx).mpr (all rx))
        (HandleState.advance_run fits.sound (earlier ++ later))
    cases result with
    | ok => exact ⟨rfl, all⟩
    | error => exact absurd replied final.not_replied
  · right
    obtain ⟨rx, some⟩ := not_forall.mp all
    have lost : WorkerDropped handle.channels :=
      ⟨rx, gone rx, Bool.eq_false_iff.mpr fun sent => some ((fits.sent rx).mp sent)⟩
    have still := HandleState.workerDropped_run fits.sound lost (earlier ++ later)
    cases result with
    | ok => exact absurd final still.not_replied
    | error => exact ⟨rfl, rx, of_not_not some⟩

/-- A drop that has returned leaves no sender of a call. -/
theorem Fits.dropped_of_returned {state : Teardown router SL EL}
    (fits : Fits state.system call handle) (sound : state.Sound) (returned : state.Returned)
    (rx : Fin replyCount)
    : (handle.channels rx).dropped = true := by
  refine (fits.dropped rx).mpr fun worker member => ?_
  have final := sound worker
  obtain ⟨stopped, queue⟩ := final.gone (Nat.lt_of_lt_of_le worker.isLt returned)
  have channels : (state.system.workers worker).channels = [] := by
    rw [WorkerState.channels, (final.ended stopped).2, queue]
    rfl
  rw [channels] at member
  cases member

variable [Event EL] [Snapshot SL EL] [ApplyEvent EL SL] [EventLanes EL SL]

/-- A step passes on no sender of a message that was sent before. -/
theorem System.Carried.channels_of_sent (carried : system.Carried) (action : Action router SL EL)
    {worker other : Fin router.workerCount} {channel : ReplyChannel}
    (sentTo : system.SentTo other channel)
    (member : channel ∈ ((system.step action).1.workers worker).channels)
    : channel ∈ (system.workers worker).channels := by
  rcases carried.channels_step action worker with
    ⟨channels, _⟩ | ⟨none, _⟩ | ⟨first, channels, _⟩
  · rw [channels] at member
    refine (List.mem_append.mp member).resolve_right (fun new => ?_)
    cases action with
    | enqueue index =>
        rcases system.sends_enqueue index with
          ⟨nothing, _⟩ | ⟨request, target, message, found, next, _, one, _⟩
        · rw [nothing] at new
          cases new
        · have own := (carried.addressed index request found).2 request.sent target message next
          rw [one, channelsOf, List.mem_filterMap] at new
          obtain ⟨sent, listed, reply⟩ := new
          have same : sent = message := by
            rw [messagesFor] at listed
            simp at listed
            exact listed.2
          rw [same, own] at reply
          obtain rfl := Option.some.inj reply
          obtain ⟨_, _, again, _, inside⟩ := sentTo
          rw [found] at again
          obtain rfl := Option.some.inj again
          exact Nat.lt_irrefl _ inside
    | sendEvent | sendSnapshot | queryAt | sendAdvance | handle | commit | respond => cases new
  · rw [none] at member
    cases member
  · rw [channels]
    exact .tail _ member

/-- Every step of the router keeps a call's channels as the workers left them, once all messages of
the call are sent.
-/
theorem Fits.advance (fits : Fits system call handle) (carried : system.Carried)
    (issued : ∀ rx : Fin replyCount, ∃ worker, system.SentTo worker ⟨call, rx⟩)
    (action : Action router SL EL)
    : Fits (system.step action).1 call
        { handle with channels := (system.step action).1.senders call handle.channels } := by
  refine fits.senders (fun rx there => ?_) (fun rx some => ?_) (fun rx worker member => ?_)
  · obtain ⟨reply, found⟩ := Option.ne_none_iff_exists'.mp there
    rw [carried.replyAt_step action found]
    exact Option.some_ne_none reply
  · obtain ⟨reply, found⟩ := Option.ne_none_iff_exists'.mp some
    rcases System.step_replyAt system action found with old | ⟨worker, inHand⟩
    · exact Or.inl (old ▸ Option.some_ne_none reply)
    · exact Or.inr ⟨worker, by simp [WorkerState.channels, inHand]⟩
  · obtain ⟨target, sentTo⟩ := issued rx
    exact ⟨worker, carried.channels_of_sent action sentTo member⟩

-----------------------------------------------------------------------------------------
-- Whole runs
-----------------------------------------------------------------------------------------

namespace Attended

/-- The call returns its handle. -/
def issue (system : System router SL EL) (call : Nat) (handle : HandleState replyCount)
    : Attended (System router SL EL) replyCount where
  state := system
  handle := { handle with channels := system.senders call handle.channels }

/-- The owner starts to drop the router while the client has the handle. -/
def drop (attended : Attended (System router SL EL) replyCount)
    (receiving : Fin router.workerCount → Bool)
    : Attended (Teardown router SL EL) replyCount where
  state := .start attended.state receiving
  handle := attended.handle

/-- The steps of the router and the client behind the call. -/
def serve (attended : Attended (System router SL EL) replyCount) (call : Nat)
    (moves : List (Move (Action router SL EL)))
    : Attended (System router SL EL) replyCount :=
  attended.run System.step id call moves

/-- The steps of the drop and the client. -/
def teardown (attended : Attended (Teardown router SL EL) replyCount) (call : Nat)
    (moves : List (Move (TeardownAction router)))
    : Attended (Teardown router SL EL) replyCount :=
  attended.run Teardown.step Teardown.system call moves

/-- While the router goes on, a call's channels are as the workers left them, by induction over the
moves.
-/
theorem fits_serve {attended : Attended (System router SL EL) replyCount}
    (carried : attended.state.Carried)
    (issued : ∀ rx : Fin replyCount, ∃ worker, attended.state.SentTo worker ⟨call, rx⟩)
    (fits : Fits attended.state call attended.handle) (moves : List (Move (Action router SL EL)))
    : Fits (attended.serve call moves).state call (attended.serve call moves).handle := by
  induction moves generalizing attended with
  | nil => exact fits
  | cons move rest ih =>
      cases move with
      | router action =>
          refine ih (carried.step action) (fun rx => ?_) (fits.advance carried issued action)
          obtain ⟨worker, sentTo⟩ := issued rx
          exact ⟨worker, sentTo.step action⟩
      | tryRecv => exact ih carried issued (fits.step (Or.inl rfl))
      | wait => exact ih carried issued (fits.step (Or.inr (Or.inl rfl)))
      | recv => exact ih carried issued (fits.step (Or.inr (Or.inr rfl)))

omit [EventLanes EL SL] in
/-- While the router is dropped, they are so as well. -/
theorem fits_teardown {attended : Attended (Teardown router SL EL) replyCount}
    (carried : attended.state.system.Carried)
    (fits : Fits attended.state.system call attended.handle)
    (moves : List (Move (TeardownAction router)))
    : Fits (attended.teardown call moves).state.system call
        (attended.teardown call moves).handle := by
  induction moves generalizing attended with
  | nil => exact fits
  | cons move rest ih =>
      cases move with
      | router action =>
          have releases := Teardown.releases_step carried action
          exact ih (releases.carried carried) (fits.releases releases)
      | tryRecv => exact ih carried (fits.step (Or.inl rfl))
      | wait => exact ih carried (fits.step (Or.inr (Or.inl rfl)))
      | recv => exact ih carried (fits.step (Or.inr (Or.inr rfl)))

end Attended

namespace Teardown
open Attended

/-- No client hangs on a dropped router. From the moment its call returned, the client polls and
waits while the router goes on and is dropped. Once the drop has returned, `wait` returns, with an
error exactly if a message of the call was not answered. By induction over the moves of client,
router and drop, which keep the handle in step with its channels.
-/
theorem drop_ends_waits (actions : List (Action router SL EL)) (call : Nat)
    (issued
      : ∀ rx : Fin replyCount, ∃ worker,
          ((System.new : System router SL EL).run actions).SentTo worker ⟨call, rx⟩)
    (fresh : handle = .ofApply replyCount ∨ handle = .ofAdvance replyCount)
    {moves : List (Move (Action router SL EL))} {receiving : Fin router.workerCount → Bool}
    (inRecv
      : ∀ worker, receiving worker = true →
        (((issue (System.new.run actions) call handle).serve call moves).state.workers
          worker).Free)
    {drops : List (Move (TeardownAction router))}
    (returned
      : ((((issue (System.new.run actions) call handle).serve call moves).drop receiving).teardown
          call drops).state.Returned)
    {earlier later : List (HandleAction replyCount)}
    (waits : .wait ∈ moves ∨ .wait ∈ drops ∨ .wait ∈ earlier)
    (enough : replyCount < later.count .recv)
    : let after :=
        (((issue (System.new.run actions) call handle).serve call moves).drop receiving).teardown
          call drops
      ((after.handle.run (earlier ++ later)).client = .returned (.ok ())
        ∧ ∀ rx : Fin replyCount, after.state.system.replyAt ⟨call, rx⟩ ≠ none)
      ∨ ((after.handle.run (earlier ++ later)).client = .returned (.error .workerDropped)
        ∧ ∃ rx : Fin replyCount, after.state.system.replyAt ⟨call, rx⟩ = none) := by
  intro after
  let before := (issue (System.new.run actions) call handle).serve call moves
  have reached
      : before.state = System.new.run (actions ++ moves.filterMap Move.action?) := by
    rw [System.run, Transducer.final_append]
    exact state_run ..
  have carried : before.state.Carried := reached ▸ System.run_carried _
  have served : Fits before.state call before.handle :=
    fits_serve (System.run_carried actions) issued (fits_new fresh) moves
  have fits : Fits after.state.system call after.handle := fits_teardown carried served drops
  have sound : after.state.Sound := by
    have free := reached ▸ System.run_free_of_stopped (actions ++ moves.filterMap Move.action?)
    have last : after.state = (start before.state receiving).run (drops.filterMap Move.action?) :=
      state_run ..
    rw [last]
    exact (sound_start free inRecv).run _
  have waiting : (after.handle.run earlier).client.Waits := by
    rw [HandleState.run_waits]
    rcases waits with early | during | late
    · exact Or.inl (waits_run _ (Or.inl (waits_run _ (Or.inr early))))
    · exact Or.inl (waits_run _ (Or.inr during))
    · exact Or.inr late
  exact fits.wait_returns (fits.dropped_of_returned sound returned) waiting enough

/-- The worker answers the first event and sees its flag before it takes the second one, whose
handle polls before the drop and again during it, and then waits.
-/
theorem drop_ends_waits_second_event
    : let router : Router := ⟨1, by decide, fun _ => 0, 1000, 60⟩
      let worker : Fin router.workerCount := ⟨0, by decide⟩
      let actions : List (Action router TestSnapshot TestEvent) :=
        [.sendEvent (.positive 1 5 10 1), .enqueue 0, .sendEvent (.positive 1 6 11 1), .enqueue 1]
      let moves : List (Move (Action router TestSnapshot TestEvent)) := [.tryRecv]
      let drops : List (Move (TeardownAction router)) :=
        [.router (.check worker false), .router (.receive worker), .router .drop, .tryRecv,
          .router (.commit worker), .router (.commit worker), .router (.respond worker), .wait,
          .router (.check worker false), .recv, .router .drop, .router .drop]
      let handle : HandleState 1 := .ofApply 1
      ((((((issue (System.new.run actions) 1 handle).serve 1 moves).drop (fun _ => false)).teardown
          1 drops).handle).run ([] ++ [.recv, .recv])).client
        = .returned (.error .workerDropped) := by
  intro router worker actions moves drops handle
  have issued (rx : Fin 1)
      : ∃ worker,
          ((System.new : System router TestSnapshot TestEvent).run actions).SentTo worker
            ⟨1, rx⟩ := by
    obtain rfl : rx = 0 := Subsingleton.elim ..
    exact ⟨worker, _, _, rfl, rfl, by decide⟩
  have idle (worker : Fin router.workerCount)
      (inRecv : (fun _ : Fin router.workerCount => false) worker = true)
      : (((issue ((System.new : System router TestSnapshot TestEvent).run actions) 1 handle).serve
          1 moves).state.workers worker).Free := by
    cases inRecv
  have returned
      : ((((issue ((System.new : System router TestSnapshot TestEvent).run actions) 1
          handle).serve 1 moves).drop (fun _ => false)).teardown 1 drops).state.Returned := by
    decide
  have lost
      : ((((issue ((System.new : System router TestSnapshot TestEvent).run actions) 1
            handle).serve 1 moves).drop (fun _ => false)).teardown 1
          drops).state.system.replyAt ⟨1, (0 : Fin 1).val⟩ = none := by
    decide
  have waits
      : Move.wait ∈ moves ∨ Move.wait ∈ drops
        ∨ HandleAction.wait ∈ ([] : List (HandleAction 1)) := by
    simp [drops]
  have enough : 1 < ([.recv, .recv] : List (HandleAction 1)).count .recv := by decide
  obtain ⟨_, answered⟩ | ⟨fails, _⟩ :=
    drop_ends_waits actions 1 issued (Or.inl (Eq.refl handle)) idle returned waits enough
  · exact absurd lost (answered 0)
  · exact fails

end Teardown

end Contime
