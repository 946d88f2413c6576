import Contime.System.Settling
import Contime.Worker.Inputs
import Contime.History.QuerySafety

/-! Runs in which no query can end a worker. A query panics only at a key that an input of its id
has brought in. As long as no client asks for such a time, no worker ends, and every call completes
unless it was turned away at the memory budget.
-/

namespace Contime

universe u v
variable {SL : Type u} {EL : Type v} [Event EL] [Snapshot SL EL] {router : Router}

/-- The key that a call may bring to the history of an id. -/
def Action.keyFor [EventLanes EL SL] (snapshotId : SnapshotId)
    : Action router SL EL → Option ContimeKey
  | .sendEvent lane =>
      if ∃ target ∈ (EventLanes.snapshots lane : List SL), Snapshot.id target = snapshotId then
        some (ContimeKey.fromEvent lane)
      else none
  | .sendSnapshot lane =>
      if Snapshot.id lane = snapshotId then some ⟨Snapshot.time lane, snapshotId⟩ else none
  | .queryAt _ _ | .sendAdvance _ | .enqueue _ | .handle _ _ | .commit _ | .respond _ => none

/-- No query asks for the key of an input of its id. -/
def Apart [EventLanes EL SL] (actions : List (Action router SL EL)) : Prop :=
  ∀ time snapshotId, .queryAt time snapshotId ∈ actions
  → ∀ action ∈ actions, action.keyFor snapshotId ≠ some ⟨time, snapshotId⟩

/-- Steps that start no call neither bring a key nor ask for one. -/
theorem Apart.append_serves [EventLanes EL SL] {actions steps : List (Action router SL EL)}
    (apart : Apart actions) (serves : ∀ action ∈ steps, action.Serves)
    : Apart (actions ++ steps) := by
  intro time snapshotId demanded action member
  rcases List.mem_append.mp demanded with asked | served
  · rcases List.mem_append.mp member with old | step
    · exact apart time snapshotId asked action old
    · have none : action.keyFor snapshotId = none := by
        have starts := serves action step
        cases action with
        | sendEvent | sendSnapshot => exact starts.elim
        | queryAt | sendAdvance | enqueue | handle | commit | respond => rfl
      rw [none]
      exact (Option.some_ne_none _).symm
  · exact (serves _ served).elim

variable [ApplyEvent EL SL] {asked : Time → SnapshotId → Prop}

-----------------------------------------------------------------------------------------
-- Workers
-----------------------------------------------------------------------------------------

/-- A history of the id whose keys are none that is asked for. -/
structure LocalSnapshotHistory.Unasked (asked : Time → SnapshotId → Prop)
    (snapshotId : SnapshotId) (history : LocalSnapshotHistory SL EL)
    : Prop where
  own : history.snapshotId = snapshotId
  apart : ∀ time, asked time snapshotId → ¬ history.InUse ⟨time, snapshotId⟩

/-- An input of the id whose key is none that is asked for. -/
structure Input.Unasked (asked : Time → SnapshotId → Prop) (snapshotId : SnapshotId)
    (input : Input SL EL)
    : Prop where
  own : ∀ snapshot, input.origin = some snapshot → Snapshot.id snapshot = snapshotId
  apart : ∀ time, asked time snapshotId → input.operation.key snapshotId ≠ some ⟨time, snapshotId⟩

namespace LocalSnapshotHistory.Unasked
variable {snapshotId : SnapshotId} {history : LocalSnapshotHistory SL EL}

omit [Event EL] [ApplyEvent EL SL] in
/-- A new history has no keys. -/
theorem new {snapshot : SL} (own : Snapshot.id snapshot = snapshotId) (currentTime delta : Time)
    : (LocalSnapshotHistory.new (E := EL) snapshot currentTime delta).1.Unasked asked snapshotId
    where
  own := own
  apart _ _ used := used.elim (absurd · List.not_mem_nil) (absurd · List.not_mem_nil)

theorem perform (unasked : history.Unasked asked snapshotId) {operation : Operation SL EL}
    (apart
      : ∀ time, asked time snapshotId → operation.key snapshotId ≠ some ⟨time, snapshotId⟩)
    : (history.perform operation).1.Unasked asked snapshotId where
  own := (perform_snapshotId history operation).trans unasked.own
  apart time demanded used := by
    rcases inUse_perform used with earlier | brought
    · exact unasked.apart time demanded earlier
    · exact apart time demanded (unasked.own ▸ brought)

/-- Such inputs make such histories. -/
theorem take {delta : Time} {current : Option (LocalSnapshotHistory SL EL)}
    (before : ∀ history, current = some history → history.Unasked asked snapshotId)
    {input : Input SL EL} (unasked : input.Unasked asked snapshotId)
    (taken : input.take delta current = some history)
    : history.Unasked asked snapshotId := by
  cases current with
  | some earlier =>
      rw [Input.take_some] at taken
      obtain rfl := Option.some.inj taken
      exact (before earlier rfl).perform unasked.apart
  | none =>
      cases input with
      | event lane initial =>
          obtain rfl := Option.some.inj taken
          have performed := (new (unasked.own initial rfl) 0 delta).perform unasked.apart
          exact performed
      | snapshot lane =>
          obtain rfl := Option.some.inj taken
          exact new (unasked.own lane rfl) 0 delta
      | advance time => cases taken

omit [Event EL] in
/-- A query that is asked for finds a result. -/
theorem snapshotAt_isSome (unasked : history.Unasked asked snapshotId) {time : Time}
    (demanded : asked time snapshotId)
    : ∃ snapshot, history.snapshotAt time = some snapshot := by
  refine ⟨_, snapshotAt_eq (fun present => ?_)⟩
  have key : history.queryKey time = ⟨time, snapshotId⟩ :=
    congrArg (ContimeKey.mk time) unasked.own
  exact unasked.apart time demanded (Or.inr (key ▸ present))

end LocalSnapshotHistory.Unasked

/-- A message of a call that brings no key that is asked for, or asks for one that is. -/
structure WorkerInbound.Harmless (asked : Time → SnapshotId → Prop) (channel : ReplyChannel)
    (message : WorkerInbound SL EL)
    : Prop where
  answers : message.reply = some channel
  brings
    : ∀ snapshotId input, message.inputFor snapshotId = some input
      → input.Unasked asked snapshotId
  asks
    : ∀ snapshotId time reply, message = .snapshotAt snapshotId time reply
      → asked time snapshotId

/-- A call that brings no key that is asked for, or asks for one that is. -/
structure Action.Harmless [EventLanes EL SL] (asked : Time → SnapshotId → Prop)
    (action : Action router SL EL)
    : Prop where
  apart
    : ∀ time snapshotId, asked time snapshotId
      → action.keyFor snapshotId ≠ some ⟨time, snapshotId⟩
  asks : ∀ time snapshotId, action = .queryAt time snapshotId → asked time snapshotId

namespace System
variable {system : System router SL EL}

/-- Workers whose histories have none of the keys that are asked for. -/
def unasked (router : Router) (SL : Type u) (EL : Type v) [Event EL] [Snapshot SL EL]
    [ApplyEvent EL SL] (asked : Time → SnapshotId → Prop)
    : Service router SL EL where
  Genuine channel _ message := message.Harmless asked channel
  Keeps _ historyById :=
    ∀ snapshotId history, historyById.get? snapshotId = some history
    → history.Unasked asked snapshotId
  Answered _ _ _ := True
  serves {channel worker message historyById} harmless keeps := by
    have takes : ∃ handled,
        handleWorker router.lowerTimeHorizonDelta historyById message = some handled := by
      cases message with
      | event | snapshot | advanceTime => exact ⟨_, rfl⟩
      | shutdown => cases harmless.answers
      | snapshotAt target time reply =>
          have demanded := harmless.asks target time reply rfl
          cases found : historyById.get? target with
          | none => exact ⟨_, by rw [handleWorker, found]⟩
          | some history =>
              obtain ⟨snapshot, answer⟩ := (keeps target history found).snapshotAt_isSome demanded
              exact ⟨_, by rw [handleWorker, found]; simp only [answer, Option.map_some]; rfl⟩
    obtain ⟨handled, shape⟩ := takes
    have answers := reply_handleWorker shape
    rw [harmless.answers] at answers
    refine ⟨handled, shape, (Option.some.inj answers).symm, ?_, trivial, fun _ _ _ => trivial⟩
    intro snapshotId history found
    rw [get?_handleWorker shape, ownHistory_eq_take] at found
    cases input : message.inputFor snapshotId with
    | none =>
        rw [input] at found
        exact keeps snapshotId history found
    | some brought =>
        rw [input] at found
        exact .take (keeps snapshotId) (harmless.brings snapshotId brought input) found

-----------------------------------------------------------------------------------------
-- Runs
-----------------------------------------------------------------------------------------

variable [EventLanes EL SL]

/-- Harmless calls and all steps that start none keep the workers' histories apart from the queries.
-/
theorem Serving.harmless (serving : Serving (unasked router SL EL asked) system)
    {action : Action router SL EL} (harmless : action.Harmless asked)
    : Serving (unasked router SL EL asked) (system.step action).1 := by
  cases action with
  | enqueue | handle | commit | respond => exact serving.step trivial
  | sendEvent lane =>
      refine serving.startEvent (fun channel initial listed =>
        ⟨rfl, ?_, fun _ _ _ same => by cases same⟩)
      intro snapshotId input brought
      obtain ⟨own, same⟩ := Option.ite_none_right_eq_some.mp brought
      obtain rfl := Option.some.inj same
      refine ⟨fun snapshot origin => ?_, fun time demanded same => ?_⟩
      · exact Option.some.inj origin ▸ own
      · refine harmless.apart time snapshotId demanded ?_
        rw [Action.keyFor, if_pos ⟨initial, listed, own⟩]
        exact same
  | sendSnapshot lane =>
      obtain ⟨call, shape, accepted⟩ := accept_calls system (Snapshot.conservativeSize lane) _
      refine shape.symm ▸ ?_
      rcases accepted with rfl | rfl
      · exact serving.rejected .memoryFull
      · refine serving.single ⟨rfl, ?_, fun _ _ _ same => by cases same⟩
        intro snapshotId input brought
        obtain ⟨own, same⟩ := Option.ite_none_right_eq_some.mp brought
        obtain rfl := Option.some.inj same
        refine ⟨fun snapshot origin => ?_, fun time demanded same => ?_⟩
        · exact Option.some.inj origin ▸ own
        · refine harmless.apart time snapshotId demanded ?_
          exact same
  | queryAt time snapshotId =>
      refine serving.single ⟨rfl, fun _ _ brought => (by cases brought), ?_⟩
      intro target instant reply same
      cases same
      exact harmless.asks time snapshotId rfl
  | sendAdvance time =>
      refine serving.start rfl rfl (by simp [Call.open]) ?_
      intro position worker message found
      simp only [Call.open, List.getElem?_map, Option.map_eq_some_iff] at found
      obtain ⟨other, present, equal⟩ := found
      obtain ⟨rfl, rfl⟩ := Prod.mk.inj equal
      obtain ⟨inside, listed⟩ := List.getElem?_eq_some_iff.mp present
      have place : other.val = position := by
        rw [← listed, List.getElem_finRange]
        rfl
      refine ⟨place ▸ rfl, fun snapshotId input brought => ?_, fun _ _ _ same => by cases same⟩
      obtain rfl := Option.some.inj brought
      exact ⟨fun _ origin => (by cases origin), fun _ _ => (Option.some_ne_none _).symm⟩

/-- While no worker ends, no call fails but at the memory budget. -/
theorem Serving.errors_step {service : Service router SL EL} (serving : Serving service system)
    (errors : ∀ call ∈ system.calls, call.error ≠ some .error) (action : Action router SL EL)
    : ∀ call ∈ (system.step action).1.calls, call.error ≠ some .error := by
  have started {opened : Call router SL EL} {after : System router SL EL}
      (calls : after.calls = system.calls ++ [opened]) (fine : opened.error ≠ some .error)
      : ∀ call ∈ after.calls, call.error ≠ some .error := by
    intro call member
    rw [calls] at member
    rcases List.mem_append.mp member with old | last
    · exact errors call old
    · exact List.mem_singleton.mp last ▸ fine
  have accepted (size : UInt64) (messages : List (Fin router.workerCount × WorkerInbound SL EL))
      : ∀ call ∈ (system.accept size (.open messages)).1.calls, call.error ≠ some .error := by
    obtain ⟨call, shape, rfl | rfl⟩ := accept_calls system size (.open messages)
    · exact started (congrArg System.calls shape) (by simp [Call.rejected])
    · exact started (congrArg System.calls shape) (by simp [Call.open])
  have still (same : (system.step action).1.calls.map Call.error = system.calls.map Call.error)
      : ∀ call ∈ (system.step action).1.calls, call.error ≠ some .error := by
    intro call member
    have listed : call.error ∈ system.calls.map Call.error :=
      same ▸ List.mem_map_of_mem member
    obtain ⟨old, found, equal⟩ := List.mem_map.mp listed
    exact equal ▸ errors old found
  cases action with
  | sendEvent lane => exact accepted _ _
  | sendSnapshot lane => exact accepted _ _
  | queryAt time snapshotId => exact started rfl (by simp [Call.open])
  | sendAdvance time => exact started rfl (by simp [Call.open])
  | handle worker visits => exact still (by rw [System.step, calls_handle])
  | commit worker => exact still (by rw [System.step, calls_commit])
  | enqueue index =>
      refine still ?_
      rw [System.step]
      rcases system.enqueue_cases index with
        same | ⟨call, worker, message, _, _, _, ⟨stopped, _⟩ | ⟨_, _, sends⟩⟩
      · rw [same]
      · rw [serving.running worker] at stopped
        cases stopped
      · rw [sends]
        refine map_modify ?_ system.calls index
        exact fun _ => rfl
  | respond worker =>
      refine still ?_
      rw [System.step]
      rcases system.respond_cases worker with same | ⟨_, _, _, _, responds⟩
      · rw [same]
      · rw [responds]
        refine map_modify ?_ system.calls _
        exact fun _ => rfl

/-- In a run whose queries are apart from its inputs no worker ends, and no call fails but at the
memory budget.
-/
theorem run_apart {actions : List (Action router SL EL)} (apart : Apart actions)
    : (∀ worker, (((new : System router SL EL).run actions).workers worker).stopped = false)
      ∧ ∀ call ∈ ((new : System router SL EL).run actions).calls, call.error ≠ some .error := by
  let asked (time : Time) (snapshotId : SnapshotId) : Prop :=
    .queryAt time snapshotId ∈ actions
  have kept (system : System router SL EL) (action : Action router SL EL)
      (harmless : action.Harmless asked)
      (holds : Serving (unasked router SL EL asked) system
        ∧ ∀ call ∈ system.calls, call.error ≠ some .error)
      : Serving (unasked router SL EL asked) (system.step action).1
        ∧ ∀ call ∈ (system.step action).1.calls, call.error ≠ some .error :=
    ⟨holds.1.harmless harmless, holds.1.errors_step holds.2 action⟩
  have harmless (action : Action router SL EL) (member : action ∈ actions)
      : action.Harmless asked :=
    ⟨fun time snapshotId demanded => apart time snapshotId demanded action member,
      fun time snapshotId same => show .queryAt time snapshotId ∈ actions from same ▸ member⟩
  have first : Serving (unasked router SL EL asked) new
      ∧ ∀ call ∈ (new : System router SL EL).calls, call.error ≠ some .error :=
    ⟨serving_new (fun _ _ _ found => absurd found (Option.some_ne_none _).symm),
      fun _ member => absurd member List.not_mem_nil⟩
  obtain ⟨serving, errors⟩ :=
    Transducer.Each.invariant kept first (Transducer.each_of_forall harmless)
  exact ⟨serving.running, errors⟩

/-- As long as no client asks for the key of an input of the id, no worker ends and every call
comes to an end in every schedule: it completes, unless it was turned away at the memory budget.
By induction over the run, no checkpoint lies at an asked key; and by the rank of the calls.
-/
theorem calls_complete {actions : List (Action router SL EL)} (apart : Apart actions)
    (schedule : Nat → Action router SL EL) (serves : ∀ count, (schedule count).Serves)
    : let after (count : Nat) : System router SL EL :=
        ((new : System router SL EL).run actions).run ((List.range count).map schedule)
      (∃ count, ((after count).step (schedule count)).2 = false)
      ∧ ∀ count, (∀ worker, ((after count).workers worker).stopped = false)
        ∧ ((after count).Stuck → ∀ call ∈ (after count).calls,
          call.error = some .memoryFull ∨ call.Completed) := by
  intro after
  refine ⟨serving_ends (new.run actions) serves, fun count => ?_⟩
  have joined : after count
      = (new : System router SL EL).run (actions ++ (List.range count).map schedule) :=
    (Transducer.final_append _ _ _).symm
  have all : ∀ action ∈ (List.range count).map schedule, action.Serves := by
    intro action member
    obtain ⟨position, _, rfl⟩ := List.mem_map.mp member
    exact serves position
  obtain ⟨running, errors⟩ := run_apart (apart.append_serves all)
  rw [joined]
  refine ⟨running, fun stuck call member => ?_⟩
  obtain ⟨index, found⟩ := List.mem_iff_getElem?.mp member
  rcases stuck.settled found with failed | completed | ⟨_, worker, _, _, stopped, _⟩
  · left
    obtain ⟨reason, error⟩ := Option.ne_none_iff_exists'.mp failed
    cases reason with
    | memoryFull => exact error
    | error => exact absurd error (errors call member)
  · exact Or.inr completed
  · rw [running worker] at stopped
    cases stopped

/-- A snapshot and an event of an id are sent while a query asks for a time between them. -/
theorem calls_complete_between_inputs
    : let router : Router := ⟨1, by decide, fun _ => 0, 1000, 60⟩
      let worker : Fin router.workerCount := ⟨0, by decide⟩
      let actions : List (Action router TestSnapshot TestEvent) :=
        [.sendSnapshot ⟨1, 3, [], 7⟩, .sendEvent (.positive 1 5 10 1), .queryAt 4 1]
      let schedule (count : Nat) : Action router TestSnapshot TestEvent :=
        [.enqueue 1, .enqueue 0, .enqueue 2, .handle worker, .commit worker, .commit worker,
          .respond worker, .handle worker, .commit worker, .respond worker,
          .handle worker].getD count (.respond worker)
      (∃ count,
        (((new.run actions).run ((List.range count).map schedule)).step (schedule count)).2 = false)
      ∧ ∀ count,
        (∀ other,
          (((new.run actions).run ((List.range count).map schedule)).workers other).stopped = false)
        ∧ (((new.run actions).run ((List.range count).map schedule)).Stuck
          → ∀ call ∈ ((new.run actions).run ((List.range count).map schedule)).calls,
            call.error = some .memoryFull ∨ call.Completed) := by
  intro router worker actions schedule
  have serves (count : Nat) : (schedule count).Serves := by
    match count with
    | 0 | 1 | 2 | 3 | 4 | 5 | 6 | 7 | 8 | 9 | 10 | _ + 11 => trivial
  have apart : Apart actions := by
    intro time snapshotId asked
    obtain ⟨rfl, rfl⟩ : time = 4 ∧ snapshotId = 1 := by simpa [actions] using asked
    simp only [actions, List.forall_mem_cons]
    decide
  exact calls_complete apart schedule serves

end System

end Contime
