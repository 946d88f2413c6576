import Contime.History.Chronicles
import Contime.System.Linearization

/-! The whole service as a log for each id. What clients read, in any interleaving of their calls
and the workers, is what an abstract store reads off the chronicle of the inputs that were sent
before.
-/

open PeriodicReplay

namespace Contime

universe u v
variable {SL : Type u} {EL : Type v} [Event EL] [Snapshot SL EL] [ApplyEvent EL SL]
  {router : Router}

-----------------------------------------------------------------------------------------
-- The log of an id
-----------------------------------------------------------------------------------------

/-- The snapshot that the history of an id starts from, and the operations on it since. -/
structure Log (SL : Type u) (EL : Type v) where
  base : SL
  operations : List (Operation SL EL)

omit [Event EL] [Snapshot SL EL] [ApplyEvent EL SL] in
/-- The log that the inputs of an id leave: an event or a snapshot starts it, where a snapshot
is its base and no operation, and an advance before it is lost.
-/
def Input.log : List (Input SL EL) → Option (Log SL EL)
  | [] => none
  | .advance _ :: rest => log rest
  | .event lane initial :: rest =>
      some { base := initial, operations := .applyEvent lane :: rest.map operation }
  | .snapshot lane :: rest => some { base := lane, operations := rest.map operation }

namespace Log

/-- The history that performs the operations of a log. -/
def history (delta : Time) (log : Log SL EL) : LocalSnapshotHistory SL EL :=
  (LocalSnapshotHistory.newWithInterval log.base 0 delta CHECKPOINT_INTERVAL
    (Nat.succ_pos _)).run log.operations

/-- What an abstract store answers: the state and the events that the chronicle of the log shows
before the query, replayed.
-/
def answer (delta : Time) (log : Log SL EL) (time : Time) : SL :=
  let view :=
    (chronicle log.base 0 delta CHECKPOINT_INTERVAL log.operations).visible CHECKPOINT_INTERVAL
      ⟨time, Snapshot.id log.base⟩
  Snapshot.setTime (settledReplay CHECKPOINT_INTERVAL view.1 view.2) time

/-- The history of a log answers as the abstract store. -/
theorem history_snapshotAt {delta : Time} {log : Log SL EL} {time : Time}
    (untouched
      : ∀ operation ∈ log.operations,
          operation.key (Snapshot.id log.base) ≠ some ⟨time, Snapshot.id log.base⟩)
    : (log.history delta).snapshotAt time = some (log.answer delta time) :=
  LocalSnapshotHistory.run_snapshotAt_eq log.base 0 delta CHECKPOINT_INTERVAL (Nat.succ_pos _)
    untouched

end Log

namespace Input
variable {delta : Time} {inputs : List (Input SL EL)}

/-- Inputs on a history that is there already are operations on it. -/
theorem foldl_take_some (inputs : List (Input SL EL)) (history : LocalSnapshotHistory SL EL)
    : inputs.foldl (take delta) (some history) = some (history.run (inputs.map operation)) := by
  induction inputs generalizing history with
  | nil => rfl
  | cons input rest ih =>
      rw [List.foldl_cons, take_some, ih]
      rfl

/-- The inputs of an id make the history of their log. -/
theorem foldl_take_none (inputs : List (Input SL EL))
    : inputs.foldl (take delta) none = (log inputs).map (Log.history delta) := by
  induction inputs with
  | nil => rfl
  | cons input rest ih =>
      cases input with
      | advance time => exact ih
      | event lane initial => exact foldl_take_some rest _
      | snapshot lane => exact foldl_take_some rest _

omit [Event EL] [ApplyEvent EL SL] [Snapshot SL EL] in
/-- The base of a log comes with one of the inputs. -/
theorem exists_origin {inputs : List (Input SL EL)} {made : Log SL EL}
    (found : log inputs = some made)
    : ∃ input ∈ inputs, input.origin = some made.base := by
  induction inputs with
  | nil => cases found
  | cons input rest ih =>
      cases input with
      | advance time =>
          obtain ⟨other, member, origin⟩ := ih found
          exact ⟨other, .tail _ member, origin⟩
      | event lane initial =>
          obtain rfl := Option.some.inj found
          exact ⟨_, .head _, rfl⟩
      | snapshot lane =>
          obtain rfl := Option.some.inj found
          exact ⟨_, .head _, rfl⟩

omit [Event EL] [ApplyEvent EL SL] [Snapshot SL EL] in
/-- Every event among the inputs is an operation of their log. -/
theorem exists_log {inputs : List (Input SL EL)} {lane : EL} {initial : SL}
    (member : .event lane initial ∈ inputs)
    : ∃ made, log inputs = some made ∧ .applyEvent lane ∈ made.operations := by
  have later {rest : List (Input SL EL)} (within : .event lane initial ∈ rest)
      : .applyEvent lane ∈ rest.map operation :=
    List.mem_map.mpr ⟨_, within, rfl⟩
  induction inputs with
  | nil => cases member
  | cons input rest ih =>
      cases input with
      | advance time =>
          rcases List.mem_cons.mp member with same | within
          · cases same
          · exact ih within
      | event other first =>
          refine ⟨_, rfl, ?_⟩
          rcases List.mem_cons.mp member with same | within
          · cases same
            exact .head _
          · exact .tail _ (later within)
      | snapshot other =>
          refine ⟨_, rfl, ?_⟩
          rcases List.mem_cons.mp member with same | within
          · cases same
          · exact later within

end Input

-----------------------------------------------------------------------------------------
-- What is sent
-----------------------------------------------------------------------------------------

omit [Event EL] [ApplyEvent EL SL] in
/-- The message starts a history only from a snapshot of its id. -/
def WorkerInbound.Titled (message : WorkerInbound SL EL) : Prop :=
  ∀ snapshotId input, message.inputFor snapshotId = some input
  → ∀ snapshot, input.origin = some snapshot → Snapshot.id snapshot = snapshotId

namespace System
variable [EventLanes EL SL] {system : System router SL EL}

/-- A call starts histories only from snapshots of their ids. -/
theorem step_titled (system : System router SL EL) {action : Action router SL EL}
    (starts : ¬ action.Serves)
    : ∃ call,
        (system.step action).1.calls = system.calls ++ [call]
        ∧ ∀ entry ∈ call.messages, entry.2.Titled := by
  have accepted (size : UInt64) {messages : List (Fin router.workerCount × WorkerInbound SL EL)}
      (titled : ∀ entry ∈ messages, entry.2.Titled)
      : ∃ call,
          (system.accept size (.open messages)).1.calls = system.calls ++ [call]
          ∧ ∀ entry ∈ call.messages, entry.2.Titled := by
    obtain ⟨call, shape, turned⟩ := system.accept_calls size (.open messages)
    refine ⟨call, congrArg System.calls shape, ?_⟩
    rcases turned with rfl | rfl
    · exact fun _ member => absurd member List.not_mem_nil
    · exact titled
  cases action with
  | enqueue | handle | commit | respond => exact (starts trivial).elim
  | sendEvent lane =>
      refine accepted _ (fun entry member => ?_)
      obtain ⟨position, inside, rfl⟩ := List.mem_mapIdx.mp member
      intro snapshotId input brought snapshot origin
      obtain ⟨own, same⟩ := Option.ite_none_right_eq_some.mp brought
      obtain rfl := Option.some.inj same
      exact Option.some.inj origin ▸ own
  | sendSnapshot lane =>
      refine accepted _ (fun entry member => ?_)
      obtain rfl := List.mem_singleton.mp member
      intro snapshotId input brought snapshot origin
      obtain ⟨own, same⟩ := Option.ite_none_right_eq_some.mp brought
      obtain rfl := Option.some.inj same
      exact Option.some.inj origin ▸ own
  | queryAt time target =>
      refine ⟨_, rfl, fun entry member => ?_⟩
      obtain rfl := List.mem_singleton.mp member
      intro snapshotId input brought
      cases brought
  | sendAdvance time =>
      refine ⟨_, rfl, fun entry member => ?_⟩
      obtain ⟨worker, _, rfl⟩ := List.mem_map.mp member
      intro snapshotId input brought snapshot origin
      obtain rfl := Option.some.inj brought
      cases origin

/-- What a run sends starts histories only from snapshots of their ids. -/
theorem sent_titled (actions : List (Action router SL EL))
    : ∀ entry ∈ sent actions, entry.2.Titled :=
  sent_forall (fun system _ _ starts => system.step_titled starts)

-----------------------------------------------------------------------------------------
-- What is read
-----------------------------------------------------------------------------------------

/-- The log that the messages sent in a run leave of an id. -/
def logOf (snapshotId : SnapshotId) (actions : List (Action router SL EL)) : Option (Log SL EL) :=
  Input.log (inputsOf snapshotId (sent actions))

/-- The log of an id starts from a snapshot of the id. -/
theorem logOf_base {actions : List (Action router SL EL)} {snapshotId : SnapshotId}
    {log : Log SL EL} (made : logOf snapshotId actions = some log)
    : Snapshot.id log.base = snapshotId := by
  obtain ⟨input, member, origin⟩ := Input.exists_origin made
  obtain ⟨entry, sends, brought⟩ := List.mem_filterMap.mp member
  obtain ⟨_, own⟩ := Option.ite_none_right_eq_some.mp brought
  exact sent_titled actions entry sends snapshotId input own log.base origin

/-- What clients read is what an abstract store reads off the logs: in any interleaving of clients
and workers, a query finds nothing exactly if no event or snapshot of its id was sent before its
own message, and otherwise, at a time that no operation of the id's log has, the state that the
chronicle of the log shows before it. The log holds every event of the calls that have completed
before the query starts. By linearization, and the chronicle of each log.
-/
theorem queries_read_logs {actions : List (Action router SL EL)} {index : Nat}
    {result : QueryResult SL}
    (answered : ((new : System router SL EL).run actions).replyAt ⟨index, 0⟩
      = some (.queried result))
    : ∃ before time snapshotId between after,
        actions = before ++ .queryAt time snapshotId :: (between ++ .enqueue index :: after)
        ∧ ((new : System router SL EL).run before).calls.length = index
        ∧ (result = .notFound
          ↔ logOf snapshotId (before ++ .queryAt time snapshotId :: between) = none)
        ∧ (∀ log, logOf snapshotId (before ++ .queryAt time snapshotId :: between) = some log
          → (∀ operation ∈ log.operations,
              operation.key snapshotId ≠ some ⟨time, snapshotId⟩)
          → result = .found (log.answer router.lowerTimeHorizonDelta time))
        ∧ ∀ call ∈ ((new : System router SL EL).run before).calls, call.Completed
          → ∀ lane initial reply,
            (router.workerIndex snapshotId, .event snapshotId lane initial reply) ∈ call.messages
            → ∃ log,
              logOf snapshotId (before ++ .queryAt time snapshotId :: between) = some log
              ∧ .applyEvent lane ∈ log.operations := by
  obtain ⟨before, time, snapshotId, between, after, same, opened, _, answer⟩ :=
    run_answered answered
  rw [answerBehind, Input.foldl_take_none] at answer
  refine ⟨before, time, snapshotId, between, after, same, opened, ?_, fun log made => ?_, ?_⟩
  · rw [logOf]
    cases made : Input.log
        (inputsOf snapshotId (sent (before ++ .queryAt time snapshotId :: between))) with
    | none =>
        rw [made] at answer
        exact iff_of_true (Option.some.inj answer).symm rfl
    | some log =>
        rw [made] at answer
        obtain ⟨snapshot, _, rfl⟩ := Option.map_eq_some_iff.mp answer
        exact iff_of_false (fun absent => by cases absent) (Option.some_ne_none _)
  · intro untouched
    have own := logOf_base made
    rw [logOf] at made
    rw [made] at answer
    have found : (log.history router.lowerTimeHorizonDelta).snapshotAt time
        = some (log.answer router.lowerTimeHorizonDelta time) :=
      Log.history_snapshotAt (own.symm ▸ untouched)
    obtain ⟨snapshot, shows, rfl⟩ := Option.map_eq_some_iff.mp answer
    exact congrArg QueryResult.found (Option.some.inj (shows.symm.trans found))
  · intro call member completed lane initial reply listed
    have sends := run_completed before (.queryAt time snapshotId :: between) member completed listed
    have brought : .event lane initial
        ∈ inputsOf snapshotId (sent (before ++ .queryAt time snapshotId :: between)) :=
      List.mem_filterMap.mpr ⟨_, sends, by simp [WorkerInbound.inputFor]⟩
    exact Input.exists_log brought

/-- An event that overtakes the query is in the log that the query reads. -/
theorem queries_read_logs_overtaking_event
    : let router : Router := ⟨1, by decide, fun _ => 0, 1000, 60⟩
      let actions : List (Action router TestSnapshot TestEvent) :=
        [.queryAt 9 1, .sendEvent (.positive 1 5 10 1), .enqueue 1, .enqueue 0, .handle 0,
          .commit 0, .commit 0, .respond 0, .handle 0, .respond 0]
      ∃ before time snapshotId between after log,
        actions = before ++ .queryAt time snapshotId :: (between ++ .enqueue 0 :: after)
        ∧ logOf snapshotId (before ++ .queryAt time snapshotId :: between) = some log := by
  intro router actions
  have answered : ((new : System router TestSnapshot TestEvent).run actions).replyAt ⟨0, 0⟩
      = some (.queried (.found ⟨1, 9, [1], 1⟩)) := by decide
  obtain ⟨before, time, snapshotId, between, after, same, _, absent, _⟩ :=
    queries_read_logs answered
  have present : logOf snapshotId (before ++ .queryAt time snapshotId :: between) ≠ none :=
    fun none => by cases absent.mpr none
  obtain ⟨log, made⟩ := Option.ne_none_iff_exists'.mp present
  exact ⟨before, time, snapshotId, between, after, log, same, made⟩

end System

end Contime
