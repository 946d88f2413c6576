import Contime.System.Deliveries
import Contime.System.Progress
import Contime.History.QueryMeaning

/-! The number of workers, the hash and the schedule leave no trace in the answers of a system
that has delivered a set of events.
-/

namespace Contime

universe u v
variable {SL : Type u} {EL : Type v} [Event EL] [Snapshot SL EL] [ApplyEvent EL SL]
  [EventLanes EL SL]

-----------------------------------------------------------------------------------------
-- The answer of a single history
-----------------------------------------------------------------------------------------

/-- Target snapshots of one id start a history from the same state. -/
def Agreeing (SL : Type u) [Snapshot SL EL] [EventLanes EL SL] (lanes : List EL) : Prop :=
  ∀ left ∈ lanes, ∀ right ∈ lanes,
  ∀ first ∈ (EventLanes.snapshots left : List SL), ∀ second ∈ EventLanes.snapshots right,
    Snapshot.id first = Snapshot.id second
    → Snapshot.setTime first 0 = Snapshot.setTime second 0

/-- What an id without a targeting event answers, and what a single history fed with the
targeting events does.
-/
structure SingleAnswer (lanes : List EL) (time : Time) (snapshotId : SnapshotId)
    (result : QueryResult SL)
    : Prop where
  untargeted : (∀ lane ∈ lanes, ¬ Targets SL lane snapshotId) → result = .notFound
  targeted
    : ∀ lane ∈ lanes, ∀ initial ∈ EventLanes.snapshots lane, Snapshot.id initial = snapshotId
      → ∀ (horizon : Time) (delivered : List EL),
        (∀ event, event ∈ delivered ↔ event ∈ lanes ∧ Targets SL event snapshotId)
        → ∃ snapshot,
          ((LocalSnapshotHistory.new initial 0 horizon).1.applyEvents delivered).snapshotAt time
            = some snapshot
          ∧ result = .found snapshot

omit [EventLanes EL SL] in
/-- New histories from one state answer alike after the same set of events, and do answer
where no event lies at the query's key.
-/
theorem new_snapshotAt {first second : SL} (id : Snapshot.id first = Snapshot.id second)
    (base : Snapshot.setTime first 0 = Snapshot.setTime second 0) {delivered other : List EL}
    (identified : Identified delivered)
    (same : ∀ event, event ∈ delivered ↔ event ∈ other) {time : Time}
    (none : ∀ event ∈ delivered, ContimeKey.fromEvent event ≠ ⟨time, Snapshot.id first⟩)
    (horizon otherHorizon : Time)
    : ∃ snapshot,
        ((LocalSnapshotHistory.new first 0 horizon).1.applyEvents delivered).snapshotAt time
          = some snapshot
        ∧ ((LocalSnapshotHistory.new second 0 otherHorizon).1.applyEvents other).snapshotAt time
          = some snapshot := by
  have members (entry : ContimeKey × EL)
      : entry ∈ delivered.map keyed ↔ entry ∈ other.map keyed := by
    simp only [List.mem_map, same]
  have events := BTreeMap.ofList_eq_of_same_members identified.consistent members
  have left := LocalSnapshotHistory.newWithInterval_snapshotAt first 0 horizon
    CHECKPOINT_INTERVAL (by decide) delivered time none
  have right := LocalSnapshotHistory.newWithInterval_snapshotAt second 0 otherHorizon
    CHECKPOINT_INTERVAL (by decide) other time
    (fun event member => id ▸ none event ((same event).mpr member))
  rw [← events, ← base, ← id] at right
  exact ⟨_, left, right⟩

/-- Events that agree have a single answer at every key that none of them has. -/
theorem exists_singleAnswer {lanes : List EL} (identified : Identified lanes)
    (agreeing : Agreeing SL lanes) {time : Time} {snapshotId : SnapshotId}
    (none : ∀ lane ∈ lanes, ContimeKey.fromEvent lane ≠ ⟨time, snapshotId⟩)
    : ∃ result : QueryResult SL, SingleAnswer lanes time snapshotId result := by
  classical
  by_cases untargeted : ∀ lane ∈ lanes, ¬ Targets SL lane snapshotId
  · refine ⟨.notFound, fun _ => rfl, fun lane member initial listed id => ?_⟩
    exact absurd ⟨initial, listed, id⟩ (untargeted lane member)
  · simp only [not_forall, not_not] at untargeted
    obtain ⟨source, known, first, firstListed, rfl⟩ := untargeted
    let chosen := lanes.filter (fun lane => Targets SL lane (Snapshot.id first))
    have chosen_iff (event : EL)
        : event ∈ chosen ↔ event ∈ lanes ∧ Targets SL event (Snapshot.id first) := by
      simp [chosen]
    have distinct : Identified chosen := fun left ml right mr =>
      identified left ((chosen_iff left).mp ml).1 right ((chosen_iff right).mp mr).1
    have free (event : EL) (member : event ∈ chosen)
        : ContimeKey.fromEvent event ≠ ⟨time, Snapshot.id first⟩ :=
      none event ((chosen_iff event).mp member).1
    obtain ⟨snapshot, answer, _⟩ := new_snapshotAt rfl rfl distinct (fun _ => .rfl) free 0 0
    refine ⟨.found snapshot, fun all => ?_, ?_⟩
    · exact absurd ⟨first, firstListed, rfl⟩ (all source known)
    · intro lane member initial listed id horizon delivered all
      have base := agreeing source known lane member first firstListed initial listed id.symm
      obtain ⟨same, left, right⟩ := new_snapshotAt id.symm base distinct
        (fun event => (chosen_iff event).trans (all event).symm) free 0 horizon
      exact ⟨same, right, congrArg _ (Option.some.inj (answer.symm.trans left))⟩

/-- The answer depends on the set of events alone. -/
theorem SingleAnswer.congr {lanes other : List EL} {time : Time} {snapshotId : SnapshotId}
    {result : QueryResult SL} (answer : SingleAnswer lanes time snapshotId result)
    (same : ∀ lane, lane ∈ lanes ↔ lane ∈ other)
    : SingleAnswer other time snapshotId result where
  untargeted all := answer.untargeted (fun lane member => all lane ((same lane).mp member))
  targeted lane member initial listed id horizon delivered all := by
    refine answer.targeted lane ((same lane).mpr member) initial listed id horizon delivered ?_
    intro event
    rw [all event, same event]

-----------------------------------------------------------------------------------------
-- One query as a service
-----------------------------------------------------------------------------------------

/-- The history of the id holds all events that target it. -/
def Full (lanes : List EL) (snapshotId : SnapshotId) (historyById : HistoryById SL EL) : Prop :=
  ∀ lane ∈ lanes, Targets SL lane snapshotId
  → Holds historyById snapshotId (ContimeKey.fromEvent lane)

/-- A worker that was fed all events of the id gives the single answer. -/
theorem SingleAnswer.handleWorker_eq {lanes : List EL} (identified : Identified lanes)
    {time : Time} {snapshotId : SnapshotId} {result : QueryResult SL}
    (answer : SingleAnswer lanes time snapshotId result) {delta : Time}
    {historyById : HistoryById SL EL} (fed : AllFed lanes delta historyById)
    (full : Full lanes snapshotId historyById) (reply : ReplyChannel)
    : handleWorker delta historyById (.snapshotAt snapshotId time reply)
      = some { historyById, deltas := [], reply := (reply, .queried result) } := by
  cases found : historyById.get? snapshotId with
  | none =>
      have missing : result = .notFound := by
        refine answer.untargeted (fun lane member targets => ?_)
        obtain ⟨history, stored, _⟩ := full lane member targets
        simp [found] at stored
      simp only [Contime.handleWorker, found, missing]
  | some history =>
      obtain ⟨initial, events, ⟨source, known, listed⟩, id, all, shape⟩ :=
        fed snapshotId history found
      have same (event : EL) : event ∈ events ↔ event ∈ lanes ∧ Targets SL event snapshotId := by
        refine ⟨all event, ?_⟩
        intro sent
        obtain ⟨member, targets⟩ := sent
        obtain ⟨stored, equal, key⟩ := full event member targets
        rw [found] at equal
        obtain rfl := Option.some.inj equal
        have stored := shape ▸ key
        rw [LocalSnapshotHistory.applyEvents_events] at stored
        obtain ⟨entry, listed, same⟩ := BTreeMap.mem_keys_ofList.mp stored
        obtain ⟨fedEvent, delivered, rfl⟩ := List.mem_map.mp listed
        exact identified fedEvent (all fedEvent delivered).1 event member same ▸ delivered
      obtain ⟨snapshot, answered, rfl⟩ :=
        answer.targeted source known initial listed id delta events same
      simp only [Contime.handleWorker, found, shape, answered, Option.map_some]

variable {router : Router}

namespace System

/-- Workers still deliver events, and give the query at this time and id this result. -/
def asking (router : Router) {lanes : List EL} (identified : Identified lanes) {time : Time}
    {snapshotId : SnapshotId} {result : QueryResult SL}
    (answer : SingleAnswer lanes time snapshotId result)
    : Service router SL EL where
  Genuine channel worker message :=
    Delivers lanes channel worker message
    ∨ (worker = router.workerIndex snapshotId ∧ message = .snapshotAt snapshotId time channel)
  Keeps worker historyById :=
    AllFed lanes router.lowerTimeHorizonDelta historyById
    ∧ (worker = router.workerIndex snapshotId → Full lanes snapshotId historyById)
  Answered _ message reply :=
    ∀ askedId askedTime channel, message = .snapshotAt askedId askedTime channel
    → reply = .queried result
  serves := by
    intro channel worker message historyById genuine keeps
    obtain ⟨fed, full⟩ := keeps
    rcases genuine with ⟨lane, delivered, initial, listed, equal⟩ | ⟨rfl, rfl⟩
    · obtain ⟨rfl, rfl⟩ := Prod.mk.inj equal
      obtain ⟨handled, shape, reply, keeps, _, holds⟩ :=
        handleWorker_event fed delivered listed channel
      refine ⟨handled, shape, reply, ⟨keeps, ?_⟩, ?_, fun _ _ => id⟩
      · intro owner event member targets
        exact holds _ _ (full owner event member targets)
      · intro _ _ _ same
        cases same
    · refine ⟨_, answer.handleWorker_eq identified fed (full rfl) channel, rfl, ⟨fed, full⟩, ?_,
        fun _ _ => id⟩
      intro _ _ _ _
      rfl

variable {lanes : List EL} {system : System router SL EL}

/-- A reply to an event says nothing about the query. -/
theorem Right.asking {identified : Identified lanes} {time : Time} {snapshotId : SnapshotId}
    {result : QueryResult SL} {answer : SingleAnswer lanes time snapshotId result}
    {channel : ReplyChannel} {reply : Reply SL}
    (right : system.Right (deliveries router SL lanes) channel reply)
    (serving : Serving (deliveries router SL lanes) system)
    : system.Right (asking router identified answer) channel reply := by
  obtain ⟨worker, message, found, _⟩ := right
  refine ⟨worker, message, found, ?_⟩
  obtain ⟨lane, _, initial, _, equal⟩ := serving.genuine channel worker message found
  obtain ⟨_, rfl⟩ := Prod.mk.inj equal
  intro _ _ _ same
  cases same

/-- A system that delivers events still serves them next to the query. -/
theorem Serving.asking (serving : Serving (deliveries router SL lanes) system)
    (identified : Identified lanes) {time : Time} {snapshotId : SnapshotId}
    {result : QueryResult SL} (answer : SingleAnswer lanes time snapshotId result)
    (full : Full lanes snapshotId
      (system.workers (router.workerIndex snapshotId)).historyById)
    : Serving (asking router identified answer) system where
  keeps worker := ⟨serving.keeps worker, fun owner => owner ▸ full⟩
  running := serving.running
  genuine channel worker message found := Or.inl (serving.genuine channel worker message found)
  queued := serving.queued
  inHand worker channel reply found := (serving.inHand worker channel reply found).asking serving
  replied channel reply found := (serving.replied channel reply found).asking serving

/-- A system whose history of the id holds all events gives the single answer, however its
steps are scheduled.
-/
theorem Serving.returns (serving : Serving (deliveries router SL lanes) system)
    (identified : Identified lanes) {time : Time} {snapshotId : SnapshotId}
    {result : QueryResult SL} (answer : SingleAnswer lanes time snapshotId result)
    (full : Full lanes snapshotId
      (system.workers (router.workerIndex snapshotId)).historyById)
    : system.Returns time snapshotId result := by
  let channel : ReplyChannel := ⟨system.calls.length, 0⟩
  let query : WorkerInbound SL EL := .snapshotAt snapshotId time channel
  let call : Call router SL EL := .open [(router.workerIndex snapshotId, query)]
  let asked := (system.step (.queryAt time snapshotId)).1
  have calls : asked.calls = system.calls ++ [call] := rfl
  have sent : asked.messageAt channel = some (router.workerIndex snapshotId, query) :=
    (messageAt_start calls).mpr (Or.inr ⟨rfl, rfl⟩)
  have asks : Serving (System.asking router identified answer) asked :=
    (serving.asking identified answer full).single (Or.inr ⟨rfl, rfl⟩)
  have only (steps : List (Action router SL EL)) (serves : ∀ action ∈ steps, action.Serves)
      (reply : Reply SL) (found : (asked.run steps).replyAt channel = some reply)
      : reply = .queried result := by
    obtain ⟨worker, message, listed, answered⟩ := (asks.run serves).replied channel reply found
    rw [messageAt_run asked serves, sent] at listed
    obtain ⟨rfl, rfl⟩ := Prod.mk.inj (Option.some.inj listed)
    exact answered snapshotId time channel rfl
  refine ⟨only, ?_⟩
  obtain ⟨after, reply, ⟨steps, serves, rfl⟩, arrived⟩ :=
    asks.answer_next (List.getElem?_concat_length ..) rfl rfl rfl
  exact ⟨steps, serves, only steps serves reply arrived ▸ arrived⟩

/-- A run that only sends events answers as a single history once all handles completed. -/
theorem run_returns {actions : List (Action router SL EL)}
    (feeds : ∀ action ∈ actions, Feeds action)
    (completed : ((new : System router SL EL).run actions).Completed)
    (identified : Identified (sentEvents actions)) {time : Time} {snapshotId : SnapshotId}
    {result : QueryResult SL} (answer : SingleAnswer (sentEvents actions) time snapshotId result)
    : ((new : System router SL EL).run actions).Returns time snapshotId result := by
  obtain ⟨serving, sent⟩ := run_feeds feeds
  refine serving.returns identified answer ?_
  intro lane member targets
  obtain ⟨initial, listed, rfl⟩ := targets
  exact serving.held sent completed member listed

/-- Whatever the number of workers, the hash, the memory budget, the horizon and the schedule,
systems that have delivered the same events answer a query alike: as one history fed with the
events of the id does. By comparison with that history, whose answer the set of its events fixes.
-/
theorem answers_deterministic {first second : Router}
    {firstActions : List (Action first SL EL)} {secondActions : List (Action second SL EL)}
    (firstFeeds : ∀ action ∈ firstActions, Feeds action)
    (secondFeeds : ∀ action ∈ secondActions, Feeds action)
    (same : ∀ lane, lane ∈ sentEvents firstActions ↔ lane ∈ sentEvents secondActions)
    (identified : Identified (sentEvents firstActions))
    (agreeing : Agreeing SL (sentEvents firstActions))
    (firstCompleted : ((new : System first SL EL).run firstActions).Completed)
    (secondCompleted : ((new : System second SL EL).run secondActions).Completed)
    (time : Time) (snapshotId : SnapshotId)
    (none : ∀ lane ∈ sentEvents firstActions, ContimeKey.fromEvent lane ≠ ⟨time, snapshotId⟩)
    : ∃ result : QueryResult SL,
        SingleAnswer (sentEvents firstActions) time snapshotId result
        ∧ ((new : System first SL EL).run firstActions).Returns time snapshotId result
        ∧ ((new : System second SL EL).run secondActions).Returns time snapshotId result := by
  obtain ⟨result, answer⟩ := exists_singleAnswer identified agreeing none
  have otherIdentified : Identified (sentEvents secondActions) := fun left ml right mr =>
    identified left ((same left).mpr ml) right ((same right).mpr mr)
  exact ⟨result, answer, run_returns firstFeeds firstCompleted identified answer,
    run_returns secondFeeds secondCompleted otherIdentified (answer.congr same)⟩

/-- One worker that takes two events in order, and two workers that take them in the other
order, one of them twice.
-/
theorem answers_deterministic_one_and_two_workers
    : let one : Router := ⟨1, by decide, fun _ => 0, 1000, 60⟩
      let two : Router := ⟨2, by decide, fun id => UInt64.ofNat id.toNat, 1000, 60⟩
      let early : TestEvent := .negative 1 3 7 1
      let late : TestEvent := .positive 1 5 2 4
      let first : List (Action one TestSnapshot TestEvent) :=
        [.sendEvent early, .sendEvent late, .enqueue 0, .enqueue 1, .handle 0, .commit 0,
          .commit 0, .respond 0, .handle 0, .commit 0, .respond 0]
      let second : List (Action two TestSnapshot TestEvent) :=
        [.sendEvent late, .enqueue 0, .sendEvent early, .handle 1, .sendEvent late, .enqueue 2,
          .commit 1, .commit 1, .enqueue 1, .respond 1, .handle 1, .commit 1, .respond 1,
          .handle 1, .commit 1, .respond 1]
      (new.run first).Returns 6 1 (.found ⟨1, 6, [-1, 4], 3⟩)
      ∧ (new.run second).Returns 6 1 (.found ⟨1, 6, [-1, 4], 3⟩) := by
  intro one two early late first second
  have same (lane : TestEvent) : lane ∈ sentEvents first ↔ lane ∈ sentEvents second := by
    simp only [sentEvents, first, second, List.filterMap, List.mem_cons, List.not_mem_nil,
      or_false]
    tauto
  have firstFeeds : ∀ action ∈ first, Feeds action := by
    simp [first, Feeds, Action.Serves]
  have secondFeeds : ∀ action ∈ second, Feeds action := by
    simp [second, Feeds, Action.Serves]
  have firstCompleted : (new.run first).Completed := by decide
  have secondCompleted : (new.run second).Completed := by decide
  have identified : Identified (sentEvents first) := by unfold Identified; decide
  have agreeing : Agreeing TestSnapshot (sentEvents first) := by unfold Agreeing; decide
  obtain ⟨result, answer, left, right⟩ :=
    answers_deterministic firstFeeds secondFeeds same identified agreeing firstCompleted
      secondCompleted 6 1 (by decide)
  have targets (event : TestEvent) (member : event ∈ [early, late])
      : Targets TestSnapshot event 1 := by
    refine ⟨Snapshot.fromEvent event, List.mem_singleton_self _, ?_⟩
    rcases List.mem_pair.mp member with rfl | rfl <;> rfl
  have all (event : TestEvent)
      : event ∈ [early, late] ↔ event ∈ sentEvents first ∧ Targets TestSnapshot event 1 :=
    ⟨fun member => ⟨member, targets event member⟩, And.left⟩
  obtain ⟨snapshot, alone, rfl⟩ :=
    answer.targeted early (by decide) ⟨1, 3, [], 0⟩ (by decide) rfl 60 [early, late] all
  have value : snapshot = ⟨1, 6, [-1, 4], 3⟩ := Option.some.inj (alone.symm.trans (by decide))
  exact ⟨value ▸ left, value ▸ right⟩

end System

end Contime
