import Contime.Worker.Projection
import Contime.History.Probes
import Contime.Model.TestFixtures

/-! An authoritative snapshot as the first message for an id. It becomes the base of the new
history, so also the events before its own time are applied on top of it.
-/

open SortedEntries PeriodicReplay

namespace Contime

universe u v
variable {SL : Type u} {EL : Type v} [Event EL] [Snapshot SL EL] [ApplyEvent EL SL]

/-- The messages of a run around a snapshot that is the first one for its id: those before it
do not address the id, and those behind it deliver to it exactly these events.
-/
structure StartsWith (snapshotId : SnapshotId) (delivered : List EL)
    (before after : List (WorkerInbound SL EL))
    : Prop where
  unseen : ∀ message ∈ before, ¬ message.Addresses snapshotId
  delivers : ∀ message ∈ after, message.DeliversAtMost snapshotId
  events : after.filterMap (WorkerInbound.eventFor snapshotId) = delivered

variable {delta : Time} {historyById : HistoryById SL EL} {snapshot : SL} {delivered : List EL}
  {before after : List (WorkerInbound SL EL)} {reply : ReplyChannel}

/-- The history that a first snapshot leaves: a new one, fed with the delivered events. -/
theorem StartsWith.history (starts : StartsWith (Snapshot.id snapshot) delivered before after)
    (runs
      : workerRun delta .empty (before ++ .snapshot snapshot reply :: after) = some historyById)
    : historyById.get? (Snapshot.id snapshot)
      = some ((LocalSnapshotHistory.new snapshot 0 delta).1.applyEvents delivered) := by
  have created : ownHistory delta (Snapshot.id snapshot) none (.snapshot snapshot reply)
      = some (LocalSnapshotHistory.new snapshot 0 delta).1 := if_pos rfl
  have unseen : before.foldl (ownHistory delta (Snapshot.id snapshot)) none = none :=
    foldl_ownHistory_none
      (fun message member => WorkerInbound.creates_of_not_addresses (starts.unseen message member))
  rw [get?_workerRun runs, BTreeMap.get?_empty, List.foldl_append, unseen, List.foldl_cons, created,
    foldl_ownHistory_events starts.delivers, starts.events]

/-- Its query answers with the snapshot and all delivered events before the query. -/
theorem StartsWith.answer (overwrites : SetTimeOverwrites SL EL) (blind : TimeBlind SL EL)
    (starts : StartsWith (Snapshot.id snapshot) delivered before after)
    (runs
      : workerRun delta .empty (before ++ .snapshot snapshot reply :: after) = some historyById)
    {time : Time}
    (none
      : ∀ event ∈ delivered, ContimeKey.fromEvent event ≠ ⟨time, Snapshot.id snapshot⟩)
    (channel : ReplyChannel)
    : (handleWorker delta historyById
          (.snapshotAt (Snapshot.id snapshot) time channel)).map Handled.reply
      = some
          (channel,
            .queried
              (.found
                (Snapshot.setTime
                  (replay queryStep snapshot
                    (below ⟨time, Snapshot.id snapshot⟩
                      (BTreeMap.ofList (delivered.map keyed)).entries))
                  time))) := by
  let fresh : LocalSnapshotHistory SL EL :=
    LocalSnapshotHistory.newWithInterval snapshot 0 delta CHECKPOINT_INTERVAL (by decide)
  have found : historyById.get? (Snapshot.id snapshot) = some (fresh.applyEvents delivered) :=
    starts.history runs
  have timeless : SameUpToTime (Snapshot.setTime snapshot 0) snapshot :=
    fun later => overwrites snapshot 0 later
  have state : (fresh.applyEvents delivered).snapshotAt time = _ :=
    LocalSnapshotHistory.newWithInterval_stateBefore overwrites blind none
  simp only [handleWorker, found]
  rw [state, Timeline.stateBefore, timeless.queries blind _ time]
  rfl

omit [Event EL] [ApplyEvent EL SL] in
/-- Any events can follow a first snapshot. -/
theorem startsWith_events (snapshot : SL) (delivered : List EL) (reply : ReplyChannel)
    : StartsWith (Snapshot.id snapshot) delivered []
        (delivered.map (fun event => .event (Snapshot.id snapshot) event snapshot reply)) := by
  have delivers (event : EL)
      : WorkerInbound.eventFor (Snapshot.id snapshot)
          (.event (Snapshot.id snapshot) event snapshot reply) = some event := if_pos rfl
  refine ⟨fun _ none => absurd none List.not_mem_nil, ?_, ?_⟩
  · intro later found
    obtain ⟨event, _, rfl⟩ := List.mem_map.mp found
    exact Or.inl (by rw [delivers]; rfl)
  · rw [List.filterMap_map]
    exact (List.filterMap_congr (fun event _ => delivers event)).trans List.filterMap_some

/-- A first snapshot is treated like any later one exactly when no delivered event has a key up to
its own: then, under every model with overwriting time and time-blind events, each query behind it
answers with it and the delivered events between the two. Witness for the other keys: the model
that counts the applied events.
-/
theorem first_snapshot_answers_iff (delta : Time) (snapshotId : SnapshotId)
    (snapshotTime time : Time) (behind : snapshotTime < time) (delivered : List EL)
    (none : ∀ event ∈ delivered, ContimeKey.fromEvent event ≠ ⟨time, snapshotId⟩)
    : (∀ (SL : Type u) [Snapshot SL EL] [ApplyEvent EL SL],
        SetTimeOverwrites SL EL → TimeBlind SL EL
        → ∀ (snapshot : SL) (before after : List (WorkerInbound SL EL))
            (reply channel : ReplyChannel) (historyById : HistoryById SL EL),
          Snapshot.id snapshot = snapshotId
          → Snapshot.time snapshot = snapshotTime
          → StartsWith snapshotId delivered before after
          → workerRun delta .empty (before ++ .snapshot snapshot reply :: after)
              = some historyById
          → (handleWorker delta historyById (.snapshotAt snapshotId time channel)).map
                Handled.reply
              = some
                  (channel,
                    .queried
                      (.found
                        (Snapshot.setTime
                          (replay queryStep snapshot
                            (below ⟨time, snapshotId⟩
                              (above ⟨snapshotTime, snapshotId⟩
                                (BTreeMap.ofList (delivered.map keyed)).entries)))
                          time))))
      ↔ ∀ event ∈ delivered, ⟨snapshotTime, snapshotId⟩ < ContimeKey.fromEvent event := by
  have ahead : (⟨snapshotTime, snapshotId⟩ : ContimeKey) < ⟨time, snapshotId⟩ :=
    ContimeKey.lt_of_time_lt behind
  constructor
  · intro answers event member
    let snapshot : Tally.{u} EL := ⟨snapshotId, snapshotTime, 0⟩
    let message (event : EL) : WorkerInbound (Tally.{u} EL) EL :=
      .event snapshotId event snapshot ⟨0, 0⟩
    have starts : StartsWith snapshotId delivered [] (delivered.map message) :=
      startsWith_events snapshot delivered ⟨0, 0⟩
    obtain ⟨historyById, runs⟩ :=
      workerRun_isSome delta .empty
        (show ∀ target time reply, .snapshotAt target time reply
            ∉ [] ++ .snapshot snapshot ⟨0, 0⟩ :: delivered.map message by simp [message])
        (by simp [message])
    have expected := answers (Tally.{u} EL) Tally.setTimeOverwrites Tally.timeBlind snapshot []
      (delivered.map message) ⟨0, 0⟩ ⟨0, 0⟩ historyById rfl rfl starts runs
    have actual := starts.answer Tally.setTimeOverwrites Tally.timeBlind runs none ⟨0, 0⟩
    have same := expected.symm.trans actual
    simp only [Option.some_inj, Prod.mk.injEq, Reply.queried.injEq, QueryResult.found.injEq,
      true_and] at same
    have counts := congrArg Tally.applied same
    change (replay queryStep snapshot _).applied = (replay queryStep snapshot _).applied at counts
    rw [Tally.applied_replay, Tally.applied_replay, ← above_below, Nat.add_left_cancel_iff]
      at counts
    -- Equally many entries lie before the query and between the two keys.
    have later := length_above_eq_iff.mp counts
    by_contra early
    obtain ⟨value, stored⟩ := BTreeMap.mem_keys.mp
      (BTreeMap.mem_keys_ofList.mpr ⟨keyed event, List.mem_map_of_mem member, rfl⟩)
    have between := later (ContimeKey.fromEvent event, value)
      (mem_below.mpr ⟨stored, (not_lt.mp early).trans_lt ahead⟩)
    exact early between
  · intro later SL _ _ overwrites blind snapshot before after reply channel historyById id own
      starts runs
    subst id own
    have all : above ⟨Snapshot.time snapshot, Snapshot.id snapshot⟩
          (BTreeMap.ofList (delivered.map keyed)).entries
        = (BTreeMap.ofList (delivered.map keyed)).entries := by
      refine above_of_forall (fun entry stored => ?_)
      obtain ⟨first, found, same⟩ :=
        BTreeMap.mem_keys_ofList.mp (BTreeMap.mem_keys.mpr ⟨entry.2, stored⟩)
      obtain ⟨event, member, rfl⟩ := List.mem_map.mp found
      have key : ContimeKey.fromEvent event = entry.1 := same
      exact key ▸ later event member
    rw [all]
    exact starts.answer overwrites blind runs none channel

/-- A first snapshot with an event behind it, among messages for another id. -/
theorem first_snapshot_answers_iff_later_event
    : let snapshot : TestSnapshot := ⟨1, 5, [], 100⟩
      let other : TestSnapshot := ⟨2, 0, [], 0⟩
      let event : TestEvent := .positive 1 8 0 2
      let before : List (WorkerInbound TestSnapshot TestEvent) := [.advanceTime 3 ⟨0, 0⟩]
      let after : List (WorkerInbound TestSnapshot TestEvent) :=
        [.event 2 (.positive 2 1 0 1) other ⟨2, 0⟩, .event 1 event snapshot ⟨3, 0⟩]
      ((workerRun 0 .empty (before ++ .snapshot snapshot ⟨1, 0⟩ :: after)).bind
        (fun historyById =>
          (handleWorker 0 historyById (.snapshotAt 1 9 ⟨4, 0⟩)).map Handled.reply))
      = some (⟨4, 0⟩, .queried (.found ⟨1, 9, [2], 102⟩)) := by
  intro snapshot other event before after
  obtain ⟨historyById, runs⟩
      : ∃ historyById,
          workerRun 0 .empty (before ++ .snapshot snapshot ⟨1, 0⟩ :: after) = some historyById :=
    workerRun_isSome 0 .empty (by simp [before, after]) (by simp [before, after])
  have answers :=
    (first_snapshot_answers_iff.{0} 0 1 5 9 (by decide) [event] (by decide)).mpr (by decide)
      TestSnapshot testSnapshot_setTimeOverwrites testEvent_timeBlind snapshot before after
      ⟨1, 0⟩ ⟨4, 0⟩ historyById rfl rfl
      ⟨by simp [before, WorkerInbound.Addresses],
        by simp [after, event, WorkerInbound.DeliversAtMost, WorkerInbound.eventFor,
          WorkerInbound.Addresses],
        by decide⟩
      runs
  rw [runs, Option.bind_some]
  exact answers.trans (by decide)

/-- An event from before a first snapshot is applied on top of it. -/
theorem first_snapshot_takes_earlier_event
    : let snapshot : TestSnapshot := ⟨1, 5, [], 100⟩
      ((workerRun 0 .empty
          [.snapshot snapshot ⟨0, 0⟩, .event 1 (TestEvent.positive 1 3 0 7) snapshot ⟨1, 0⟩]).bind
        (fun historyById =>
          (handleWorker 0 historyById (.snapshotAt 1 9 ⟨2, 0⟩)).map Handled.reply))
      = some (⟨2, 0⟩, .queried (.found ⟨1, 9, [7], 107⟩))
      ∧ Snapshot.setTime snapshot 9 = ⟨1, 9, [], 100⟩ := by
  decide

end Contime
