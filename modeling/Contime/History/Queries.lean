import Contime.History.ArrivalOrder
import Contime.Model.TestFixtures

/-! Queries read the checkpoints up to their key and the events between. -/

open SortedEntries PeriodicReplay

namespace Contime

universe u v
variable {S : Type u} {E : Type v} [Event E] [Snapshot S E] [ApplyEvent E S]

/-- Apply an event without touching the snapshot's time, as a query replays it. -/
def queryStep (snapshot : S) (event : E) : S := ApplyEvent.applyTo event snapshot

-----------------------------------------------------------------------------------------
-- States that differ in their time only
-----------------------------------------------------------------------------------------

/-- Two snapshots that no `setTime` can tell apart. -/
def SameUpToTime (left right : S) : Prop :=
  ∀ time : Time, Snapshot.setTime left time = Snapshot.setTime right time

omit [Event E] [ApplyEvent E S] in
theorem SameUpToTime.refl (snapshot : S) : SameUpToTime snapshot snapshot := fun _ => rfl

omit [Event E] in
/-- A time-blind event keeps snapshots equal up to time. -/
theorem SameUpToTime.query (blind : TimeBlind S E) {left right : S}
    (same : SameUpToTime left right) (event : E)
    : SameUpToTime (queryStep left event) (queryStep right event) := by
  intro time
  rw [queryStep, queryStep, ← blind, ← blind, same time]

omit [Event E] in
/-- A query's replay keeps snapshots equal up to time. -/
theorem SameUpToTime.queries (blind : TimeBlind S E) {left right : S}
    (same : SameUpToTime left right) (entries : List (ContimeKey × E))
    : SameUpToTime (replay queryStep left entries) (replay queryStep right entries) := by
  induction entries generalizing left right with
  | nil => exact same
  | cons entry rest ih => exact ih (same.query blind entry.2)

/-- Replaying with or without moving the time gives the same state up to time. -/
theorem sameUpToTime_replay (overwrites : SetTimeOverwrites S E) (blind : TimeBlind S E)
    {left right : S} (same : SameUpToTime left right) (entries : List (ContimeKey × E))
    : SameUpToTime (replay replayStep left entries) (replay queryStep right entries) := by
  induction entries generalizing left right with
  | nil => exact same
  | cons entry rest ih =>
      refine ih (fun time => ?_)
      have moved := overwrites (queryStep left entry.2) (Event.time entry.2) time
      exact moved.trans (same.query blind entry.2 time)

/-- The replay behind an answer: with the time moved up to the last settled entry, without
moving it from there on.
-/
def settledReplay (interval : Nat) (base : S) (entries : List (ContimeKey × E)) : S :=
  replay queryStep (replay replayStep base (settled interval entries))
    (pending interval entries)

/-- Fewer entries than the interval are all pending. -/
theorem settledReplay_of_few {interval : Nat} {base : S} {entries : List (ContimeKey × E)}
    (few : entries.length < interval)
    : settledReplay interval base entries = replay queryStep base entries := by
  rw [settledReplay, settled, pending, Nat.div_eq_of_lt few, Nat.zero_mul, List.take_zero,
    List.drop_zero, replay_nil]

/-- For time-blind events an answer is a plain replay of all entries. -/
theorem settledReplay_of_blind (overwrites : SetTimeOverwrites S E) (blind : TimeBlind S E)
    (interval : Nat) (base : S) (entries : List (ContimeKey × E))
    : SameUpToTime (settledReplay interval base entries) (replay queryStep base entries) := by
  have settledSame := sameUpToTime_replay overwrites blind (.refl base)
    (settled interval entries)
  have split := settled_append_pending interval entries
  intro time
  conv_rhs => rw [← split, replay_append]
  exact settledSame.queries blind (pending interval entries) time

/-- With at most one pending entry an answer is a replay that moves the time throughout. -/
theorem settledReplay_of_short (overwrites : SetTimeOverwrites S E) {interval : Nat}
    (base : S) {entries : List (ContimeKey × E)} (short : entries.length % interval ≤ 1)
    : SameUpToTime (settledReplay interval base entries)
        (replay replayStep base entries) := by
  have step (start : S) (rest : List (ContimeKey × E)) (few : rest.length ≤ 1)
      : SameUpToTime (replay queryStep start rest) (replay replayStep start rest) := by
    intro time
    match rest, few with
    | [], _ => rfl
    | [entry], _ =>
        exact (overwrites (queryStep start entry.2) (Event.time entry.2) time).symm
  intro time
  conv_rhs => rw [← settled_append_pending interval entries, replay_append]
  exact step _ (pending interval entries) (by rwa [length_pending]) time

/-- Resuming over the marks before a key and replaying up to the key is the settled replay
of the entries before it.
-/
theorem replay_resume_marks {interval : Nat} (positive : 0 < interval) (start : S)
    (key : ContimeKey) {entries : List (ContimeKey × E)} (ascending : Ascending entries)
    : let origin := resume (marks replayStep interval 0 start (below key entries)) start entries
      replay queryStep origin.1 (below key origin.2)
        = settledReplay interval start (below key entries) := by
  have low : ∀ entry ∈ pending interval (below key entries), entry.1 < key :=
    fun entry member => (mem_below.mp (List.mem_of_mem_drop member)).2
  dsimp only
  rw [resume_marks_below positive start key ascending, below_append, below_of_forall low,
    below_atLeast_self, List.append_nil]
  rfl

namespace LocalSnapshotHistory

variable {history : LocalSnapshotHistory S E} {time : Time}

/-- The answer of a query that starts over `checkpoints` and replays `events`. -/
def answer (history : LocalSnapshotHistory S E) (time : Time)
    (checkpoints : List (ContimeKey × S)) (events : List (ContimeKey × E))
    : S :=
  let start := resume checkpoints history.baseSnapshot events
  Snapshot.setTime (replay queryStep start.1 (below (history.queryKey time) start.2)) time

omit [Event E] in
/-- Only the events before its key matter to an answer. -/
theorem answer_below (checkpoints : List (ContimeKey × S)) (events : List (ContimeKey × E))
    : history.answer time checkpoints (below (history.queryKey time) events)
      = history.answer time checkpoints events := by
  rcases List.eq_nil_or_concat checkpoints with rfl | ⟨front, last, rfl⟩
  · simp [answer, resume]
  · simp only [answer, List.concat_eq_append, resume_append_singleton, above_below,
      below_below_self]

omit [Event E] in
/-- With no checkpoint at its own key, a query resumes from the checkpoints before it and
replays the remaining earlier events.
-/
theorem snapshotAt_eq (absent : history.queryKey time ∉ history.checkpoints.keys)
    : history.snapshotAt time
      = some
          (history.answer time (below (history.queryKey time) history.checkpoints.entries)
            history.events.entries) := by
  have before : upTo (history.queryKey time) history.checkpoints.entries
      = below (history.queryKey time) history.checkpoints.entries := by
    refine List.filter_congr (fun checkpoint member => ?_)
    have differ : checkpoint.1 ≠ history.queryKey time := fun same =>
      absent (BTreeMap.mem_keys.mpr ⟨checkpoint.2, same ▸ member⟩)
    exact decide_eq_decide.mpr ⟨fun h => lt_of_le_of_ne h differ, le_of_lt⟩
  rw [snapshotAt, queryStart, BTreeMap.range_unbounded_included, before]
  rcases List.eq_nil_or_concat
    (below (history.queryKey time) history.checkpoints.entries) with none | ⟨front, last, some⟩
  · rw [none]
    simp only [List.getLast?_nil, replayStart, BTreeMap.range?, Bound.malformed,
      Bool.false_eq_true, if_false, BTreeMap.range_unbounded_excluded]
    split
    next unfilled =>
      rw [Bool.and_eq_true, BTreeMap.isEmpty_iff] at unfilled
      simp [answer, resume, unfilled.1, replay, below, queryStep]
    next => rfl
  · have low : last.1 < history.queryKey time := by
      have member : last ∈ below (history.queryKey time) history.checkpoints.entries := by
        simp [some]
      exact (mem_below.mp member).2
    rw [some, List.concat_eq_append]
    simp only [List.getLast?_append, List.getLast?_singleton, Option.some_or, replayStart,
      BTreeMap.range?, Bound.malformed, decide_eq_true_eq, not_le.mpr low, if_false,
      BTreeMap.range_excluded_excluded, above_below]
    rw [answer, resume_append_singleton]
    split
    next unfilled =>
      rw [Bool.and_eq_true, BTreeMap.isEmpty_iff] at unfilled
      simp [unfilled.1, replay, below, above]
    next => rfl

omit [Event E] [Snapshot S E] [ApplyEvent E S] in
/-- The range ends of a query are malformed exactly when a checkpoint sits at its key: that
checkpoint is then the last one up to the key and both ends exclude the key.
-/
theorem queryStart_malformed_iff
    : (history.queryStart time).2.malformed (.excluded (history.queryKey time)) = true
      ↔ history.queryKey time ∈ history.checkpoints.keys := by
  have ascending : Ascending (upTo (history.queryKey time) history.checkpoints.entries) :=
    history.checkpoints.ascending.sublist List.filter_sublist
  have bounded (checkpoint : ContimeKey × S)
      (member : checkpoint ∈ upTo (history.queryKey time) history.checkpoints.entries)
      : checkpoint.1 ≤ history.queryKey time :=
    (mem_upTo.mp member).2
  have stored : history.queryKey time ∈ history.checkpoints.keys
      ↔ ∃ checkpoint ∈ upTo (history.queryKey time) history.checkpoints.entries,
          checkpoint.1 = history.queryKey time := by
    rw [BTreeMap.mem_keys]
    constructor
    · intro stored
      obtain ⟨value, member⟩ := stored
      exact ⟨_, mem_upTo.mpr ⟨member, le_rfl⟩, rfl⟩
    · intro stored
      obtain ⟨checkpoint, member, same⟩ := stored
      exact ⟨checkpoint.2, same ▸ (mem_upTo.mp member).1⟩
  rw [stored, queryStart, BTreeMap.range_unbounded_included]
  rcases List.eq_nil_or_concat
    (upTo (history.queryKey time) history.checkpoints.entries) with none | ⟨front, last, some⟩
  · simp [none, replayStart, Bound.malformed]
  · rw [some, List.concat_eq_append] at ascending bounded ⊢
    simp only [List.getLast?_append, List.getLast?_singleton, Option.some_or, replayStart,
      Bound.malformed, decide_eq_true_eq]
    constructor
    · intro reached
      exact ⟨last, by simp, le_antisymm (bounded last (by simp)) reached⟩
    · intro stored
      obtain ⟨checkpoint, member, same⟩ := stored
      exact same ▸ ascending.le_last member

omit [Event E] in
/-- A query panics exactly when a checkpoint is stored at its own key and the events map has a root:
it has events, or an advance has cut off the last of them.
-/
theorem snapshotAt_eq_none_iff
    : history.snapshotAt time = none
      ↔ history.queryKey time ∈ history.checkpoints.keys
        ∧ (history.events.entries ≠ [] ∨ history.eventsEmptied = true) := by
  have rooted
      : (history.events.isEmpty && !history.eventsEmptied) = false
        ↔ history.events.entries ≠ [] ∨ history.eventsEmptied = true := by
    rw [Bool.and_eq_false_iff, Bool.eq_false_iff, Ne, BTreeMap.isEmpty_iff, Bool.not_eq_false']
  rw [← queryStart_malformed_iff, ← rooted]
  simp only [snapshotAt, BTreeMap.range?, Option.map_eq_none_iff]
  cases (history.events.isEmpty && !history.eventsEmptied) <;> simp

/-- The snapshot outlives the only event, and its own time cannot be asked for. -/
example
    : ((newWithInterval (⟨1, 0, [], 0⟩ : TestSnapshot) 0 0 2 (by decide)).run
          [.applyEvent (TestEvent.positive 1 1 0 1), .applySnapshot ⟨1, 9, [], 100⟩,
            .advance 5]).snapshotAt 9
      = none := by
  decide

omit [Event E] in
/-- A checkpoint at the query's own key makes the query of a history with events panic. -/
theorem snapshotAt_panics (stored : history.events.entries ≠ [])
    (present : history.queryKey time ∈ history.checkpoints.keys)
    : history.snapshotAt time = none :=
  snapshotAt_eq_none_iff.mpr ⟨present, Or.inl stored⟩

omit [Event E] in
/-- A query that finds no checkpoint at its key depends on the settings, the checkpoints
before its key and the events before its key.
-/
theorem snapshotAt_congr_of_absent {other : LocalSnapshotHistory S E}
    (settings : SameSettings other history)
    (checkpoints
      : below (history.queryKey time) other.checkpoints.entries
        = below (history.queryKey time) history.checkpoints.entries)
    (events
      : below (history.queryKey time) other.events.entries
        = below (history.queryKey time) history.events.entries)
    (left : history.queryKey time ∉ other.checkpoints.keys)
    (right : history.queryKey time ∉ history.checkpoints.keys)
    : other.snapshotAt time = history.snapshotAt time := by
  have key : other.queryKey time = history.queryKey time := by
    rw [queryKey, queryKey, settings.snapshotId]
  rw [← key] at left
  rw [snapshotAt_eq right, snapshotAt_eq left, ← answer_below _ history.events.entries,
    ← answer_below _ other.events.entries, key, checkpoints, events]
  simp only [answer, key, settings.baseSnapshot]

-----------------------------------------------------------------------------------------
-- Queries of canonical histories
-----------------------------------------------------------------------------------------

/-- A canonical history answers from the last settled event before the query and replays
the pending ones without moving the time.
-/
theorem Canonical.snapshotAt (canonical : history.Canonical)
    (absent : history.queryKey time ∉ history.checkpoints.keys)
    : history.snapshotAt time
      = some
          (Snapshot.setTime
            (settledReplay history.checkpointInterval history.baseSnapshot
              (below (history.queryKey time) history.events.entries))
            time) := by
  have ascending := history.events.ascending
  rw [snapshotAt_eq absent, canonical, below_marks ascending, answer,
    replay_resume_marks history.intervalPositive _ _ ascending]

/-- A canonical history with events that complete no interval at the query's key answers,
and one with an event that completes it there panics.
-/
theorem Canonical.snapshotAt_eq_none_iff (canonical : history.Canonical)
    : history.snapshotAt time = none
      ↔ history.queryKey time ∈ history.events.keys
        ∧ history.checkpointInterval
          ∣ (below (history.queryKey time) history.events.entries).length + 1 := by
  rw [← canonical.mem_checkpoint_keys]
  constructor
  · intro panicked
    by_contra absent
    simp [canonical.snapshotAt absent] at panicked
  · intro present
    refine snapshotAt_panics (fun empty => ?_) present
    have stored := (canonical.mem_checkpoint_keys.mp present).1
    simp [BTreeMap.keys, empty] at stored

/-- With time-blind events a canonical history answers with the state before the query's
key of the timeline it stores.
-/
theorem Canonical.snapshotAt_eq_stateBefore (overwrites : SetTimeOverwrites S E)
    (blind : TimeBlind S E) (canonical : history.Canonical)
    (absent : history.queryKey time ∉ history.checkpoints.keys)
    : history.snapshotAt time
      = some
          (Snapshot.setTime
            (history.timeline.stateBefore queryStep (history.queryKey time))
            time) := by
  rw [canonical.snapshotAt absent]
  exact congrArg some (settledReplay_of_blind overwrites blind _ _ _ time)

/-- A history with the same settings, checkpoints up to the query and events before it
answers alike, also when both queries panic.
-/
theorem Canonical.snapshotAt_congr {other : LocalSnapshotHistory S E}
    (left : other.Canonical) (right : history.Canonical)
    (settings : SameSettings other history)
    (checkpoints
      : upTo (history.queryKey time) other.checkpoints.entries
        = upTo (history.queryKey time) history.checkpoints.entries)
    (events
      : below (history.queryKey time) other.events.entries
        = below (history.queryKey time) history.events.entries)
    : other.snapshotAt time = history.snapshotAt time := by
  have key : other.queryKey time = history.queryKey time := by
    rw [queryKey, queryKey, settings.snapshotId]
  have present : other.queryKey time ∈ other.checkpoints.keys
      ↔ history.queryKey time ∈ history.checkpoints.keys := by
    have at_key (value : S)
        : (history.queryKey time, value) ∈ other.checkpoints.entries
          ↔ (history.queryKey time, value) ∈ history.checkpoints.entries := by
      have both := congrArg ((history.queryKey time, value) ∈ ·) checkpoints
      simpa using both
    simp only [key, BTreeMap.mem_keys, at_key]
  by_cases panics : history.queryKey time ∈ history.checkpoints.keys
  · rw [right.snapshotAt_eq_none_iff.mpr (right.mem_checkpoint_keys.mp panics),
      left.snapshotAt_eq_none_iff.mpr (left.mem_checkpoint_keys.mp (present.mpr panics))]
  · have before := congrArg (below (history.queryKey time)) checkpoints
    simp only [below_upTo_self] at before
    refine snapshotAt_congr_of_absent settings before events ?_ panics
    rw [← key]
    exact mt present.mp panics

/-- A history of events keeps no checkpoint at a key that was never delivered. -/
theorem queryKey_absent {snapshot : S} {currentTime horizon : Time} {interval : Nat}
    {positive : 0 < interval} {delivered : List E} {time : Time}
    (none : ∀ event ∈ delivered, ContimeKey.fromEvent event ≠ ⟨time, Snapshot.id snapshot⟩)
    : let history :=
        (newWithInterval snapshot currentTime horizon interval positive).applyEvents delivered
      history.queryKey time ∉ history.checkpoints.keys := by
  intro history present
  have canonical : history.Canonical :=
    (newWithInterval_canonical snapshot currentTime horizon interval positive).applyEvents _
  have settings : SameSettings history _ := applyEvents_settings _ delivered
  have stored := (canonical.mem_checkpoint_keys.mp present).1
  obtain ⟨event, found, same⟩ :=
    (newWithInterval_mem_keys snapshot currentTime horizon interval positive).mp stored
  refine none event found (same.trans ?_)
  exact congrArg (ContimeKey.mk time) settings.snapshotId

/-- With time-blind events a history built from events answers with the state before the
query of the timeline of what was delivered.
-/
theorem newWithInterval_stateBefore (overwrites : SetTimeOverwrites S E)
    (blind : TimeBlind S E) {snapshot : S} {currentTime horizon : Time} {interval : Nat}
    {positive : 0 < interval} {delivered : List E} {time : Time}
    (none : ∀ event ∈ delivered, ContimeKey.fromEvent event ≠ ⟨time, Snapshot.id snapshot⟩)
    : ((newWithInterval snapshot currentTime horizon interval positive).applyEvents
        delivered).snapshotAt time
      = some
          (Snapshot.setTime
            (Timeline.stateBefore queryStep
              ⟨Snapshot.setTime snapshot 0, BTreeMap.ofList (delivered.map keyed)⟩
              ⟨time, Snapshot.id snapshot⟩)
            time) := by
  have canonical :=
    (newWithInterval_canonical snapshot currentTime horizon interval positive).applyEvents
      delivered
  rw [canonical.snapshotAt_eq_stateBefore overwrites blind (queryKey_absent none),
    newWithInterval_timeline, queryKey, applyEvents_snapshotId, newWithInterval_snapshotId]

/-- So does whatever it answers, also at the key of an event. -/
theorem newWithInterval_answered (overwrites : SetTimeOverwrites S E) (blind : TimeBlind S E)
    {snapshot answer : S} {currentTime horizon : Time} {interval : Nat}
    {positive : 0 < interval} {delivered : List E} {time : Time}
    (answered : ((newWithInterval snapshot currentTime horizon interval positive).applyEvents
        delivered).snapshotAt time
      = some answer)
    : answer
      = Snapshot.setTime
          (Timeline.stateBefore queryStep
            ⟨Snapshot.setTime snapshot 0, BTreeMap.ofList (delivered.map keyed)⟩
            ⟨time, Snapshot.id snapshot⟩)
          time := by
  have canonical :=
    (newWithInterval_canonical snapshot currentTime horizon interval positive).applyEvents
      delivered
  have absent := mt (fun present =>
    canonical.snapshotAt_eq_none_iff.mpr (canonical.mem_checkpoint_keys.mp present))
    (answered ▸ Option.some_ne_none answer)
  rw [canonical.snapshotAt_eq_stateBefore overwrites blind absent, newWithInterval_timeline,
    queryKey, applyEvents_snapshotId, newWithInterval_snapshotId] at answered
  exact (Option.some.inj answered).symm

end LocalSnapshotHistory

end Contime
