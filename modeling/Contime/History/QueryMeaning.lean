import Contime.History.Probes

/-! What a query of an event history means: a full replay, which events it can depend on,
and when the placement of checkpoints shows.
-/

open SortedEntries PeriodicReplay

namespace Contime

universe u v
variable {S : Type u} {E : Type v} [Event E] [Snapshot S E] [ApplyEvent E S]

namespace LocalSnapshotHistory

-----------------------------------------------------------------------------------------
-- A query is a full replay
-----------------------------------------------------------------------------------------

/-- A history built from events answers from its delivered events before the query. -/
theorem newWithInterval_snapshotAt (snapshot : S) (currentTime horizon : Time)
    (interval : Nat) (positive : 0 < interval) (delivered : List E) (time : Time)
    (none : ∀ event ∈ delivered, ContimeKey.fromEvent event ≠ ⟨time, Snapshot.id snapshot⟩)
    : let history :=
        (newWithInterval snapshot currentTime horizon interval positive).applyEvents delivered
      history.snapshotAt time
        = some
            (Snapshot.setTime
              (settledReplay interval (Snapshot.setTime snapshot 0)
                (below ⟨time, Snapshot.id snapshot⟩
                  (BTreeMap.ofList (delivered.map keyed)).entries))
              time) := by
  intro history
  have canonical : history.Canonical :=
    (newWithInterval_canonical snapshot currentTime horizon interval positive).applyEvents _
  have settings : SameSettings history _ := applyEvents_settings _ delivered
  rw [canonical.snapshotAt (queryKey_absent none)]
  simp only [queryKey, settings.snapshotId, settings.baseSnapshot, history,
    settings.checkpointInterval, newWithInterval_events, newWithInterval_baseSnapshot,
    newWithInterval_snapshotId, newWithInterval_checkpointInterval]

/-- A query answered from the nearest checkpoint is the base snapshot with all distinct delivered
events before its key applied once each in key order, its time set to the query's. By canonical
form: each checkpoint holds a replayed prefix, and a time-blind replay may start from any of them.
-/
theorem snapshotAt_eq_full_replay (overwrites : SetTimeOverwrites S E)
    (blind : TimeBlind S E) (snapshot : S) (currentTime horizon : Time) (interval : Nat)
    (positive : 0 < interval) (delivered : List E) (time : Time)
    (none : ∀ event ∈ delivered, ContimeKey.fromEvent event ≠ ⟨time, Snapshot.id snapshot⟩)
    : let history :=
        (newWithInterval snapshot currentTime horizon interval positive).applyEvents delivered
      history.snapshotAt time
        = some
            (Snapshot.setTime
              (replay queryStep (Snapshot.setTime snapshot 0)
                (below ⟨time, Snapshot.id snapshot⟩
                  (BTreeMap.ofList (delivered.map keyed)).entries))
              time) := by
  exact newWithInterval_stateBefore overwrites blind none

/-- Three deliveries of two events, out of order, queried behind both. -/
theorem snapshotAt_eq_full_replay_reordered
    : ((newWithInterval (TestSnapshot.mk 1 0 [] 0) 0 60 2 (by decide)).applyEvents
        [.positive 1 5 2 4, .negative 1 3 7 1, .positive 1 5 2 4]).snapshotAt 6
      = some ⟨1, 6, [-1, 4], 3⟩ :=
  (snapshotAt_eq_full_replay testSnapshot_setTimeOverwrites testEvent_timeBlind
    (TestSnapshot.mk 1 0 [] 0) 0 60 2 (by decide)
    [.positive 1 5 2 4, .negative 1 3 7 1, .positive 1 5 2 4] 6 (by decide)).trans (by decide)

-----------------------------------------------------------------------------------------
-- Events that a query cannot see
-----------------------------------------------------------------------------------------

/-- A delivered event that a query over `log` does not notice: it is stored already; its
key lies behind the query's; it falls on the query's key without completing an interval; or
the query panics before and after it, on the event stored at its key.
-/
def HiddenFrom (snapshotId : SnapshotId) (interval : Nat) (log : BTreeMap ContimeKey E)
    (time : Time) (event : E)
    : Prop :=
  let query : ContimeKey := ⟨time, snapshotId⟩
  ContimeKey.fromEvent event ∈ log.keys
  ∨ query < ContimeKey.fromEvent event
  ∨ (ContimeKey.fromEvent event = query ∧ ¬ interval ∣ (below query log.entries).length + 1)
  ∨ (interval = 1 ∧ query ∈ log.keys)

instance (snapshotId : SnapshotId) (interval : Nat) (log : BTreeMap ContimeKey E)
    (time : Time) (event : E)
    : Decidable (HiddenFrom snapshotId interval log time event) := by
  unfold HiddenFrom
  infer_instance

section
variable {history : LocalSnapshotHistory S E} {time : Time} {event : E}

/-- An event behind a query's key leaves the query's checkpoints and events alone. -/
theorem Canonical.snapshotAt_applyEvent_of_lt (canonical : history.Canonical)
    (fresh : ContimeKey.fromEvent event ∉ history.events.keys)
    (behind : history.queryKey time < ContimeKey.fromEvent event)
    : (history.applyEvent event).1.snapshotAt time = history.snapshotAt time := by
  have next := canonical.applyEvent event
  refine next.snapshotAt_congr canonical (applyEvent_settings history event) ?_ ?_
  · have kept : upTo (history.queryKey time) (history.applyEvent event).1.events.entries
        = upTo (history.queryKey time) history.events.entries := by
      have none : upTo (history.queryKey time) [keyed event] = [] :=
        upTo_eq_nil (by simpa [keyed] using behind)
      have split := history.events.below_append_above fresh
      rw [insert_events_entries fresh, upTo_append, ← List.singleton_append, upTo_append,
        none, List.nil_append, ← upTo_append, split]
    have marked : (history.applyEvent event).1.checkpoints.entries = _ := next
    rw [marked, canonical, upTo_marks (history.applyEvent event).1.events.ascending,
      upTo_marks history.events.ascending, kept]
    rfl
  · exact below_insert_of_le fresh behind.le

/-- An event on a query's own key is not replayed; it is not a checkpoint either unless it
completes an interval.
-/
theorem Canonical.snapshotAt_applyEvent_of_eq (canonical : history.Canonical)
    (fresh : ContimeKey.fromEvent event ∉ history.events.keys)
    (same : ContimeKey.fromEvent event = history.queryKey time)
    (unmarked
      : ¬ history.checkpointInterval
          ∣ (below (history.queryKey time) history.events.entries).length + 1)
    : (history.applyEvent event).1.snapshotAt time = history.snapshotAt time := by
  have next := canonical.applyEvent event
  have marked : (history.applyEvent event).1.checkpoints.entries = _ := next
  have earlier : below (history.queryKey time) (history.applyEvent event).1.events.entries
      = below (history.queryKey time) history.events.entries :=
    below_insert_of_le fresh same.ge
  have free : history.queryKey time ∉ history.checkpoints.keys := fun present =>
    fresh (same ▸ (canonical.mem_checkpoint_keys.mp present).1)
  have absent : history.queryKey time ∉ (history.applyEvent event).1.checkpoints.keys :=
    fun present => unmarked (earlier ▸ (next.mem_checkpoint_keys.mp present).2)
  have checkpoints : below (history.queryKey time) (history.applyEvent event).1.checkpoints.entries
      = below (history.queryKey time) history.checkpoints.entries := by
    rw [marked, canonical, below_marks (history.applyEvent event).1.events.ascending,
      below_marks history.events.ascending, earlier]
    rfl
  exact snapshotAt_congr_of_absent (applyEvent_settings history event) checkpoints earlier
    absent free

/-- A query answers as before an event that stays hidden from it. -/
theorem Canonical.snapshotAt_applyEvent_of_hidden (canonical : history.Canonical)
    (hidden
      : HiddenFrom history.snapshotId history.checkpointInterval history.events time event)
    : (history.applyEvent event).1.snapshotAt time = history.snapshotAt time := by
  by_cases stored : ContimeKey.fromEvent event ∈ history.events.keys
  · rw [(applyEvent_stored history event stored).1]
  rcases hidden with present | behind | ⟨same, unmarked⟩ | ⟨every, panics⟩
  · exact absurd present stored
  · exact canonical.snapshotAt_applyEvent_of_lt stored behind
  · exact canonical.snapshotAt_applyEvent_of_eq stored same unmarked
  · -- Every event is a checkpoint, so both queries hit the one at their key.
    have kept : history.queryKey time ∈ (history.applyEvent event).1.events.keys := by
      rw [applyEvent_events, BTreeMap.mem_keys_insertNew]
      exact Or.inr panics
    have divides (count : Nat) : history.checkpointInterval ∣ count := by
      rw [every]
      exact Nat.one_dvd count
    have before := canonical.snapshotAt_eq_none_iff.mpr ⟨panics, divides _⟩
    have after := (canonical.applyEvent event).snapshotAt_eq_none_iff.mpr ⟨kept, divides _⟩
    rw [before, after]

end

/-- A tally answers differently after an event that is not hidden from the query: the event
is counted, or it is a checkpoint that the query panics on.
-/
theorem Canonical.tally_notices {history : LocalSnapshotHistory (Tally.{u} E) E}
    (canonical : history.Canonical) {time : Time} {event : E}
    (visible
      : ¬ HiddenFrom history.snapshotId history.checkpointInterval history.events time event)
    : (history.applyEvent event).1.snapshotAt time ≠ history.snapshotAt time := by
  obtain ⟨fresh, visible⟩ := not_or.mp visible
  obtain ⟨reached, visible⟩ := not_or.mp visible
  obtain ⟨boundary, several⟩ := not_or.mp visible
  have next := canonical.applyEvent event
  have panics : history.snapshotAt time = none ↔ _ := canonical.snapshotAt_eq_none_iff
  have panicsNext : (history.applyEvent event).1.snapshotAt time = none
      ↔ (history.queryKey time = ContimeKey.fromEvent event
          ∨ history.queryKey time ∈ history.events.keys)
        ∧ history.checkpointInterval
          ∣ (below (history.queryKey time) (history.applyEvent event).1.events.entries).length
            + 1 := by
    rw [next.snapshotAt_eq_none_iff, applyEvent_events, BTreeMap.mem_keys_insertNew]
    rfl
  intro same
  rcases lt_trichotomy (ContimeKey.fromEvent event) (history.queryKey time) with
    before | equal | behind
  · rw [same, length_below_insert fresh before] at panicsNext
    -- The new event moves the position of the query's key, so neither query panics.
    have answers : history.snapshotAt time ≠ none := by
      intro panicked
      obtain ⟨stored, aligned⟩ := panics.mp panicked
      obtain ⟨_, shifted⟩ := panicsNext.mp panicked
      exact several ⟨Nat.dvd_one.mp ((Nat.dvd_add_right aligned).mp shifted), stored⟩
    have unmarked {other : LocalSnapshotHistory (Tally E) E} (shape : other.Canonical)
        (answers : other.snapshotAt time ≠ none)
        : other.queryKey time ∉ other.checkpoints.keys := fun present =>
      answers (shape.snapshotAt_eq_none_iff.mpr (shape.mem_checkpoint_keys.mp present))
    have now := canonical.tally_snapshotAt (unmarked canonical answers)
    have later : _ = some (history.baseSnapshot.applied
        + (below (history.queryKey time) (history.applyEvent event).1.events.entries).length) :=
      next.tally_snapshotAt (unmarked next (same ▸ answers))
    rw [same, now, length_below_insert fresh before] at later
    have contradiction := Option.some.inj later
    omega
  · have marked : (history.applyEvent event).1.snapshotAt time = none := by
      rw [panicsNext, below_insert_of_le fresh equal.ge]
      exact ⟨Or.inl equal.symm, not_not.mp (fun unmarked => boundary ⟨equal, unmarked⟩)⟩
    exact fresh (equal ▸ (panics.mp (same ▸ marked)).1)
  · exact reached behind

/-- An event leaves the answer of a query alone under every snapshot model if and only if it is
hidden from the query. Witness for the other events: the model that counts the applied ones.
-/
theorem snapshotAt_applyEvent_iff_hidden (snapshotId : SnapshotId) (interval : Nat)
    (positive : 0 < interval) (delivered : List E) (time : Time) (event : E)
    : (∀ (S : Type u) [Snapshot S E] [ApplyEvent E S] (snapshot : S)
          (currentTime horizon : Time),
        Snapshot.id snapshot = snapshotId
        → let history :=
            (newWithInterval snapshot currentTime horizon interval positive).applyEvents
              delivered
          (history.applyEvent event).1.snapshotAt time = history.snapshotAt time)
      ↔ HiddenFrom snapshotId interval (BTreeMap.ofList (delivered.map keyed)) time event := by
  have canonical {S : Type u} [Snapshot S E] [ApplyEvent E S] (snapshot : S)
      (currentTime horizon : Time)
      : ((newWithInterval snapshot currentTime horizon interval positive).applyEvents
          delivered).Canonical :=
    (newWithInterval_canonical snapshot currentTime horizon interval positive).applyEvents _
  have hidden_iff {S : Type u} [Snapshot S E] [ApplyEvent E S] (snapshot : S)
      (currentTime horizon : Time) (same : Snapshot.id snapshot = snapshotId)
      : let history :=
          (newWithInterval snapshot currentTime horizon interval positive).applyEvents delivered
        HiddenFrom history.snapshotId history.checkpointInterval history.events time event
          ↔ HiddenFrom snapshotId interval (BTreeMap.ofList (delivered.map keyed)) time
              event := by
    intro history
    have settings : SameSettings history _ := applyEvents_settings _ delivered
    rw [settings.snapshotId, settings.checkpointInterval, newWithInterval_events,
      newWithInterval_snapshotId, newWithInterval_checkpointInterval, same]
  constructor
  · intro unchanged
    let start : Tally.{u} E := { id := snapshotId, time := 0, applied := 0 }
    by_contra visible
    have here := (hidden_iff start 0 0 rfl).not.mpr visible
    exact (canonical start 0 0).tally_notices here (unchanged _ start 0 0 rfl)
  · intro hidden S _ _ snapshot currentTime horizon same
    have here := (hidden_iff snapshot currentTime horizon same).mpr hidden
    exact (canonical snapshot currentTime horizon).snapshotAt_applyEvent_of_hidden here

/-- An event at the query's own time with an id behind the snapshot's is hidden. -/
theorem snapshotAt_applyEvent_iff_hidden_larger_id
    : let history : LocalSnapshotHistory TestSnapshot TestEvent :=
        (newWithInterval ⟨1, 0, [], 0⟩ 0 60 2 (by decide)).applyEvents [.positive 1 3 7 1]
      (history.applyEvent (.positive 1 4 9 2)).1.snapshotAt 4 = history.snapshotAt 4 := by
  have unchanged_iff :=
    snapshotAt_applyEvent_iff_hidden.{0} 1 2 (by decide) [TestEvent.positive 1 3 7 1] 4
      (TestEvent.positive 1 4 9 2)
  exact unchanged_iff.mpr (by decide) TestSnapshot ⟨1, 0, [], 0⟩ 0 60 rfl

/-- An event at the query's own time with an id before the snapshot's changes the answer. -/
theorem snapshotAt_sees_event_at_own_time
    : let history : LocalSnapshotHistory TestSnapshot TestEvent :=
        newWithInterval ⟨1, 0, [], 0⟩ 0 60 CHECKPOINT_INTERVAL (by decide)
      let event : TestEvent := .positive 1 10 0 5
      (10 : Time) ≤ Event.time event
      ∧ history.snapshotAt 10 = some ⟨1, 10, [], 0⟩
      ∧ (history.applyEvent event).1.snapshotAt 10 = some ⟨1, 10, [5], 5⟩ := by
  decide

-----------------------------------------------------------------------------------------
-- The placement of checkpoints
-----------------------------------------------------------------------------------------

/-- Two intervals replay `count` earlier events alike: they settle the same prefix, or
the time moved after a replayed event never shows, be it that events ignore the time or
that at most one event is replayed behind either prefix.
-/
def ReplayAlike (S : Type u) (E : Type v) [Snapshot S E] [ApplyEvent E S]
    (first second count : Nat)
    : Prop :=
  count % first = count % second
  ∨ (SetTimeOverwrites S E
    ∧ (TimeBlind S E ∨ (count % first ≤ 1 ∧ count % second ≤ 1)))

/-- Histories of the same events answer alike for two checkpoint intervals that replay the
events before the query alike.
-/
theorem snapshotAt_congr_interval {first second : Nat} (firstPositive : 0 < first)
    (secondPositive : 0 < second) {delivered : List E} {time : Time}
    (snapshot : S) (currentTime horizon : Time)
    (none : ∀ event ∈ delivered, ContimeKey.fromEvent event ≠ ⟨time, Snapshot.id snapshot⟩)
    (alike
      : ReplayAlike S E first second
          (below ⟨time, Snapshot.id snapshot⟩
            (BTreeMap.ofList (delivered.map keyed)).entries).length)
    : ((newWithInterval snapshot currentTime horizon first firstPositive).applyEvents
        delivered).snapshotAt time
      = ((newWithInterval snapshot currentTime horizon second secondPositive).applyEvents
          delivered).snapshotAt time := by
  rw [newWithInterval_snapshotAt _ _ _ _ _ _ _ none,
    newWithInterval_snapshotAt _ _ _ _ _ _ _ none]
  rcases alike with settledSame | ⟨overwrites, blind | ⟨shortFirst, shortSecond⟩⟩
  · generalize below ⟨time, Snapshot.id snapshot⟩
      (BTreeMap.ofList (delivered.map keyed)).entries = entries at settledSame ⊢
    have same : entries.length / first * first = entries.length / second * second := by
      have left := Nat.div_add_mod' entries.length first
      have right := Nat.div_add_mod' entries.length second
      omega
    simp only [settledReplay, settled, pending, same]
  · rw [settledReplay_of_blind overwrites blind, settledReplay_of_blind overwrites blind]
  · rw [settledReplay_of_short overwrites _ shortFirst,
      settledReplay_of_short overwrites _ shortSecond]

/-- Under the snapshot model `S`, two checkpoint intervals answer a query alike. -/
def IntervalsAgree (S : Type u) [Snapshot S E] [ApplyEvent E S] (snapshotId : SnapshotId)
    {first second : Nat} (firstPositive : 0 < first) (secondPositive : 0 < second)
    (delivered : List E) (time : Time)
    : Prop :=
  ∀ (snapshot : S) (currentTime horizon : Time), Snapshot.id snapshot = snapshotId
  → ((newWithInterval snapshot currentTime horizon first firstPositive).applyEvents
      delivered).snapshotAt time
    = ((newWithInterval snapshot currentTime horizon second secondPositive).applyEvents
        delivered).snapshotAt time

/-- Intervals that agree give a snapshot the same answer replays. -/
theorem IntervalsAgree.settledReplay_eq {snapshotId : SnapshotId} {first second : Nat}
    {firstPositive : 0 < first} {secondPositive : 0 < second} {delivered : List E}
    {time : Time}
    (agree : IntervalsAgree S snapshotId firstPositive secondPositive delivered time)
    (none : ∀ event ∈ delivered, ContimeKey.fromEvent event ≠ ⟨time, snapshotId⟩)
    {snapshot : S} (same : Snapshot.id snapshot = snapshotId)
    : let entries := below ⟨time, snapshotId⟩ (BTreeMap.ofList (delivered.map keyed)).entries
      Snapshot.setTime (settledReplay first (Snapshot.setTime snapshot 0) entries) time
        = Snapshot.setTime (settledReplay second (Snapshot.setTime snapshot 0) entries) time := by
  subst same
  have equal := agree snapshot 0 0 rfl
  rw [newWithInterval_snapshotAt _ _ _ _ _ _ _ none,
    newWithInterval_snapshotAt _ _ _ _ _ _ _ none] at equal
  exact Option.some.inj equal

/-- For which snapshot models two checkpoint intervals cannot be told apart by a query with
`count` earlier events: for all models if the intervals settle the same prefix; for all models
whose time overwrites also if at most one event follows either prefix; and always for models that
besides ignore the time in their events. Witnesses: the model that counts how often its time was
moved, and the one that counts the events that meet a stale time.
-/
theorem snapshotAt_interval_irrelevant_iff (snapshotId : SnapshotId) (first second : Nat)
    (firstPositive : 0 < first) (secondPositive : 0 < second) (delivered : List E)
    (time : Time) (none : ∀ event ∈ delivered, ContimeKey.fromEvent event ≠ ⟨time, snapshotId⟩)
    : let count :=
        (below ⟨time, snapshotId⟩ (BTreeMap.ofList (delivered.map keyed)).entries).length
      ((∀ (S : Type u) [Snapshot S E] [ApplyEvent E S],
          IntervalsAgree S snapshotId firstPositive secondPositive delivered time)
        ↔ count % first = count % second)
      ∧ ((∀ (S : Type u) [Snapshot S E] [ApplyEvent E S], SetTimeOverwrites S E
          → IntervalsAgree S snapshotId firstPositive secondPositive delivered time)
        ↔ count % first = count % second ∨ (count % first ≤ 1 ∧ count % second ≤ 1))
      ∧ (∀ (S : Type u) [Snapshot S E] [ApplyEvent E S], SetTimeOverwrites S E
        → TimeBlind S E
        → IntervalsAgree S snapshotId firstPositive secondPositive delivered time) := by
  intro count
  have agree (S : Type u) [Snapshot S E] [ApplyEvent E S]
      (alike : ReplayAlike S E first second count)
      : IntervalsAgree S snapshotId firstPositive secondPositive delivered time := by
    intro snapshot currentTime horizon same
    subst same
    exact snapshotAt_congr_interval firstPositive secondPositive snapshot currentTime horizon
      none alike
  have folded : (below ⟨time, snapshotId⟩
      (BTreeMap.ofList (delivered.map keyed)).entries).length = count := rfl
  have firstSplit := Nat.div_add_mod' count first
  have secondSplit := Nat.div_add_mod' count second
  refine ⟨⟨fun all => ?_, fun same S _ _ => agree S (Or.inl same)⟩,
    ⟨fun all => ?_, fun condition S _ _ overwrites => agree S ?_⟩,
    fun S _ _ overwrites blind => agree S (Or.inr ⟨overwrites, Or.inl blind⟩)⟩
  · -- The time is moved once for every settled event.
    have moves := congrArg MoveCount.moves
      ((all (MoveCount.{u} E)).settledReplay_eq none
        (show Snapshot.id (MoveCount.mk snapshotId 0 0 : MoveCount.{u} E) = snapshotId from rfl))
    simp only [Snapshot.setTime, MoveCount.moves_settledReplay, length_settled, folded] at moves
    omega
  · -- Every pending event but the first finds a stale time.
    have stale := congrArg StaleCount.stale
      ((all (StaleCount.{u} E) StaleCount.setTimeOverwrites).settledReplay_eq none
        (show Snapshot.id (StaleCount.mk snapshotId (some 0) 0 : StaleCount.{u} E) = snapshotId
          from rfl))
    simp only [Snapshot.setTime, StaleCount.stale_settledReplay, length_pending, folded] at stale
    omega
  · exact condition.elim Or.inl (fun short => Or.inr ⟨overwrites, Or.inr short⟩)

/-- Two events queried with intervals that settle different prefixes of them. -/
theorem snapshotAt_interval_irrelevant_iff_two_events
    : (¬ ∀ (S : Type) [Snapshot S TestEvent] [ApplyEvent TestEvent S],
        IntervalsAgree S 1 (Nat.zero_lt_succ 0) (Nat.zero_lt_succ 2)
          [TestEvent.positive 1 1 0 1, TestEvent.positive 1 3 0 1] 5)
      ∧ IntervalsAgree TestSnapshot 1 (Nat.zero_lt_succ 0) (Nat.zero_lt_succ 2)
          [TestEvent.positive 1 1 0 1, TestEvent.positive 1 3 0 1] 5 := by
  obtain ⟨all, _, blind⟩ :=
    snapshotAt_interval_irrelevant_iff.{0} 1 1 3 (Nat.zero_lt_succ 0) (Nat.zero_lt_succ 2)
      [TestEvent.positive 1 1 0 1, TestEvent.positive 1 3 0 1] 5 (by decide)
  exact ⟨all.not.mpr (by decide),
    blind TestSnapshot testSnapshot_setTimeOverwrites testEvent_timeBlind⟩

/-- A model that adds up elapsed time tells a checkpoint behind every event from none. -/
theorem snapshotAt_interval_shows
    : let delivered : List TestEvent := [.positive 1 1 0 1, .positive 1 3 0 1]
      let start : Elapsed := ⟨1, 0, 0⟩
      ((newWithInterval start 0 60 1 (by decide)).applyEvents delivered).snapshotAt 5
        = some ⟨1, 5, 3⟩
      ∧ ((newWithInterval start 0 60 3 (by decide)).applyEvents delivered).snapshotAt 5
        = some ⟨1, 5, 4⟩ := by
  decide

end LocalSnapshotHistory

end Contime
