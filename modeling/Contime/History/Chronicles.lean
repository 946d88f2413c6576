import Contime.Abstract.Chronicle
import Contime.History.BoundedReplay
import Contime.History.Pruning
import Contime.History.QuerySafety

/-! Histories as chronicles. Events are deliveries, authoritative snapshots are anchors, advances
are cuts: over every run of the three, a history stores what the chronicle of its operations keeps,
and its checkpoints are the chronicle's marks.
-/

open SortedEntries PeriodicReplay AnchoredReplay

namespace Contime

universe u v
variable {S : Type u} {E : Type v} [Event E] [Snapshot S E] [ApplyEvent E S]

namespace LocalSnapshotHistory
variable {history : LocalSnapshotHistory S E} {chronicle : Chronicle ContimeKey E S} {event : E}
  {snapshot : S} {time : Time}

/-- The history stores the kept events on the chronicle's base, and its checkpoints are the
chronicle's marks.
-/
structure Records (history : LocalSnapshotHistory S E) (chronicle : Chronicle ContimeKey E S)
    : Prop where
  formed : chronicle.WellFormed history.checkpointInterval
  dense : history.Dense
  base : history.baseSnapshot = chronicle.base
  events : history.events = chronicle.kept
  checkpoints
    : history.checkpoints.entries = chronicle.marked replayStep history.checkpointInterval

/-- Every anchor is a checkpoint. -/
theorem Records.anchor_stored (records : history.Records chronicle) {anchor : ContimeKey × S}
    (member : anchor ∈ chronicle.anchors.entries)
    : anchor ∈ history.checkpoints.entries := by
  rw [records.checkpoints]
  exact mem_layout_of_anchor member

/-- A new history records an empty chronicle. -/
theorem newWithInterval_records (snapshot : S) (currentTime horizon : Time) (interval : Nat)
    (positive : 0 < interval)
    : (newWithInterval (E := E) snapshot currentTime horizon interval positive).Records
        (.new (Snapshot.setTime snapshot 0)) where
  formed := Chronicle.new_wellFormed positive _
  dense := newWithInterval_dense snapshot currentTime horizon interval positive
  base := rfl
  events := rfl
  checkpoints := rfl

/-- Making the checkpoints anew behind those before a key, as the chronicle does. -/
theorem Records.rebuilt (records : history.Records chronicle) (key : ContimeKey)
    (events : List (ContimeKey × E))
    : history.rebuilt key events
      = let front := below key (chronicle.marked replayStep history.checkpointInterval)
        let origin := resume front chronicle.base events
        front ++ marks replayStep history.checkpointInterval 0 origin.1 origin.2 := by
  rw [LocalSnapshotHistory.rebuilt, records.checkpoints, records.base]

/-- The last checkpoint, where it lies at the latest event or behind it, is the last anchor. -/
theorem Records.last_anchor (records : history.Records chronicle) {key : ContimeKey}
    (fresh : key ∉ history.events.keys) (latest : above key history.events.entries = [])
    {front : List (ContimeKey × S)} {last : ContimeKey × S}
    (shape : history.checkpoints.entries = front ++ [last]) (behind : key ≤ last.1)
    : chronicle.anchors.entries.getLast? = some last := by
  have member : last ∈ history.checkpoints.entries := by simp [shape]
  have anchor : last ∈ chronicle.anchors.entries := by
    rw [records.checkpoints] at member
    refine (records.formed.mem_marked member).resolve_right (fun stored => ?_)
    obtain ⟨entry, kept, same⟩ := stored
    rw [← records.events] at kept
    have reached := above_eq_nil_iff.mp latest entry kept
    have own : entry.1 = key := le_antisymm reached (same ▸ behind)
    exact fresh (BTreeMap.mem_keys.mpr ⟨entry.2, own ▸ kept⟩)
  rcases List.eq_nil_or_concat chronicle.anchors.entries with none | ⟨others, final, whole⟩
  · rw [none] at anchor
    cases anchor
  rw [List.concat_eq_append] at whole
  have found : final ∈ chronicle.anchors.entries := by simp [whole]
  have stored := records.anchor_stored found
  have low : final.1 ≤ last.1 := by
    have ascending := history.checkpoints.ascending
    rw [shape] at ascending stored
    exact ascending.le_last stored
  have high : last.1 ≤ final.1 := by
    have ascending := chronicle.anchors.ascending
    rw [whole] at ascending anchor
    exact ascending.le_last anchor
  have same := chronicle.anchors.ascending.entry_unique found anchor (le_antisymm low high)
  rw [whole, List.getLast?_concat, same]

/-- The latest event copies the last checkpoint to its own key where that lies behind it. -/
theorem applyEvent_behind_last (fresh : ContimeKey.fromEvent event ∉ history.events.keys)
    (latest : above (ContimeKey.fromEvent event) history.events.entries = [])
    {front : List (ContimeKey × S)} {last : ContimeKey × S}
    (shape : history.checkpoints.entries = front ++ [last])
    (behind : ContimeKey.fromEvent event ≤ last.1)
    : (history.applyEvent event).1.checkpoints
      = history.checkpoints.insert (ContimeKey.fromEvent event) last.2 := by
  have start
      : resume history.checkpoints.entries history.baseSnapshot
          (history.applyEvent event).1.events.entries
        = (last.2, []) := by
    have none : above last.1 (history.applyEvent event).1.events.entries = [] := by
      rw [above_insert_of_le fresh behind]
      exact above_eq_nil (fun entry member =>
        (above_eq_nil_iff.mp latest entry member).trans behind)
    rw [shape, resume_append_singleton, none]
  rcases applyEvent_latest_cases fresh latest with ⟨_, checkpoint, same, added, _⟩ | ⟨never, _⟩
  · rw [start] at same
    rw [added, same]
    rfl
  · rw [start] at never
    exact absurd (Nat.zero_mod _) never

/-- An event is delivered to the chronicle. -/
theorem Records.applyEvent (records : history.Records chronicle) (event : E)
    : (history.applyEvent event).1.Records
        (chronicle.deliver history.checkpointInterval (keyed event)) := by
  by_cases stored : ContimeKey.fromEvent event ∈ history.events.keys
  · have kept : (keyed event).1 ∈ chronicle.kept.keys := records.events ▸ stored
    rw [(applyEvent_stored history event stored).1, Chronicle.deliver_stored kept]
    exact records
  have fresh : (keyed event).1 ∉ chronicle.kept.keys := records.events ▸ stored
  have next : chronicle.deliver history.checkpointInterval (keyed event) = _ :=
    Chronicle.deliver_fresh fresh
  have events : (history.applyEvent event).1.events
      = (chronicle.deliver history.checkpointInterval (keyed event)).kept := by
    rw [next, applyEvent_inserts stored, records.events]
    rfl
  have base : history.baseSnapshot
      = (chronicle.deliver history.checkpointInterval (keyed event)).base := by
    rw [next]
    exact records.base
  refine ⟨records.formed.deliver (keyed event), records.dense.applyEvent event, base, events, ?_⟩
  have last (latest : above (keyed event).1 chronicle.kept.entries = [])
      : above (ContimeKey.fromEvent event) history.events.entries = [] :=
    records.events ▸ latest
  by_cases tight
    : above (ContimeKey.fromEvent event) history.events.entries = []
      → ∀ checkpoint ∈ history.checkpoints.entries,
          checkpoint.1 < ContimeKey.fromEvent event
  · have rebuilt : (history.applyEvent event).1.checkpoints.entries
        = history.rebuilt (ContimeKey.fromEvent event)
            (history.applyEvent event).1.events.entries := by
      by_cases latest : above (ContimeKey.fromEvent event) history.events.entries = []
      · exact applyEvent_latest stored latest (tight latest) records.dense.resume_short
      · exact applyEvent_late stored latest
    rw [rebuilt, records.rebuilt, events]
    refine (records.formed.deliver_marked fresh (fun latest anchor member => ?_)).symm
    exact tight (last latest) anchor (records.anchor_stored member)
  · push Not at tight
    obtain ⟨latest, checkpoint, member, behind⟩ := tight
    obtain ⟨front, final, shape⟩ :=
      (List.eq_nil_or_concat history.checkpoints.entries).resolve_left
        (List.ne_nil_of_mem member)
    rw [List.concat_eq_append] at shape
    have reached : ContimeKey.fromEvent event ≤ final.1 := by
      have ascending := history.checkpoints.ascending
      rw [shape] at ascending member
      exact behind.trans (ascending.le_last member)
    have anchored := records.last_anchor stored latest shape reached
    have kept : above (keyed event).1 chronicle.kept.entries = [] := records.events ▸ latest
    rw [applyEvent_behind_last stored latest shape reached, BTreeMap.insert_entries,
      records.checkpoints]
    exact (records.formed.deliver_marked_behind fresh kept anchored reached).symm

/-- A snapshot of the history's id is an authority at its key. -/
theorem Records.applySnapshot (records : history.Records chronicle)
    (matching : Snapshot.id snapshot = history.snapshotId)
    : (history.applySnapshot snapshot).1.Records
        (chronicle.authorize history.checkpointInterval (history.authorityKey snapshot)
          snapshot) := by
  have settings := applySnapshot_settings history snapshot
  refine ⟨?_, records.dense.applySnapshot snapshot, ?_, ?_, ?_⟩
  · rw [settings.checkpointInterval]
    exact records.formed.authorize _ _
  · rw [settings.baseSnapshot]
    exact records.base
  · rw [applySnapshot_events]
    exact records.events
  · rw [applySnapshot_checkpoints matching, settings.checkpointInterval,
      records.formed.authorize_marked, records.checkpoints, records.events]

/-- An advance cuts the chronicle at the drop key. -/
theorem Records.advance (records : history.Records chronicle) (step : Time)
    : (history.advance step).1.Records
        (chronicle.prune replayStep history.checkpointInterval (history.dropKey step)) := by
  refine ⟨records.formed.prune _, records.dense.advance step, ?_, ?_, ?_⟩
  · rw [advance_baseSnapshot, promoted, records.checkpoints, records.base]
    exact resume_fst _ _ _ _
  · refine BTreeMap.ext_entries ?_
    rw [advance_events, records.events]
    rfl
  · rw [advance_checkpoints, records.checkpoints]
    exact (records.formed.prune_marked _).symm

end LocalSnapshotHistory

-----------------------------------------------------------------------------------------
-- Runs of all operations
-----------------------------------------------------------------------------------------

/-- The clock and the chronicle after one call on a history with these settings. -/
def Operation.record (snapshotId : SnapshotId) (interval : Nat) (horizon : Time)
    (state : Time × Chronicle ContimeKey E S)
    : Operation S E → Time × Chronicle ContimeKey E S
  | .applyEvent event => (state.1, state.2.deliver interval (keyed event))
  | .applySnapshot snapshot =>
      if Snapshot.id snapshot = snapshotId then
        (state.1, state.2.authorize interval ⟨Snapshot.time snapshot, snapshotId⟩ snapshot)
      else
        state
  | .advance time =>
      (state.1 + time, state.2.prune replayStep interval ⟨state.1 + time - horizon, 0⟩)

/-- What a run of calls on a new history puts on record. -/
def chronicle (snapshot : S) (currentTime horizon : Time) (interval : Nat)
    (operations : List (Operation S E))
    : Chronicle ContimeKey E S :=
  (operations.foldl (Operation.record (Snapshot.id snapshot) interval horizon)
    (currentTime, .new (Snapshot.setTime snapshot 0))).2

namespace LocalSnapshotHistory
variable {history : LocalSnapshotHistory S E} {recorded : Chronicle ContimeKey E S}

/-- Every run keeps a history and the chronicle of its operations in step. -/
theorem Records.run (records : history.Records recorded) (operations : List (Operation S E))
    : (history.run operations).Records
        (operations.foldl
          (Operation.record history.snapshotId history.checkpointInterval
            history.lowerTimeHorizonDelta)
          (history.currentTime, recorded)).2 := by
  induction operations generalizing history recorded with
  | nil => exact records
  | cons operation rest ih =>
      cases operation with
      | applyEvent event => exact ih (records.applyEvent event)
      | applySnapshot snapshot =>
          have settings := applySnapshot_settings history snapshot
          rw [List.foldl_cons, Operation.record]
          by_cases matching : Snapshot.id snapshot = history.snapshotId
          · have next := ih (records.applySnapshot matching)
            rw [settings.snapshotId, settings.checkpointInterval, settings.currentTime,
              settings.lowerTimeHorizonDelta] at next
            rw [if_pos matching]
            exact next
          · have same : (history.perform (.applySnapshot snapshot)).1 = history := by
              rw [LocalSnapshotHistory.perform, applySnapshot_other matching]
            rw [if_neg matching, LocalSnapshotHistory.run, Transducer.final_cons, same]
            exact ih records
      | advance time => exact ih (records.advance time)

/-- A run of a new history records its operations. -/
theorem run_records (snapshot : S) (currentTime horizon : Time) (interval : Nat)
    (positive : 0 < interval) (operations : List (Operation S E))
    : ((newWithInterval snapshot currentTime horizon interval positive).run operations).Records
        (chronicle snapshot currentTime horizon interval operations) :=
  (newWithInterval_records snapshot currentTime horizon interval positive).run operations

/-- A query that finds no checkpoint at its key answers with what its chronicle shows there. -/
theorem Records.snapshotAt (records : history.Records recorded) {time : Time}
    (absent : history.queryKey time ∉ history.checkpoints.keys)
    : let view := recorded.visible history.checkpointInterval (history.queryKey time)
      history.snapshotAt time
        = some
            (Snapshot.setTime (settledReplay history.checkpointInterval view.1 view.2) time) := by
  intro view
  obtain ⟨state, rest⟩ := records.formed.resume_visible replayStep (history.queryKey time)
  rw [snapshotAt_eq absent, answer, records.checkpoints, records.base, records.events, state, rest]
  rfl

/-- In every run of events, authoritative snapshots and advances, a history stores the events that
the chronicle of the run keeps, on its base, and its checkpoints are the anchors of the chronicle
with the mark of every full interval of events between them. By a simulation over the operations.
-/
theorem run_refines_chronicle (snapshot : S) (currentTime horizon : Time) (interval : Nat)
    (positive : 0 < interval) (operations : List (Operation S E))
    : let history := (newWithInterval snapshot currentTime horizon interval positive).run operations
      let recorded := chronicle snapshot currentTime horizon interval operations
      history.events = recorded.kept
      ∧ history.baseSnapshot = recorded.base
      ∧ history.checkpoints.entries
        = layout replayStep interval recorded.base recorded.anchors.entries
            (recorded.lost ++ recorded.kept.entries) := by
  intro history recorded
  have records := run_records snapshot currentTime horizon interval positive operations
  have steady : history.checkpointInterval = interval := run_checkpointInterval ..
  have checkpoints := records.checkpoints
  rw [steady] at checkpoints
  exact ⟨records.events, records.base, checkpoints⟩

/-- A run with a late event behind an authoritative snapshot, pruned in between. -/
theorem run_refines_chronicle_of_late
    : let operations : List (Operation TestSnapshot TestEvent) :=
        [.applyEvent (.positive 1 8 0 1), .applySnapshot ⟨1, 5, [], 100⟩,
          .applyEvent (.positive 1 9 0 2), .advance 6, .applyEvent (.positive 1 7 0 3)]
      let history := (newWithInterval ⟨1, 0, [], 0⟩ 0 0 1 (by decide)).run operations
      history.events = (chronicle ⟨1, 0, [], 0⟩ 0 0 1 operations).kept
      ∧ history.baseSnapshot = ⟨1, 5, [], 100⟩ := by
  intro operations history
  have refined :=
    run_refines_chronicle (⟨1, 0, [], 0⟩ : TestSnapshot) 0 0 1 (by decide) operations
  exact ⟨refined.1, refined.2.1.trans (by decide)⟩

/-- The query of a run whose key no operation has, on the chronicle of the run. -/
theorem run_snapshotAt_eq (snapshot : S) (currentTime horizon : Time) (interval : Nat)
    (positive : 0 < interval) {operations : List (Operation S E)} {time : Time}
    (untouched
      : ∀ operation ∈ operations,
          operation.key (Snapshot.id snapshot) ≠ some ⟨time, Snapshot.id snapshot⟩)
    : let view :=
        (chronicle snapshot currentTime horizon interval operations).visible interval
          ⟨time, Snapshot.id snapshot⟩
      ((newWithInterval snapshot currentTime horizon interval positive).run
          operations).snapshotAt time
        = some (Snapshot.setTime (settledReplay interval view.1 view.2) time) := by
  intro view
  have records := run_records snapshot currentTime horizon interval positive operations
  have steady
      : ((newWithInterval snapshot currentTime horizon interval positive).run
          operations).checkpointInterval
        = interval :=
    run_checkpointInterval ..
  have query
      : ((newWithInterval snapshot currentTime horizon interval positive).run
          operations).queryKey time
        = ⟨time, Snapshot.id snapshot⟩ :=
    congrArg (ContimeKey.mk time) (run_snapshotId _ _)
  have free := run_checkpoint_absent snapshot currentTime horizon interval positive untouched
  have answered := records.snapshotAt (query.symm ▸ free)
  rw [steady, query] at answered
  exact answered

/-- In every run of the three operations, a query whose key no operation has answers with the
events and the state that the chronicle of the run shows before that key, replayed with the time
moved up to the last full interval. By the simulation: the checkpoint before the key is an anchor
of the chronicle or one of its marks.
-/
theorem run_answers_from_chronicle (snapshot : S) (currentTime horizon : Time) (interval : Nat)
    (positive : 0 < interval) (operations : List (Operation S E)) (time : Time)
    (untouched
      : ∀ operation ∈ operations,
          operation.key (Snapshot.id snapshot) ≠ some ⟨time, Snapshot.id snapshot⟩)
    : let view :=
        (chronicle snapshot currentTime horizon interval operations).visible interval
          ⟨time, Snapshot.id snapshot⟩
      ((newWithInterval snapshot currentTime horizon interval positive).run
          operations).snapshotAt time
        = some (Snapshot.setTime (settledReplay interval view.1 view.2) time) :=
  run_snapshotAt_eq snapshot currentTime horizon interval positive untouched

/-- A query between an authoritative snapshot and the events behind it. -/
theorem run_answers_from_chronicle_behind_snapshot
    : let operations : List (Operation TestSnapshot TestEvent) :=
        [.applyEvent (.positive 1 3 0 1), .applyEvent (.positive 1 8 0 2),
          .applySnapshot ⟨1, 5, [], 100⟩]
      ((newWithInterval ⟨1, 0, [], 0⟩ 0 0 2 (by decide)).run operations).snapshotAt 9
        = some ⟨1, 9, [2], 102⟩ := by
  intro operations
  have answered :=
    run_answers_from_chronicle (⟨1, 0, [], 0⟩ : TestSnapshot) 0 0 2 (by decide) operations 9
      (by decide)
  exact answered.trans (by decide)

end LocalSnapshotHistory

end Contime
