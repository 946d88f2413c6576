import Contime.History.Accounting

/-! What an input costs a history, read off the history before it is applied: its own size and
the growth of the checkpoints. Within signed sizes the delta of an operation is its cost.
-/

open SortedEntries PeriodicReplay

namespace Contime

universe u v
variable {S : Type u} {E : Type v} [Event E] [Snapshot S E] [ApplyEvent E S]

namespace LocalSnapshotHistory
variable {history : LocalSnapshotHistory S E} {event : E} {snapshot : S}

/-- What a new event adds to the checkpoints: the one that the latest event completes, or the
growth of those that a late event rebuilds.
-/
def checkpointsCost (history : LocalSnapshotHistory S E) (event : E) : Int :=
  let key := ContimeKey.fromEvent event
  let entries := (history.events.insert key event).entries
  if above key history.events.entries = [] then
    let start := resume history.checkpoints.entries history.baseSnapshot entries
    if start.2.length % history.checkpointInterval = 0 then
      (Snapshot.conservativeSize (replay replayStep start.1 start.2)).toNat
    else 0
  else
    checkpointsSize (history.rebuilt key entries) - checkpointsSize history.checkpoints.entries

/-- What an event adds: itself and checkpoints, if its key is new. -/
def eventCost (history : LocalSnapshotHistory S E) (event : E) : Int :=
  if ContimeKey.fromEvent event ∈ history.events.keys then 0
  else (Event.conservativeSize event).toNat + history.checkpointsCost event

/-- What a snapshot of the history's id adds: itself and the checkpoints behind it, less those
that they replace.
-/
def snapshotCost (history : LocalSnapshotHistory S E) (snapshot : S) : Int :=
  if Snapshot.id snapshot = history.snapshotId then
    let key := history.authorityKey snapshot
    let added :=
      marks replayStep history.checkpointInterval 0 snapshot (above key history.events.entries)
    (Snapshot.conservativeSize snapshot).toNat + checkpointsSize added
      - checkpointsSize (atLeast key history.checkpoints.entries)
  else 0

/-- The delta of an event is its cost. -/
theorem applyEvent_cost (before : history.storedSize < 2 ^ 63)
    (after : (history.applyEvent event).1.storedSize < 2 ^ 63)
    : (history.applyEvent event).2.bytesDelta.toInt = history.eventCost event := by
  by_cases stored : ContimeKey.fromEvent event ∈ history.events.keys
  · rw [(applyEvent_stored history event stored).2, eventCost, if_pos stored]
    rfl
  have inserted := applyEvent_inserts stored
  have events := applyEvent_eventsSize stored
  rw [eventCost, if_neg stored, checkpointsCost]
  dsimp only
  by_cases latest : above (ContimeKey.fromEvent event) history.events.entries = []
  · rw [if_pos latest, ← inserted]
    rcases applyEvent_latest_cases stored latest with
      ⟨due, checkpoint, replayed, kept, grown⟩ | ⟨early, _, grown⟩
    · rw [if_pos due, ← replayed]
      obtain ⟨_, least⟩ :=
        checkpointsSize_insert_bounds history.checkpoints (ContimeKey.fromEvent event) checkpoint
      rw [storedSize, events, kept] at after
      rw [grown, bytes_eq, ← Int64.ofNat_add, Int64.toInt_ofNat_of_lt (by omega)]
      exact Int.natCast_add _ _
    · rw [if_neg early]
      rw [storedSize, events] at after
      rw [grown, Int64.toInt_ofNat_of_lt (by omega), Int.add_zero]
  · have late := applyEvent_late stored latest
    dsimp only at late
    have exactly : (history.applyEvent event).2.bytesDelta = _ :=
      applyEvent_bytesDelta (fun last => absurd last latest)
    rw [if_neg latest, exactly, SignedArithmetic.toInt_ofNat_sub before after, storedSize,
      storedSize, events, late, inserted]
    omega

/-- The delta of a snapshot is its cost. -/
theorem applySnapshot_cost (before : history.storedSize < 2 ^ 63)
    (after : (history.applySnapshot snapshot).1.storedSize < 2 ^ 63)
    : (history.applySnapshot snapshot).2.bytesDelta.toInt = history.snapshotCost snapshot := by
  rw [applySnapshot_bytesDelta, SignedArithmetic.toInt_ofNat_sub before after, snapshotCost]
  by_cases matching : Snapshot.id snapshot = history.snapshotId
  · have rebuilt := applySnapshot_checkpoints matching
    have split := congrArg checkpointsSize
      (history.checkpoints.ascending.below_append_atLeast (history.authorityKey snapshot))
    rw [checkpointsSize_append] at split
    rw [if_pos matching, storedSize, storedSize, applySnapshot_events, rebuilt,
      checkpointsSize_append, checkpointsSize_cons]
    dsimp only
    omega
  · rw [if_neg matching, applySnapshot_other matching, Int.sub_self]

end LocalSnapshotHistory

end Contime
