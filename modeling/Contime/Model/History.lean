import Contime.Model.Apply
import Contime.Library.Transducer

/-! One snapshot's history: events, checkpoints, pruning, and queries.
A reconciliation is handed to `try_send`, whose result the code ignores, so an operation
returns the message it attempts to send and the stored state does not depend on delivery.
-/

open SortedEntries

namespace Contime

universe u v
variable {S : Type u} {E : Type v} [Event E] [Snapshot S E] [ApplyEvent E S]

/-- Notification that previously queried history must be reconsidered. -/
structure Reconciliation where
  snapshotId : SnapshotId
  fromTime : Time
  toTime : Time
  deriving DecidableEq, Repr

/-- Per-snapshot history store. The interval is positive, as the code divides by it. -/
@[ext] structure LocalSnapshotHistory (S : Type u) (E : Type v) where
  snapshotId : SnapshotId
  baseSnapshot : S
  checkpoints : BTreeMap ContimeKey S
  events : BTreeMap ContimeKey E
  /-- The last `advance` cut off all events, so that the map without events has a root. -/
  eventsEmptied : Bool
  checkpointInterval : Nat
  intervalPositive : 0 < checkpointInterval
  currentTime : Time
  lowerTimeHorizonDelta : Time

/-- What a caller sees of one operation: its memory delta and the message it tried to
send.
-/
structure Report where
  bytesDelta : Int64
  reconciliation : Option Reconciliation
  deriving DecidableEq, Repr

def CHECKPOINT_INTERVAL : Nat := 100

namespace LocalSnapshotHistory

/-- Creates a history for one snapshot and returns it with its initial memory cost. -/
def new (snapshot : S) (currentTime lowerTimeHorizonDelta : Time)
    : LocalSnapshotHistory S E × Int64 :=
  let baseSnapshot := Snapshot.setTime snapshot 0
  let baseSize := bytes (Snapshot.conservativeSize baseSnapshot)
  ({
    snapshotId := Snapshot.id snapshot,
    baseSnapshot,
    checkpoints := .empty,
    events := .empty,
    eventsEmptied := false,
    checkpointInterval := CHECKPOINT_INTERVAL,
    intervalPositive := by decide,
    currentTime,
    lowerTimeHorizonDelta
  }, baseSize)

/-- A new history whose public interval field was set before its first use. -/
def newWithInterval (snapshot : S) (currentTime lowerTimeHorizonDelta : Time)
    (interval : Nat) (positive : 0 < interval)
    : LocalSnapshotHistory S E :=
  { (new snapshot currentTime lowerTimeHorizonDelta).1 with
    checkpointInterval := interval, intervalPositive := positive }

/-- The time before which `advance` drops, after the clock moved by `time`. -/
def dropTime (history : LocalSnapshotHistory S E) (time : Time) : Time :=
  history.currentTime + time - history.lowerTimeHorizonDelta

/-- Advances the current time and prunes history outside the configured horizon. -/
def advance (history : LocalSnapshotHistory S E) (time : Time)
    : LocalSnapshotHistory S E × Report :=
  let dropKey : ContimeKey := { time := history.dropTime time, id := 0 }
  let (droppedEvents, keptEvents) := history.events.splitOff dropKey
  let bytesDelta :=
    droppedEvents.entries.foldl
      (fun delta entry => delta - bytes (Event.conservativeSize entry.2)) 0
  let (droppedCheckpoints, keptCheckpoints) := history.checkpoints.splitOff dropKey
  let baseSnapshot :=
    match droppedCheckpoints.entries.getLast? with
    | some (_, lastDropped) => lastDropped
    | none => history.baseSnapshot
  let bytesDelta :=
    droppedCheckpoints.entries.foldl
      (fun delta entry => delta - bytes (Snapshot.conservativeSize entry.2)) bytesDelta
  ({ history with
      baseSnapshot,
      events := keptEvents,
      -- `split_off` gives a map without events a new one, and a map with events one with a root.
      eventsEmptied := keptEvents.isEmpty && !history.events.isEmpty,
      checkpoints := keptCheckpoints,
      currentTime := history.currentTime + time },
    { bytesDelta, reconciliation := none })

/-- The largest event key's time, if there is an event. -/
def latestEventTime (history : LocalSnapshotHistory S E) : Option Time :=
  history.events.entries.getLast?.map (fun entry => entry.1.time)

/-- Applies an event; a time before the latest stored one attempts a reconciliation. -/
def applyEvent (history : LocalSnapshotHistory S E) (event : E)
    : LocalSnapshotHistory S E × Report :=
  let eventTime := Event.time event
  let latestTime := history.latestEventTime
  let applied :=
    applyEventInPlace event history.baseSnapshot history.checkpoints history.events
      history.checkpointInterval
  let reconciliation :=
    match latestTime with
    | some latest =>
        if eventTime < latest then
          some
            { snapshotId := history.snapshotId, fromTime := eventTime, toTime := latest }
        else
          none
    | none => none
  ({ history with checkpoints := applied.checkpoints, events := applied.events },
    { bytesDelta := applied.bytesDelta, reconciliation })

/-- Applies an authoritative snapshot and replays later events on top of it. -/
def applySnapshot (history : LocalSnapshotHistory S E) (snapshot : S)
    : LocalSnapshotHistory S E × Report :=
  if Snapshot.id snapshot ≠ history.snapshotId then
    (history, { bytesDelta := 0, reconciliation := none })
  else
    let snapshotKey : ContimeKey :=
      { time := Snapshot.time snapshot, id := history.snapshotId }
    let (kept, bytesDelta) := removeStale history.checkpoints snapshotKey 0
    let bytesDelta := bytesDelta + bytes (Snapshot.conservativeSize snapshot)
    let (rebuilt, added) :=
      replayAndCheckpoint snapshot (.excluded snapshotKey)
        (kept.insert snapshotKey snapshot) history.events history.checkpointInterval
    let latestEventTime := history.latestEventTime.getD (Snapshot.time snapshot)
    ({ history with checkpoints := rebuilt },
      {
        bytesDelta := bytesDelta + added,
        reconciliation :=
          some {
            snapshotId := history.snapshotId,
            fromTime := Snapshot.time snapshot,
            toTime := latestEventTime
          }
      })

/-- The key a query at `time` compares with. -/
def queryKey (history : LocalSnapshotHistory S E) (time : Time) : ContimeKey where
  time := time
  id := history.snapshotId

/-- Where the replay of a query starts: the latest checkpoint at or before it, or the base.
-/
def queryStart (history : LocalSnapshotHistory S E) (time : Time) : S × Bound ContimeKey :=
  replayStart history.baseSnapshot
    (history.checkpoints.range .unbounded (.included (history.queryKey time))).getLast?

/-- Reconstructs the snapshot state at `time`; `none` when the range call panics. -/
def snapshotAt (history : LocalSnapshotHistory S E) (time : Time) : Option S :=
  let (snapshot, replayStart) := history.queryStart time
  let endKey := history.queryKey time
  (history.events.range? history.eventsEmptied replayStart (.excluded endKey)).map
    (fun entries =>
      Snapshot.setTime
        (entries.foldl (fun snapshot entry => ApplyEvent.applyTo entry.2 snapshot) snapshot) time)

end LocalSnapshotHistory

/-- The calls that change a history. -/
inductive Operation (S : Type u) (E : Type v) where
  | applyEvent (event : E)
  | applySnapshot (snapshot : S)
  | advance (time : Time)

namespace LocalSnapshotHistory

def perform (history : LocalSnapshotHistory S E)
    : Operation S E → LocalSnapshotHistory S E × Report
  | .applyEvent event => history.applyEvent event
  | .applySnapshot snapshot => history.applySnapshot snapshot
  | .advance time => history.advance time

/-- The history after a sequence of operations. -/
def run (history : LocalSnapshotHistory S E) (operations : List (Operation S E))
    : LocalSnapshotHistory S E :=
  Transducer.final perform history operations

/-- The reports of a sequence of operations, one for each. -/
def reports (history : LocalSnapshotHistory S E) (operations : List (Operation S E))
    : List Report :=
  Transducer.outputs perform history operations

/-- The history after a sequence of events. -/
def applyEvents (history : LocalSnapshotHistory S E) (events : List E)
    : LocalSnapshotHistory S E :=
  history.run (events.map .applyEvent)

end LocalSnapshotHistory

end Contime
