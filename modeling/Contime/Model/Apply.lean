import Contime.Model.Traits
import Contime.Library.PeriodicReplay

/-! Event application and checkpoint replay over the two maps of a history. -/

open SortedEntries PeriodicReplay

namespace Contime

universe u v
variable {S : Type u} {E : Type v} [Event E] [Snapshot S E] [ApplyEvent E S]

/-- A `u64` size cast to the `i64` in which deltas are summed. -/
def bytes (size : UInt64) : Int64 := size.toInt64

/-- One replayed event: apply it, then move the snapshot's time to the event's time. -/
def replayStep (snapshot : S) (event : E) : S :=
  Snapshot.setTime (ApplyEvent.applyTo event snapshot) (Event.time event)

/-- The loop variables of `replayAndCheckpoint`. -/
structure ReplayLoop (S : Type u) where
  snapshot : S
  count : Nat
  checkpoints : BTreeMap ContimeKey S
  bytesDelta : Int64

def ReplayLoop.advance (checkpointInterval : Nat) (loop : ReplayLoop S)
    (entry : ContimeKey × E)
    : ReplayLoop S :=
  let snapshot := replayStep loop.snapshot entry.2
  let count := loop.count + 1
  if count % checkpointInterval = 0 then
    {
      snapshot,
      count,
      checkpoints := loop.checkpoints.insert entry.1 snapshot,
      bytesDelta := loop.bytesDelta + bytes (Snapshot.conservativeSize snapshot)
    }
  else
    { loop with snapshot, count }

/-- Replays the events after `startBound` on `startSnapshot` and checkpoints every
`checkpointInterval` of them. Returns the checkpoints and the bytes they added.
-/
def replayAndCheckpoint (startSnapshot : S) (startBound : Bound ContimeKey)
    (checkpoints : BTreeMap ContimeKey S) (events : BTreeMap ContimeKey E)
    (checkpointInterval : Nat)
    : BTreeMap ContimeKey S × Int64 :=
  let loop :=
    (events.range startBound .unbounded).foldl (ReplayLoop.advance checkpointInterval)
      { snapshot := startSnapshot, count := 0, checkpoints, bytesDelta := 0 }
  (loop.checkpoints, loop.bytesDelta)

/-- One round of the stale loop: remove the key and subtract the removed size. -/
def removeStaleKey (loop : BTreeMap ContimeKey S × Int64) (stale : ContimeKey)
    : BTreeMap ContimeKey S × Int64 :=
  match loop.1.get? stale with
  | some removed =>
      (loop.1.remove stale, loop.2 - bytes (Snapshot.conservativeSize removed))
  -- The keys were just read from the map, so the `expect` here cannot fail.
  | none => loop

/-- Removes the checkpoints at or after `key` and subtracts their sizes. -/
def removeStale (checkpoints : BTreeMap ContimeKey S) (key : ContimeKey)
    (bytesDelta : Int64)
    : BTreeMap ContimeKey S × Int64 :=
  let staleKeys := (checkpoints.range (.included key) .unbounded).map Prod.fst
  staleKeys.foldl removeStaleKey (checkpoints, bytesDelta)

/-- A replay start: a checkpoint with the bound behind its key, or the base snapshot. -/
def replayStart (baseSnapshot : S) : Option (ContimeKey × S) → S × Bound ContimeKey
  | some (key, checkpoint) => (checkpoint, .excluded key)
  | none => (baseSnapshot, .unbounded)

/-- Both maps after an application, with the memory delta. -/
@[ext] structure AppliedEvent (S : Type u) (E : Type v) where
  checkpoints : BTreeMap ContimeKey S
  events : BTreeMap ContimeKey E
  bytesDelta : Int64

/-- The fast path, for an event that is the latest of `events`, where it is already
stored: at a checkpoint boundary one checkpoint is replayed from the last one.
-/
def fastPath (eventKey : ContimeKey) (baseSnapshot : S)
    (checkpoints : BTreeMap ContimeKey S) (events : BTreeMap ContimeKey E)
    (checkpointInterval : Nat) (bytesDelta : Int64)
    : AppliedEvent S E :=
  let lastCheckpoint := checkpoints.entries.getLast?
  let (snapshot, startBound) := replayStart baseSnapshot lastCheckpoint
  let eventsFromStart := (events.range startBound .unbounded).length
  if eventsFromStart % checkpointInterval = 0 then
    let snap :=
      (events.range startBound .unbounded).foldl (fun snap entry => replayStep snap entry.2)
        snapshot
    {
      checkpoints := checkpoints.insert eventKey snap,
      events,
      bytesDelta := bytesDelta + bytes (Snapshot.conservativeSize snap)
    }
  else
    { checkpoints, events, bytesDelta }

/-- The slow path, for an event with a later one in `events`: the checkpoints from its key
on are dropped and rebuilt from the last checkpoint before it.
-/
def slowPath (eventKey : ContimeKey) (baseSnapshot : S)
    (checkpoints : BTreeMap ContimeKey S) (events : BTreeMap ContimeKey E)
    (checkpointInterval : Nat) (bytesDelta : Int64)
    : AppliedEvent S E :=
  let replayStartEntry := (checkpoints.range .unbounded (.excluded eventKey)).getLast?
  let (kept, bytesDelta) := removeStale checkpoints eventKey bytesDelta
  -- The start key lies before the stale ones, so its checkpoint is still there.
  let (snapshot, startBound) := replayStart baseSnapshot replayStartEntry
  let (rebuilt, added) := replayAndCheckpoint snapshot startBound kept events checkpointInterval
  { checkpoints := rebuilt, events, bytesDelta := bytesDelta + added }

def applyEventInPlace (newEvent : E) (baseSnapshot : S)
    (checkpoints : BTreeMap ContimeKey S) (events : BTreeMap ContimeKey E)
    (checkpointInterval : Nat)
    : AppliedEvent S E :=
  let eventKey := ContimeKey.fromEvent newEvent
  if events.containsKey eventKey then
    { checkpoints, events, bytesDelta := 0 }
  else
    let bytesDelta := bytes (Event.conservativeSize newEvent)
    let events := events.insert eventKey newEvent
    let isLatest := (events.range (.excluded eventKey) .unbounded).head?.isNone
    if isLatest then
      fastPath eventKey baseSnapshot checkpoints events checkpointInterval bytesDelta
    else
      slowPath eventKey baseSnapshot checkpoints events checkpointInterval bytesDelta

end Contime
