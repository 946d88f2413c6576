import Contime.Model.Router

/-! The crate's onboarding example: a snapshot that keeps the values it has received, and the event
that brings one more.
-/

namespace Contime

structure OrderedValuesSnapshot where
  id : SnapshotId
  time : Time
  values : List Int64
  deriving DecidableEq, Repr

structure ReceiveValue where
  snapshotId : SnapshotId
  time : Time
  eventId : EventId
  value : Int64
  deriving DecidableEq, Repr

/-- Appends the value; nothing here puts the values in order. -/
def ReceiveValue.applyTo (event : ReceiveValue) (snapshot : OrderedValuesSnapshot)
    : OrderedValuesSnapshot :=
  { snapshot with values := snapshot.values ++ [event.value] }

/-- The constructor that the example names its inputs with. -/
def receiveValue (snapshotId : SnapshotId) (time : Time) (eventId : EventId) (value : Int64)
    : ReceiveValue :=
  { snapshotId, time, eventId, value }

instance : Event ReceiveValue where
  id event := event.eventId
  time event := event.time
  conservativeSize _ := 16 + 8 + 16 + 8

instance : ApplyEvent ReceiveValue OrderedValuesSnapshot where
  snapshotId event := event.snapshotId
  applyTo := ReceiveValue.applyTo

instance : Snapshot OrderedValuesSnapshot ReceiveValue where
  id snapshot := snapshot.id
  time snapshot := snapshot.time
  setTime snapshot time := { snapshot with time }
  conservativeSize snapshot := 16 + 8 + UInt64.ofNat (snapshot.values.length * 8)
  fromEvent event := { id := event.snapshotId, time := event.time, values := [] }

/-- Lanes of a single snapshot type start every target from its event. -/
instance : EventLanes ReceiveValue OrderedValuesSnapshot where
  snapshots event := [Snapshot.fromEvent event]

/-- Received values ignore the snapshot's time. -/
theorem receiveValue_timeBlind : TimeBlind OrderedValuesSnapshot ReceiveValue := by
  intro event snapshot time
  rfl

/-- The snapshots keep only the last time set. -/
theorem orderedValues_setTimeOverwrites
    : SetTimeOverwrites OrderedValuesSnapshot ReceiveValue := by
  intro snapshot earlier later
  rfl

end Contime
