import Contime.Model.Lanes

/-! The crate's exported test fixtures: a summing snapshot and its two events, and two such
snapshot types under the lanes of the macro's documentation.
-/

namespace Contime

inductive TestEvent where
  | positive (snapshotId : SnapshotId) (time : Time) (eventId : EventId) (value : UInt16)
  | negative (snapshotId : SnapshotId) (time : Time) (eventId : EventId) (value : UInt16)
  deriving DecidableEq, Repr

structure TestSnapshot where
  id : SnapshotId
  time : Time
  items : List Int16
  sum : Int32
  deriving DecidableEq, Repr

namespace TestEvent

def id : TestEvent → EventId
  | .positive _ _ eventId _ | .negative _ _ eventId _ => eventId

def time : TestEvent → Time
  | .positive _ time _ _ | .negative _ time _ _ => time

def snapshotId : TestEvent → SnapshotId
  | .positive snapshotId _ _ _ | .negative snapshotId _ _ _ => snapshotId

def applyTo : TestEvent → TestSnapshot → TestSnapshot
  | .positive _ _ _ value, snapshot =>
      { snapshot with
        items := snapshot.items ++ [value.toInt16],
        sum := snapshot.sum + value.toUInt32.toInt32 }
  | .negative _ _ _ value, snapshot =>
      { snapshot with
        items := snapshot.items ++ [-value.toInt16],
        sum := snapshot.sum - value.toUInt32.toInt32 }

end TestEvent

instance : Event TestEvent where
  id := TestEvent.id
  time := TestEvent.time
  conservativeSize _ := 16 + 8 + 16 + 2

instance : ApplyEvent TestEvent TestSnapshot where
  snapshotId := TestEvent.snapshotId
  applyTo := TestEvent.applyTo

instance : Snapshot TestSnapshot TestEvent where
  id snapshot := snapshot.id
  time snapshot := snapshot.time
  setTime snapshot time := { snapshot with time }
  conservativeSize snapshot := 16 + 8 + 4 + UInt64.ofNat (snapshot.items.length * 2)
  fromEvent event :=
    { id := event.snapshotId, time := event.time, items := [], sum := 0 }

/-- Lanes of a single snapshot type start every target from its event. -/
instance : EventLanes TestEvent TestSnapshot where
  snapshots event := [Snapshot.fromEvent event]

/-- Test events ignore the snapshot's time. -/
theorem testEvent_timeBlind : TimeBlind TestSnapshot TestEvent := by
  intro event snapshot time
  cases event <;> rfl

/-- Test snapshots keep only the last time set. -/
theorem testSnapshot_setTimeOverwrites : SetTimeOverwrites TestSnapshot TestEvent := by
  intro snapshot earlier later
  rfl

-----------------------------------------------------------------------------------------
-- Lanes of two snapshot types
-----------------------------------------------------------------------------------------

inductive DocSnapshot where
  | accountAt
  | characterAt
  deriving DecidableEq, Repr

inductive DocEvent where
  | onAccountCreated
  | onCharacterCreated
  deriving DecidableEq, Repr

/-- An event about an account and one of its characters. -/
structure Created where
  account : SnapshotId
  character : SnapshotId
  time : Time
  eventId : EventId
  value : UInt16
  deriving DecidableEq, Repr

instance : Event Created where
  id event := event.eventId
  time event := event.time
  conservativeSize _ := 16 + 16 + 8 + 16 + 2

def Created.snapshotId (event : Created) : DocSnapshot → SnapshotId
  | .accountAt => event.account
  | .characterAt => event.character

/-- The event as one of the target's own events. -/
def Created.into (event : Created) (kind : DocSnapshot) : TestEvent :=
  .positive (event.snapshotId kind) event.time event.eventId event.value

/-- Creating an account is about the account, creating a character about both. -/
def docLanes : LaneMap DocSnapshot DocEvent where
  State _ := TestSnapshot
  Events _ := TestEvent
  snapshot _ := inferInstance
  Payload _ := Created
  event _ := inferInstance
  targets
    | .onAccountCreated => [.accountAt]
    | .onCharacterCreated => [.accountAt, .characterAt]
  targeted variant := by cases variant <;> exact fun none => nomatch none
  into _ kind _ event := event.into kind
  applies _ kind _ :=
    { snapshotId := fun event => event.snapshotId kind,
      applyTo := fun event snapshot => (event.into kind).applyTo snapshot }

instance : DecidableEq (SnapshotLane docLanes)
  | ⟨left, first⟩, ⟨right, second⟩ =>
      have : Decidable (@Eq TestSnapshot first second) :=
        (inferInstance : DecidableEq TestSnapshot) first second
      decidable_of_iff (left = right ∧ @Eq TestSnapshot first second) (by
        constructor
        · intro equal
          obtain ⟨rfl, rfl⟩ := equal
          rfl
        · intro equal
          cases equal
          exact ⟨rfl, rfl⟩)

end Contime
