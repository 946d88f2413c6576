import Contime.Model.Traits

/-! The lanes that the multi-snapshot form of the `contime!` macro generates: an enum of the
snapshot types and one of the events, where each event variant lists its target snapshots.
-/

namespace Contime

universe u v

/-- The arguments of the macro: snapshot types, each with its own event enum, and event variants,
each with its type and its target snapshots.
-/
structure LaneMap (Kind : Type u) (Variant : Type v) where
  State : Kind → Type u
  Events : Kind → Type v
  snapshot : ∀ kind, Snapshot (State kind) (Events kind)
  Payload : Variant → Type v
  event : ∀ variant, Event (Payload variant)
  targets : Variant → List Kind
  targeted : ∀ variant, targets variant ≠ []
  /-- The event as one of the target's event enum. -/
  into : ∀ variant kind, kind ∈ targets variant → Payload variant → Events kind
  applies
    : ∀ variant kind, kind ∈ targets variant → ApplyEvent (Payload variant) (State kind)

variable {Kind : Type u} {Variant : Type v}

/-- The enum of the snapshot types. -/
structure SnapshotLane (map : LaneMap Kind Variant) where
  kind : Kind
  state : map.State kind

/-- The enum of the events. -/
structure EventLane (map : LaneMap Kind Variant) where
  variant : Variant
  payload : map.Payload variant

variable {map : LaneMap Kind Variant}

namespace EventLane

/-- The snapshot that the event starts at one of its targets. -/
def initial (event : EventLane map) (kind : Kind) (listed : kind ∈ map.targets event.variant)
    : SnapshotLane map where
  kind := kind
  state :=
    (map.snapshot kind).fromEvent (map.into event.variant kind listed event.payload)

def firstTarget (event : EventLane map) : Kind :=
  (map.targets event.variant).head (map.targeted event.variant)

theorem firstTarget_mem (event : EventLane map) : event.firstTarget ∈ map.targets event.variant :=
  List.head_mem _

/-- An event is applied to the snapshot types that its variant lists; other combinations are not
mapped and change nothing.
-/
def applyTo [DecidableEq Kind] (event : EventLane map) (snapshot : SnapshotLane map)
    : SnapshotLane map :=
  if mapped : snapshot.kind ∈ map.targets event.variant then
    { kind := snapshot.kind,
      state :=
        (map.applies event.variant snapshot.kind mapped).applyTo event.payload snapshot.state }
  else snapshot

def snapshots (event : EventLane map) : List (SnapshotLane map) :=
  (map.targets event.variant).attach.map (fun target => event.initial target.1 target.2)

end EventLane

instance : Event (EventLane map) where
  id event := (map.event event.variant).id event.payload
  time event := (map.event event.variant).time event.payload
  conservativeSize event := (map.event event.variant).conservativeSize event.payload

instance : Snapshot (SnapshotLane map) (EventLane map) where
  id lane := (map.snapshot lane.kind).id lane.state
  time lane := (map.snapshot lane.kind).time lane.state
  setTime lane time :=
    { kind := lane.kind, state := (map.snapshot lane.kind).setTime lane.state time }
  conservativeSize lane := (map.snapshot lane.kind).conservativeSize lane.state
  fromEvent event := event.initial event.firstTarget event.firstTarget_mem

instance [DecidableEq Kind] : ApplyEvent (EventLane map) (SnapshotLane map) where
  snapshotId event :=
    (map.applies event.variant event.firstTarget event.firstTarget_mem).snapshotId event.payload
  applyTo := EventLane.applyTo

instance : EventLanes (EventLane map) (SnapshotLane map) where
  snapshots := EventLane.snapshots

@[simp] theorem setTime_kind (lane : SnapshotLane map) (time : Time)
    : (Snapshot.setTime lane time).kind = lane.kind := rfl

/-- Applying an event keeps the type of the snapshot. -/
@[simp] theorem applyTo_kind [DecidableEq Kind] (event : EventLane map) (lane : SnapshotLane map)
    : (ApplyEvent.applyTo event lane).kind = lane.kind := by
  have shape : ApplyEvent.applyTo event lane = event.applyTo lane := rfl
  rw [shape, EventLane.applyTo]
  split <;> rfl

end Contime
