import Contime.Library.BTreeMap

/-! Event and snapshot interfaces, and the composite key that orders a history.
Times are `i64` and ids are `u128`; both keep the order of their machine types.
-/

namespace Contime

universe u v

abbrev Time := Int64
abbrev SnapshotId := BitVec 128
abbrev EventId := BitVec 128

/-- A time-stamped input that can be routed. -/
class Event (E : Type v) where
  id : E → EventId
  time : E → Time
  conservativeSize : E → UInt64

/-- A point-in-time state for one logical entity; `E` is its event type. -/
class Snapshot (S : Type u) (E : outParam (Type v)) where
  id : S → SnapshotId
  time : S → Time
  setTime : S → Time → S
  conservativeSize : S → UInt64
  fromEvent : E → S

/-- Applies an event to a snapshot type. -/
class ApplyEvent (E : Type v) (S : Type u) where
  snapshotId : E → SnapshotId
  applyTo : E → S → S

/-- An event lane lists the initial snapshots of every history it creates. -/
class EventLanes (EL : Type v) (SL : Type u) where
  snapshots : EL → List SL

/-- Position in a history. The derived order compares the time first, then the id. -/
@[ext] structure ContimeKey where
  time : Time
  id : BitVec 128
  deriving DecidableEq, Repr

namespace ContimeKey

instance : LT ContimeKey where
  lt left right := left.time < right.time ∨ (left.time = right.time ∧ left.id < right.id)

instance : LE ContimeKey where
  le left right := left.time < right.time ∨ (left.time = right.time ∧ left.id ≤ right.id)

theorem lt_iff {left right : ContimeKey}
    : left < right
      ↔ left.time < right.time ∨ (left.time = right.time ∧ left.id < right.id) :=
  .rfl

theorem le_iff {left right : ContimeKey}
    : left ≤ right
      ↔ left.time < right.time ∨ (left.time = right.time ∧ left.id ≤ right.id) :=
  .rfl

instance : DecidableLT ContimeKey := fun left right =>
  inferInstanceAs
    (Decidable (left.time < right.time ∨ (left.time = right.time ∧ left.id < right.id)))

instance : DecidableLE ContimeKey := fun left right =>
  inferInstanceAs
    (Decidable (left.time < right.time ∨ (left.time = right.time ∧ left.id ≤ right.id)))

/-- Key order read off the integers behind both fields. -/
theorem lt_iff_toInt {left right : ContimeKey}
    : left < right
      ↔ left.time.toInt < right.time.toInt
        ∨ (left.time.toInt = right.time.toInt ∧ left.id.toNat < right.id.toNat) := by
  rw [lt_iff, Int64.lt_iff_toInt_lt, Int64.toInt_inj, BitVec.lt_def]

theorem le_iff_toInt {left right : ContimeKey}
    : left ≤ right
      ↔ left.time.toInt < right.time.toInt
        ∨ (left.time.toInt = right.time.toInt ∧ left.id.toNat ≤ right.id.toNat) := by
  rw [le_iff, Int64.lt_iff_toInt_lt, Int64.toInt_inj, BitVec.le_def]

instance : LinearOrder ContimeKey where
  le_refl key := by
    rw [le_iff_toInt]
    omega
  le_trans first second third := by
    simp only [le_iff_toInt]
    omega
  lt_iff_le_not_ge left right := by
    simp only [le_iff_toInt, lt_iff_toInt]
    omega
  le_antisymm left right hl hr := by
    simp only [le_iff_toInt] at hl hr
    refine ContimeKey.ext (Int64.toInt_inj.mp ?_) (BitVec.eq_of_toNat_eq ?_) <;> omega
  le_total left right := by
    simp only [le_iff_toInt]
    omega
  toDecidableLE := inferInstance

/-- An earlier time comes first whatever the ids are. -/
theorem lt_of_time_lt {left right : ContimeKey} (earlier : left.time < right.time)
    : left < right :=
  Or.inl earlier

/-- A key order never runs against the times. -/
theorem time_le_of_le {left right : ContimeKey} (ordered : left ≤ right)
    : left.time ≤ right.time := by
  rcases ordered with earlier | ⟨same, _⟩
  · exact Int64.le_of_lt earlier
  · exact same ▸ Int64.le_refl _

/-- The key of an event. -/
def fromEvent {E : Type v} [Event E] (event : E) : ContimeKey where
  time := Event.time event
  id := Event.id event

end ContimeKey

-----------------------------------------------------------------------------------------
-- Laws an implementation may satisfy
-----------------------------------------------------------------------------------------

/-- The event neither reads nor writes the snapshot's time: it commutes with `setTime`. -/
def TimeBlind (S : Type u) (E : Type v) [Snapshot S E] [ApplyEvent E S] : Prop :=
  ∀ (event : E) (snapshot : S) (time : Time),
    ApplyEvent.applyTo event (Snapshot.setTime snapshot time)
      = Snapshot.setTime (ApplyEvent.applyTo event snapshot) time

/-- A later `setTime` overwrites an earlier one. -/
def SetTimeOverwrites (S : Type u) (E : Type v) [Snapshot S E] : Prop :=
  ∀ (snapshot : S) (earlier later : Time),
    Snapshot.setTime (Snapshot.setTime snapshot earlier) later
      = Snapshot.setTime snapshot later

end Contime
