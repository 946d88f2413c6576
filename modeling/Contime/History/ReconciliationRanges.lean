import Contime.History.Locality
import Contime.History.Silence

/-! The ranges that reconciliations name. No answer before the start of a range has changed,
but a snapshot behind all stored events names a range that ends before it starts.
-/

open SortedEntries PeriodicReplay

namespace Contime

universe u v
variable {S : Type u} {E : Type v} [Event E] [Snapshot S E] [ApplyEvent E S]

/-- The message is about this history and its range is one: the start does not lie behind
the end, and no answer before the start has changed.
-/
structure Reconciliation.Describes (message : Reconciliation)
    (before after : LocalSnapshotHistory S E)
    : Prop where
  ordered : message.fromTime ≤ message.toTime
  owner : message.snapshotId = before.snapshotId
  covers : ∀ time, after.snapshotAt time ≠ before.snapshotAt time → message.fromTime ≤ time

namespace LocalSnapshotHistory
variable {history : LocalSnapshotHistory S E} {operation : Operation S E}
  {message : Reconciliation} {time : Time}

/-- The operation is a snapshot of this history with a later time than every stored event,
and there are some.
-/
def Outruns (history : LocalSnapshotHistory S E) : Operation S E → Prop
  | .applySnapshot snapshot =>
      Snapshot.id snapshot = history.snapshotId
      ∧ history.events.entries ≠ []
      ∧ ∀ stored ∈ history.events.entries, stored.1.time < Snapshot.time snapshot
  | .applyEvent _ | .advance _ => False

/-- A snapshot of this history always attempts a reconciliation, from its time up to the latest
stored one.
-/
theorem applySnapshot_reconciliation {snapshot : S}
    (matching : Snapshot.id snapshot = history.snapshotId)
    : (history.applySnapshot snapshot).2.reconciliation
      = some
          ⟨history.snapshotId, Snapshot.time snapshot,
            history.latestEventTime.getD (Snapshot.time snapshot)⟩ := by
  simp only [applySnapshot, matching, ne_eq, not_true_eq_false, if_false]

/-- All that makes an operation attempt a reconciliation, with what it then names: an event
before the latest stored time up to that time, or a snapshot of this history.
-/
theorem reconciliation_cases
    (attempted : (history.perform operation).2.reconciliation = some message)
    : (∃ event latest,
        operation = .applyEvent event
        ∧ history.latestEventTime = some latest
        ∧ Event.time event < latest
        ∧ message = ⟨history.snapshotId, Event.time event, latest⟩)
      ∨ ∃ snapshot,
          operation = .applySnapshot snapshot
          ∧ Snapshot.id snapshot = history.snapshotId
          ∧ message
            = ⟨history.snapshotId, Snapshot.time snapshot,
                history.latestEventTime.getD (Snapshot.time snapshot)⟩ := by
  cases operation with
  | applyEvent event =>
      simp only [perform, LocalSnapshotHistory.applyEvent] at attempted
      split at attempted
      next latest found =>
        split at attempted
        next later =>
          exact Or.inl ⟨event, latest, rfl, found, later, (Option.some.inj attempted).symm⟩
        next => cases attempted
      next => cases attempted
  | applySnapshot snapshot =>
      by_cases matching : Snapshot.id snapshot = history.snapshotId
      · rw [perform, applySnapshot_reconciliation matching] at attempted
        exact Or.inr ⟨snapshot, rfl, matching, (Option.some.inj attempted).symm⟩
      · rw [perform, applySnapshot_other matching] at attempted
        cases attempted
  | advance time => cases attempted

-----------------------------------------------------------------------------------------
-- Start of the range
-----------------------------------------------------------------------------------------

/-- Whatever is announced is about the history, and every answer that the operation changes
lies in time at or behind the announced start.
-/
theorem Dense.announced_covers (dense : history.Dense)
    (attempted : (history.perform operation).2.reconciliation = some message)
    : message.snapshotId = history.snapshotId
      ∧ ∀ time, (history.perform operation).1.snapshotAt time ≠ history.snapshotAt time
        → message.fromTime ≤ time := by
  rcases reconciliation_cases attempted with
    ⟨event, latest, rfl, found, _, rfl⟩ | ⟨snapshot, rfl, _, rfl⟩
  · have frame := dense.applyEvent_localFrom event
    -- An event is announced only where others are stored, so neither map is empty.
    have stored : history.events.entries ≠ [] := by
      intro none
      simp [latestEventTime, none] at found
    have alike : (history.applyEvent event).1.events.isEmpty = history.events.isEmpty := by
      obtain ⟨entry, member⟩ := List.exists_mem_of_ne_nil _ stored
      have kept := List.ne_nil_of_mem (frame.stored entry member)
      rw [Bool.eq_iff_iff, BTreeMap.isEmpty_iff, BTreeMap.isEmpty_iff]
      exact iff_of_false kept stored
    exact ⟨rfl, fun _ changed => frame.time_le_of_changed alike changed⟩
  · have frame := applySnapshot_localFrom history snapshot
    have alike : (history.applySnapshot snapshot).1.events.isEmpty = history.events.isEmpty := by
      rw [applySnapshot_events]
    exact ⟨rfl, fun _ changed => frame.time_le_of_changed alike changed⟩

-----------------------------------------------------------------------------------------
-- Order of the ends
-----------------------------------------------------------------------------------------

omit [Event E] [Snapshot S E] [ApplyEvent E S] in
/-- The end named for a snapshot lies before its time exactly when there are stored events
and all of them lie before it.
-/
theorem latestEventTime_getD_lt_iff
    : history.latestEventTime.getD time < time
      ↔ history.events.entries ≠ [] ∧ ∀ stored ∈ history.events.entries, stored.1.time < time := by
  cases found : history.latestEventTime with
  | none =>
      have none : history.events.entries = [] := by simpa [latestEventTime] using found
      simp [none, Int64.lt_irrefl]
  | some latest =>
      obtain ⟨member, largest⟩ := latestEventTime_spec found
      obtain ⟨entry, stored, same⟩ := List.mem_map.mp member
      rw [Option.getD_some]
      constructor
      · intro ended
        exact ⟨List.ne_nil_of_mem stored,
          fun other present => Int64.lt_of_le_of_lt (largest other present) ended⟩
      · intro all
        exact same ▸ all.2 entry stored

/-- The ends of an announced range are in order unless a snapshot outruns the events. -/
theorem announced_ordered_iff
    (attempted : (history.perform operation).2.reconciliation = some message)
    : message.fromTime ≤ message.toTime ↔ ¬ history.Outruns operation := by
  rcases reconciliation_cases attempted with
    ⟨event, latest, rfl, _, later, rfl⟩ | ⟨snapshot, rfl, matching, rfl⟩
  · exact iff_of_true (Int64.le_of_lt later) id
  · rw [← not_iff_not, not_not, Int64.not_le, latestEventTime_getD_lt_iff]
    exact ⟨fun outrun => ⟨matching, outrun⟩, fun outrun => outrun.2⟩

/-- In every run, each reconciliation of a further operation is about the history, has its ends in
order and starts before every answer it changes, exactly when the operation is no snapshot that
outruns the stored events. By density of the checkpoints of a run: no answer before the announced
start changes.
-/
theorem reconciliation_describes_iff (base : S) (currentTime horizon : Time) (interval : Nat)
    (positive : 0 < interval) (operations : List (Operation S E)) (operation : Operation S E)
    : let history :=
        (newWithInterval base currentTime horizon interval positive).run operations
      (∀ message, (history.perform operation).2.reconciliation = some message
        → message.Describes history (history.perform operation).1)
      ↔ ¬ history.Outruns operation := by
  intro history
  have dense : history.Dense :=
    (newWithInterval_dense base currentTime horizon interval positive).run operations
  constructor
  · intro describes outruns
    cases operation with
    | applySnapshot snapshot =>
        have attempted
            : (history.perform (.applySnapshot snapshot)).2.reconciliation = some _ :=
          applySnapshot_reconciliation outruns.1
        have ordered := (describes _ attempted).ordered
        exact (announced_ordered_iff attempted).mp ordered outruns
    | applyEvent event => exact outruns
    | advance time => exact outruns
  · intro inside message attempted
    obtain ⟨owner, covers⟩ := dense.announced_covers attempted
    exact ⟨(announced_ordered_iff attempted).mpr inside, owner, covers⟩

/-- A snapshot between a pruned prefix and the events behind it. -/
theorem reconciliation_describes_iff_between
    : let history : LocalSnapshotHistory TestSnapshot TestEvent :=
        (newWithInterval ⟨1, 0, [], 0⟩ 0 0 2 (by decide)).run
          [.applyEvent (.positive 1 1 0 1), .applyEvent (.positive 1 5 0 1), .advance 2,
            .applyEvent (.positive 1 10 0 1)]
      let next := history.applySnapshot ⟨1, 3, [], 100⟩
      next.2.reconciliation = some ⟨1, 3, 10⟩
      ∧ Reconciliation.Describes ⟨1, 3, 10⟩ history next.1 := by
  intro history next
  have attempted : next.2.reconciliation = some ⟨1, 3, 10⟩ := by decide
  have describes :=
    (reconciliation_describes_iff (⟨1, 0, [], 0⟩ : TestSnapshot) 0 0 2 (by decide)
      [.applyEvent (TestEvent.positive 1 1 0 1), .applyEvent (.positive 1 5 0 1), .advance 2,
        .applyEvent (.positive 1 10 0 1)]
      (.applySnapshot ⟨1, 3, [], 100⟩)).mpr (by
        intro outruns
        exact absurd (outruns.2.2 (⟨10, 0⟩, .positive 1 10 0 1) (by decide)) (by decide))
  exact ⟨attempted, describes _ attempted⟩

/-- A snapshot behind the only event names a range from its own time back to the event's. -/
theorem reconciliation_ends_before_start
    : let history : LocalSnapshotHistory TestSnapshot TestEvent :=
        (newWithInterval ⟨1, 0, [], 0⟩ 0 0 CHECKPOINT_INTERVAL (by decide)).run
          [.applyEvent (.positive 1 1 0 1)]
      ∃ message,
        (history.applySnapshot ⟨1, 5, [], 100⟩).2.reconciliation = some message
        ∧ message.fromTime = 5
        ∧ message.toTime = 1
        ∧ ¬ message.fromTime ≤ message.toTime :=
  ⟨⟨1, 5, 1⟩, by decide⟩

end LocalSnapshotHistory

end Contime
