import Contime.History.AuthoritativeSnapshots
import Contime.History.Locality

/-! An authoritative snapshot and a batch of later events in either order. The events grow the
checkpoints behind the snapshot into the marks on top of it, which the snapshot would build in
one sweep, and leave those before it alone.
-/

open SortedEntries PeriodicReplay

namespace Contime

universe u v
variable {S : Type u} {E : Type v} [Event E] [Snapshot S E] [ApplyEvent E S]

namespace LocalSnapshotHistory
variable {history : LocalSnapshotHistory S E} {key : ContimeKey} {snapshot : S} {event : E}

/-- Rebuilding behind an anchor marks the later events on top of the anchored snapshot. -/
theorem AnchoredAt.rebuilt (anchored : history.AnchoredAt key snapshot) {later : ContimeKey}
    (behind : key < later) {events : List (ContimeKey × E)} (ascending : Ascending events)
    (same : below later events = below later history.events.entries)
    : history.rebuilt later events
      = below key history.checkpoints.entries
        ++ (key, snapshot)
          :: marks replayStep history.checkpointInterval 0 snapshot (above key events) := by
  have between : below later (above key history.events.entries)
      = below later (above key events) := by
    rw [← above_below, ← same, above_below]
  have ahead : ∀ mark
      ∈ marks replayStep history.checkpointInterval 0 snapshot (below later (above key events)),
      (key, snapshot).1 < mark.1 := by
    intro mark member
    rw [← above_below] at member
    exact lt_of_mem_marks_above member
  have sweep
      : let kept :=
          marks replayStep history.checkpointInterval 0 snapshot (below later (above key events))
        let origin := resume kept snapshot (above key events)
        kept ++ marks replayStep history.checkpointInterval 0 origin.1 origin.2
          = marks replayStep history.checkpointInterval 0 snapshot (above key events) :=
    marks_rebuild history.intervalPositive snapshot later (ascending.above key)
  dsimp only at sweep
  rw [LocalSnapshotHistory.rebuilt, anchored.checkpoints_below behind, between,
    resume_anchor ahead, List.append_assoc, List.cons_append, sweep]

/-- The latest event behind an anchor lies behind all checkpoints. -/
theorem AnchoredAt.before_latest (anchored : history.AnchoredAt key snapshot)
    (behind : key < ContimeKey.fromEvent event)
    (fresh : ContimeKey.fromEvent event ∉ history.events.keys)
    (latest : above (ContimeKey.fromEvent event) history.events.entries = [])
    : ∀ checkpoint ∈ history.checkpoints.entries,
        checkpoint.1 < ContimeKey.fromEvent event := by
  intro checkpoint member
  rw [anchored] at member
  rcases List.mem_append.mp member with older | newer
  · exact (mem_below.mp older).2.trans behind
  rcases List.mem_cons.mp newer with rfl | marked
  · exact behind
  · obtain ⟨entry, replayed, same⟩ := mem_keys_of_mem_marks marked
    have stored := (mem_above.mp replayed).1
    rw [← same]
    refine lt_of_le_of_ne (above_eq_nil_iff.mp latest entry stored) (fun own => fresh ?_)
    exact BTreeMap.mem_keys.mpr ⟨entry.2, own ▸ stored⟩

/-- An event behind an anchor keeps it, on the fast path and on the slow one. -/
theorem AnchoredAt.applyEvent (anchored : history.AnchoredAt key snapshot)
    (dense : history.Dense) (behind : key < ContimeKey.fromEvent event)
    : (history.applyEvent event).1.AnchoredAt key snapshot := by
  by_cases stored : ContimeKey.fromEvent event ∈ history.events.keys
  · rwa [(applyEvent_stored history event stored).1]
  have ascending := (history.applyEvent event).1.events.ascending
  have shape : (history.applyEvent event).1.checkpoints.entries
      = history.rebuilt (ContimeKey.fromEvent event)
          (history.applyEvent event).1.events.entries := by
    by_cases latest : above (ContimeKey.fromEvent event) history.events.entries = []
    · exact applyEvent_latest stored latest (anchored.before_latest behind stored latest)
        dense.resume_short
    · exact applyEvent_late stored latest
  rw [AnchoredAt, dense.below_applyEvent behind.le, shape]
  exact anchored.rebuilt behind ascending (below_insert_self stored)

/-- A batch of events behind a key keeps the checkpoints before the key. -/
theorem Dense.below_applyEvents (dense : history.Dense) {events : List E}
    (behind : ∀ event ∈ events, key < ContimeKey.fromEvent event)
    : below key (history.applyEvents events).checkpoints.entries
      = below key history.checkpoints.entries := by
  induction events generalizing history with
  | nil => rfl
  | cons event rest ih =>
      have first := dense.below_applyEvent (behind event (by simp)).le
      have others := ih (dense.applyEvent event) (fun later member =>
        behind later (.tail _ member))
      exact others.trans first

/-- A batch of events behind an anchor keeps it. -/
theorem AnchoredAt.applyEvents (anchored : history.AnchoredAt key snapshot)
    (dense : history.Dense) {events : List E}
    (behind : ∀ event ∈ events, key < ContimeKey.fromEvent event)
    : (history.applyEvents events).AnchoredAt key snapshot := by
  induction events generalizing history with
  | nil => exact anchored
  | cons event rest ih =>
      exact ih (anchored.applyEvent dense (behind event (by simp))) (dense.applyEvent event)
        (fun later member => behind later (.tail _ member))

/-- Applying the anchored snapshot again changes nothing. -/
theorem AnchoredAt.applySnapshot
    (anchored : history.AnchoredAt (history.authorityKey snapshot) snapshot)
    (matching : Snapshot.id snapshot = history.snapshotId)
    : (history.applySnapshot snapshot).1 = history := by
  refine (applySnapshot_settings history snapshot).history_eq applySnapshot_events ?_
  exact BTreeMap.ext_entries ((applySnapshot_checkpoints matching).trans anchored.symm)

/-- The events stored after a batch depend on the set of its events. -/
theorem applyEvents_events_of_same_members (history : LocalSnapshotHistory S E)
    {first second : List E} (same : ∀ event, event ∈ first ↔ event ∈ second)
    (consistent
      : ∀ left ∈ first, ∀ right ∈ first,
          ContimeKey.fromEvent left = ContimeKey.fromEvent right → left = right)
    : (history.applyEvents first).events = (history.applyEvents second).events := by
  rw [applyEvents_events, applyEvents_events]
  refine BTreeMap.foldl_insertNew_eq_of_same_members _ ?_ (fun entry => ?_)
  · intro left listed right other equal
    obtain ⟨one, member, rfl⟩ := List.mem_map.mp listed
    obtain ⟨two, found, rfl⟩ := List.mem_map.mp other
    exact congrArg keyed (consistent one member two found equal)
  · simp only [List.mem_map, same]

/-- After every run, a matching snapshot and a batch of events behind it come to the same history
in either order, however the batch is ordered and repeated. Applying the snapshot again behind the
batch, or directly, changes nothing. By induction over the batch: each event keeps the checkpoints
dense and the snapshot anchored, which fixes the history.
-/
theorem snapshot_commutes_with_later_events (base : S) (currentTime horizon : Time)
    (interval : Nat) (positive : 0 < interval) (operations : List (Operation S E)) (snapshot : S)
    (matching : Snapshot.id snapshot = Snapshot.id base) (first second : List E)
    (later
      : ∀ event ∈ first,
          (⟨Snapshot.time snapshot, Snapshot.id base⟩ : ContimeKey) < ContimeKey.fromEvent event)
    (same : ∀ event, event ∈ first ↔ event ∈ second)
    (consistent
      : ∀ left ∈ first, ∀ right ∈ first,
          ContimeKey.fromEvent left = ContimeKey.fromEvent right → left = right)
    : let history :=
        (newWithInterval base currentTime horizon interval positive).run operations
      let snapshotFirst := (history.applySnapshot snapshot).1.applyEvents first
      let eventsFirst := ((history.applyEvents second).applySnapshot snapshot).1
      snapshotFirst = eventsFirst
      ∧ (snapshotFirst.applySnapshot snapshot).1 = snapshotFirst
      ∧ ((history.applySnapshot snapshot).1.applySnapshot snapshot).1
        = (history.applySnapshot snapshot).1 := by
  intro history snapshotFirst eventsFirst
  have id : history.snapshotId = Snapshot.id base := run_snapshotId _ operations
  have dense : history.Dense :=
    (newWithInterval_dense base currentTime horizon interval positive).run operations
  have own : history.authorityKey snapshot = ⟨Snapshot.time snapshot, Snapshot.id base⟩ :=
    congrArg (ContimeKey.mk _) id
  rw [← own] at later
  have settings := applySnapshot_settings history snapshot
  have batch := applyEvents_settings (history.applySnapshot snapshot).1 first
  have reversed := applyEvents_settings history second
  have again := applySnapshot_settings (history.applyEvents second) snapshot
  have keyAfter (met : LocalSnapshotHistory S E) (unchanged : SameSettings met history)
      : met.authorityKey snapshot = history.authorityKey snapshot :=
    congrArg (ContimeKey.mk _) unchanged.snapshotId
  have ownId (met : LocalSnapshotHistory S E) (unchanged : SameSettings met history)
      : Snapshot.id snapshot = met.snapshotId :=
    matching.trans (unchanged.snapshotId.trans id).symm
  have anchored := applySnapshot_anchoredAt (ownId history (.refl history))
  have anchoredFirst : snapshotFirst.AnchoredAt (history.authorityKey snapshot) snapshot :=
    anchored.applyEvents (dense.applySnapshot snapshot) later
  have keptFirst : below (history.authorityKey snapshot) snapshotFirst.checkpoints.entries = _ :=
    (dense.applySnapshot snapshot).below_applyEvents later
  refine ⟨?_, ?_, ?_⟩
  · have events : snapshotFirst.events = eventsFirst.events := by
      rw [applySnapshot_events, ← applyEvents_events_of_same_members history same consistent,
        applyEvents_events, applyEvents_events, applySnapshot_events]
    refine ((batch.trans settings).trans (again.trans reversed).symm).history_eq events ?_
    refine BTreeMap.ext_entries ?_
    have kept : below (history.authorityKey snapshot)
        (history.applyEvents second).checkpoints.entries = _ :=
      dense.below_applyEvents (fun event member => later event ((same event).mpr member))
    have built : eventsFirst.checkpoints.entries = _ :=
      applySnapshot_checkpoints (ownId _ reversed)
    rw [applySnapshot_events] at events
    rw [anchoredFirst, keptFirst, below_applySnapshot le_rfl, built, keyAfter _ reversed, kept,
      events, (batch.trans settings).checkpointInterval, reversed.checkpointInterval]
  · exact AnchoredAt.applySnapshot (by rwa [keyAfter _ (batch.trans settings)])
      (ownId _ (batch.trans settings))
  · exact AnchoredAt.applySnapshot (by rwa [keyAfter _ settings]) (ownId _ settings)

/-- A snapshot between two events and a batch that arrives out of order with a repeat. -/
theorem snapshot_commutes_with_later_events_reordered
    : let history : LocalSnapshotHistory TestSnapshot TestEvent :=
        (newWithInterval ⟨1, 0, [], 0⟩ 0 0 2 (by decide)).run
          [.applyEvent (.positive 1 2 0 1), .applyEvent (.positive 1 4 0 1), .advance 3,
            .applyEvent (.positive 1 9 0 1)]
      let batch : List TestEvent := [.positive 1 6 0 2, .positive 1 7 0 3]
      let reordered : List TestEvent :=
        [.positive 1 7 0 3, .positive 1 6 0 2, .positive 1 7 0 3]
      (history.applySnapshot ⟨1, 5, [], 100⟩).1.applyEvents batch
        = ((history.applyEvents reordered).applySnapshot ⟨1, 5, [], 100⟩).1 := by
  intro history batch reordered
  have either :=
    snapshot_commutes_with_later_events (⟨1, 0, [], 0⟩ : TestSnapshot) 0 0 2 (by decide)
      [.applyEvent (.positive 1 2 0 1), .applyEvent (.positive 1 4 0 1), .advance 3,
        .applyEvent (.positive 1 9 0 1)]
      ⟨1, 5, [], 100⟩ rfl batch reordered (by decide)
      (by
        intro event
        simp only [batch, reordered, List.mem_cons, List.not_mem_nil, or_false]
        tauto)
      (by decide)
  exact either.1

end LocalSnapshotHistory

end Contime
