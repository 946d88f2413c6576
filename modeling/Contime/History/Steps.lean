import Contime.Model.History
import Contime.History.ApplySpec

/-! What one operation does to a history, stated on its fields. -/

open SortedEntries PeriodicReplay

namespace Contime

universe u v
variable {S : Type u} {E : Type v}

/-- An event under its key. -/
def keyed [Event E] (event : E) : ContimeKey × E := (ContimeKey.fromEvent event, event)

namespace LocalSnapshotHistory
variable [Event E] [Snapshot S E] [ApplyEvent E S]

/-- The total size of what a history stores besides its base. -/
def storedSize (history : LocalSnapshotHistory S E) : Nat :=
  eventsSize history.events.entries + checkpointsSize history.checkpoints.entries

/-- The checkpoints a history has after it marks `events` anew behind the checkpoints
before `key`.
-/
def rebuilt (history : LocalSnapshotHistory S E) (key : ContimeKey)
    (events : List (ContimeKey × E))
    : List (ContimeKey × S) :=
  let kept := below key history.checkpoints.entries
  let start := resume kept history.baseSnapshot events
  kept ++ marks replayStep history.checkpointInterval 0 start.1 start.2

variable (history : LocalSnapshotHistory S E) (event : E)

@[simp] theorem applyEvent_baseSnapshot
    : (history.applyEvent event).1.baseSnapshot = history.baseSnapshot := rfl

@[simp] theorem applyEvent_checkpointInterval
    : (history.applyEvent event).1.checkpointInterval = history.checkpointInterval := rfl

/-- Redelivery of a stored event leaves the history and the byte count alone. -/
theorem applyEvent_stored (stored : ContimeKey.fromEvent event ∈ history.events.keys)
    : (history.applyEvent event).1 = history
      ∧ (history.applyEvent event).2.bytesDelta = 0 := by
  simp [applyEvent, applyEventInPlace_duplicate _ _ _ stored]

/-- The stored events take the delivered one if its key is free. -/
theorem applyEvent_events
    : (history.applyEvent event).1.events
      = history.events.insertNew (ContimeKey.fromEvent event) event := by
  by_cases stored : ContimeKey.fromEvent event ∈ history.events.keys
  · rw [(applyEvent_stored history event stored).1, BTreeMap.insertNew,
      if_pos (BTreeMap.containsKey_iff.mpr stored)]
  · have absent := BTreeMap.containsKey_eq_false.mpr stored
    rw [BTreeMap.insertNew, if_neg (by simp [absent])]
    exact applyEventInPlace_events _ _ _ stored

variable {history event}

/-- A new event is inserted under its key. -/
theorem applyEvent_inserts (fresh : ContimeKey.fromEvent event ∉ history.events.keys)
    : (history.applyEvent event).1.events
      = history.events.insert (ContimeKey.fromEvent event) event :=
  applyEventInPlace_events _ _ _ fresh

/-- A new event adds its own size to that of the events. -/
theorem applyEvent_eventsSize (fresh : ContimeKey.fromEvent event ∉ history.events.keys)
    : eventsSize (history.applyEvent event).1.events.entries
      = (Event.conservativeSize event).toNat + eventsSize history.events.entries := by
  rw [applyEvent_inserts fresh]
  exact eventsSize_insert event fresh

/-- The events with a new one added, around its key. -/
theorem insert_events_entries (fresh : ContimeKey.fromEvent event ∉ history.events.keys)
    : (history.applyEvent event).1.events.entries
      = below (ContimeKey.fromEvent event) history.events.entries
        ++ keyed event :: above (ContimeKey.fromEvent event) history.events.entries := by
  rw [applyEvent_inserts fresh, BTreeMap.insert_entries]
  rfl

/-- The latest event stands behind all others. -/
theorem insert_latest_entries (fresh : ContimeKey.fromEvent event ∉ history.events.keys)
    (latest : above (ContimeKey.fromEvent event) history.events.entries = [])
    : (history.applyEvent event).1.events.entries
      = history.events.entries ++ [keyed event] := by
  have split := history.events.below_append_above fresh
  rw [latest, List.append_nil] at split
  rw [insert_events_entries fresh, latest, split]

/-- A new event with a later stored one rebuilds the checkpoints from its key on. -/
theorem applyEvent_late (fresh : ContimeKey.fromEvent event ∉ history.events.keys)
    (late : above (ContimeKey.fromEvent event) history.events.entries ≠ [])
    : let next := (history.applyEvent event).1
      next.checkpoints.entries
        = history.rebuilt (ContimeKey.fromEvent event) next.events.entries := by
  intro next
  have spec :=
    (applyEventInPlace_late history.baseSnapshot history.checkpoints
      history.checkpointInterval fresh late).1
  have inserted : next.events = history.events.insert (ContimeKey.fromEvent event) event :=
    applyEvent_inserts fresh
  rw [inserted]
  exact spec

/-- The latest event rebuilds the checkpoints like any other when all of them lie before
it and the last one lies at most an interval back.
-/
theorem applyEvent_latest (fresh : ContimeKey.fromEvent event ∉ history.events.keys)
    (latest : above (ContimeKey.fromEvent event) history.events.entries = [])
    (before : ∀ checkpoint ∈ history.checkpoints.entries,
      checkpoint.1 < ContimeKey.fromEvent event)
    (dense : (resume history.checkpoints.entries history.baseSnapshot
      history.events.entries).2.length < history.checkpointInterval)
    : let next := (history.applyEvent event).1
      next.checkpoints.entries
        = history.rebuilt (ContimeKey.fromEvent event) next.events.entries := by
  intro next
  have inserted : next.events = history.events.insert (ContimeKey.fromEvent event) event :=
    applyEvent_inserts fresh
  have appended : (history.events.insert (ContimeKey.fromEvent event) event).entries
      = history.events.entries ++ [keyed event] := by
    rw [← inserted]
    exact insert_latest_entries fresh latest
  have fast : applyEventInPlace event history.baseSnapshot history.checkpoints history.events
      history.checkpointInterval = _ :=
    applyEventInPlace_eq_fastPath history.baseSnapshot history.checkpoints
      history.checkpointInterval fresh latest
  rw [fastPath_eq_slowPath _ _ _ appended before dense] at fast
  have spec :=
    (slowPath_spec history.baseSnapshot history.checkpoints history.checkpointInterval
      (ContimeKey.fromEvent event) (history.events.insert (ContimeKey.fromEvent event) event)
      (bytes (Event.conservativeSize event))).2.1
  rw [← fast, ← inserted] at spec
  exact spec

/-- All that the latest event can do: at a checkpoint boundary it adds the replayed checkpoint
under its own key, and anywhere else it leaves the checkpoints alone.
-/
theorem applyEvent_latest_cases (fresh : ContimeKey.fromEvent event ∉ history.events.keys)
    (latest : above (ContimeKey.fromEvent event) history.events.entries = [])
    : let next := (history.applyEvent event).1
      let delta := (history.applyEvent event).2.bytesDelta
      let size := Int64.ofNat (Event.conservativeSize event).toNat
      let start := resume history.checkpoints.entries history.baseSnapshot next.events.entries
      (start.2.length % history.checkpointInterval = 0
        ∧ ∃ checkpoint,
            checkpoint = replay replayStep start.1 start.2
            ∧ next.checkpoints
              = history.checkpoints.insert (ContimeKey.fromEvent event) checkpoint
            ∧ delta = size + bytes (Snapshot.conservativeSize checkpoint))
      ∨ (start.2.length % history.checkpointInterval ≠ 0
        ∧ next.checkpoints = history.checkpoints
        ∧ delta = size) := by
  intro next delta size start
  have inserted : next.events = history.events.insert (ContimeKey.fromEvent event) event :=
    applyEvent_inserts fresh
  have spec :=
    applyEventInPlace_latest history.baseSnapshot history.checkpoints
      history.checkpointInterval fresh latest
  dsimp only at spec
  rw [← inserted] at spec
  split at spec
  next aligned => exact Or.inl ⟨aligned, _, rfl, spec.1, spec.2⟩
  next unaligned => exact Or.inr ⟨unaligned, spec.1, spec.2⟩

/-- The delta of an event is what the stored size grew by, as long as the latest event
does not overwrite a checkpoint at its own key.
-/
theorem applyEvent_bytesDelta
    (unshared
      : above (ContimeKey.fromEvent event) history.events.entries = []
        → ContimeKey.fromEvent event ∉ history.events.keys
        → ContimeKey.fromEvent event ∉ history.checkpoints.keys)
    : (history.applyEvent event).2.bytesDelta
      = Int64.ofNat (history.applyEvent event).1.storedSize
        - Int64.ofNat history.storedSize := by
  by_cases stored : ContimeKey.fromEvent event ∈ history.events.keys
  · obtain ⟨same, delta⟩ := applyEvent_stored history event stored
    rw [same, delta]
    grind
  have events := applyEvent_eventsSize stored
  by_cases latest : above (ContimeKey.fromEvent event) history.events.entries = []
  · rcases applyEvent_latest_cases stored latest with
      ⟨_, checkpoint, _, added, delta⟩ | ⟨_, kept, delta⟩
    · rw [delta, storedSize, storedSize, events, added,
        checkpointsSize_insert _ (unshared latest stored), bytes_eq]
      simp only [Int64.ofNat_add]
      grind
    · rw [delta, storedSize, storedSize, events, kept]
      simp only [Int64.ofNat_add]
      grind
  · obtain ⟨checkpoints, delta⟩ :=
      applyEventInPlace_late history.baseSnapshot history.checkpoints
        history.checkpointInterval stored latest
    have rebuilt : (history.applyEvent event).1.checkpoints.entries = _ := checkpoints
    have grown : (history.applyEvent event).2.bytesDelta = _ := delta
    have before : checkpointsSize history.checkpoints.entries = _ :=
      congrArg checkpointsSize
        (history.checkpoints.ascending.below_append_atLeast (ContimeKey.fromEvent event)).symm
    rw [grown, storedSize, storedSize, events, rebuilt, before]
    simp only [checkpointsSize_append, Int64.ofNat_add]
    grind

/-- Checkpoints appear only under keys of stored events. -/
theorem applyEvent_checkpoint_keys {key : ContimeKey}
    (present : key ∈ (history.applyEvent event).1.checkpoints.keys)
    : key ∈ history.checkpoints.keys ∨ key ∈ (history.applyEvent event).1.events.keys := by
  by_cases stored : ContimeKey.fromEvent event ∈ history.events.keys
  · exact Or.inl ((applyEvent_stored history event stored).1 ▸ present)
  obtain ⟨value, member⟩ := BTreeMap.mem_keys.mp present
  by_cases latest : above (ContimeKey.fromEvent event) history.events.entries = []
  · rcases applyEvent_latest_cases stored latest with ⟨_, _, _, added, _⟩ | ⟨_, kept, _⟩
    · rw [added, BTreeMap.mem_insert] at member
      rcases member with same | ⟨older, _⟩
      · refine Or.inr (BTreeMap.mem_keys.mpr ⟨event, ?_⟩)
        rw [insert_events_entries stored, (Prod.mk.inj same).1]
        simp [keyed]
      · exact Or.inl (BTreeMap.mem_keys.mpr ⟨value, older⟩)
    · exact Or.inl (kept ▸ present)
  · rw [applyEvent_late stored latest, rebuilt, List.mem_append] at member
    rcases member with older | marked
    · exact Or.inl (BTreeMap.mem_keys.mpr ⟨value, (mem_below.mp older).1⟩)
    · obtain ⟨entry, replayed, same⟩ := mem_keys_of_mem_marks marked
      refine Or.inr (BTreeMap.mem_keys.mpr ⟨entry.2, ?_⟩)
      have found := mem_of_mem_resume replayed
      have key_eq : entry.1 = key := same
      exact key_eq ▸ found

variable {snapshot : S}

/-- The key an authoritative snapshot is stored under. -/
def authorityKey (history : LocalSnapshotHistory S E) (snapshot : S) : ContimeKey where
  time := Snapshot.time snapshot
  id := history.snapshotId

/-- A snapshot of another id is ignored. -/
theorem applySnapshot_other (other : Snapshot.id snapshot ≠ history.snapshotId)
    : history.applySnapshot snapshot
      = (history, { bytesDelta := 0, reconciliation := none }) := by
  simp [applySnapshot, other]

/-- A snapshot of the history's id replaces the checkpoints from its key on by itself and
the marks of the later events on top of it.
-/
theorem applySnapshot_spec (matching : Snapshot.id snapshot = history.snapshotId)
    : let key := history.authorityKey snapshot
      let added :=
        marks replayStep history.checkpointInterval 0 snapshot (above key history.events.entries)
      (history.applySnapshot snapshot).1.checkpoints.entries
        = below key history.checkpoints.entries ++ (key, snapshot) :: added
      ∧ (history.applySnapshot snapshot).2.bytesDelta
        = 0 - Int64.ofNat (checkpointsSize (atLeast key history.checkpoints.entries))
          + bytes (Snapshot.conservativeSize snapshot)
          + Int64.ofNat (checkpointsSize added) := by
  intro key added
  have inserted : ((history.checkpoints.splitOff key).1.insert key snapshot).entries
      = below key history.checkpoints.entries ++ [(key, snapshot)] := by
    have none : above key (below key history.checkpoints.entries) = [] :=
      above_eq_nil (fun _ member => (mem_below.mp member).2.le)
    simp [BTreeMap.splitOff, none]
  obtain ⟨rebuilt, delta⟩ :=
    replayAndCheckpoint_spec snapshot (.excluded key)
      ((history.checkpoints.splitOff key).1.insert key snapshot)
      history.events history.checkpointInterval (by
        intro checkpoint older entry later
        rw [BTreeMap.range_excluded_unbounded, mem_above] at later
        rw [inserted] at older
        rcases List.mem_append.mp older with before | same
        · exact (mem_below.mp before).2.trans later.2
        · exact List.mem_singleton.mp same ▸ later.2)
  rw [inserted, BTreeMap.range_excluded_unbounded, List.append_assoc, List.singleton_append]
    at rebuilt
  rw [BTreeMap.range_excluded_unbounded] at delta
  simp only [applySnapshot, matching, ne_eq, not_true_eq_false, if_false, removeStale_eq]
  exact ⟨rebuilt, congrArg (0 - _ + _ + ·) delta⟩

theorem applySnapshot_checkpoints (matching : Snapshot.id snapshot = history.snapshotId)
    : (history.applySnapshot snapshot).1.checkpoints.entries
      = below (history.authorityKey snapshot) history.checkpoints.entries
        ++ (history.authorityKey snapshot, snapshot)
          :: marks replayStep history.checkpointInterval 0 snapshot
              (above (history.authorityKey snapshot) history.events.entries) :=
  (applySnapshot_spec matching).1

/-- A snapshot leaves the checkpoints before its own key alone. -/
theorem below_applySnapshot {key : ContimeKey} (ordered : key ≤ history.authorityKey snapshot)
    : below key (history.applySnapshot snapshot).1.checkpoints.entries
      = below key history.checkpoints.entries := by
  by_cases matching : Snapshot.id snapshot = history.snapshotId
  · have none : below key
        ((history.authorityKey snapshot, snapshot)
          :: marks replayStep history.checkpointInterval 0 snapshot
              (above (history.authorityKey snapshot) history.events.entries))
        = [] := by
      refine below_eq_nil (fun checkpoint member => ?_)
      rcases List.mem_cons.mp member with rfl | marked
      · exact ordered
      · obtain ⟨entry, replayed, same⟩ := mem_keys_of_mem_marks marked
        rw [← same]
        exact ordered.trans (mem_above.mp replayed).2.le
    rw [applySnapshot_checkpoints matching, below_append, none, List.append_nil,
      below_below_of_le ordered]
  · rw [applySnapshot_other matching]

/-- A snapshot leaves the events alone. -/
@[simp] theorem applySnapshot_events
    : (history.applySnapshot snapshot).1.events = history.events := by
  unfold applySnapshot
  split <;> rfl

end LocalSnapshotHistory

end Contime
