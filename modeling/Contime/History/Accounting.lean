import Contime.History.Pruning
import Contime.Library.SignedArithmetic

/-! The deltas of one history. They always cover what it stores: the sum of its base size and
all deltas is never below the size of its events and checkpoints.
-/

open SortedEntries PeriodicReplay

namespace Contime

universe u v
variable {S : Type u} {E : Type v} [Event E] [Snapshot S E] [ApplyEvent E S]

namespace LocalSnapshotHistory
variable {history : LocalSnapshotHistory S E} {event : E} {snapshot : S} {step : Time}

/-- All that a history holds, its base included. -/
def heldSize (history : LocalSnapshotHistory S E) : Nat :=
  (Snapshot.conservativeSize history.baseSnapshot).toNat + history.storedSize

omit [ApplyEvent E S] in
theorem storedSize_le_heldSize : history.storedSize ≤ history.heldSize :=
  Nat.le_add_left _ _

/-- The delta of a snapshot is what the stored size grew by. -/
theorem applySnapshot_bytesDelta
    : (history.applySnapshot snapshot).2.bytesDelta
      = Int64.ofNat (history.applySnapshot snapshot).1.storedSize
        - Int64.ofNat history.storedSize := by
  by_cases matching : Snapshot.id snapshot = history.snapshotId
  · obtain ⟨rebuilt, delta⟩ := applySnapshot_spec matching
    have before : checkpointsSize history.checkpoints.entries = _ :=
      congrArg checkpointsSize
        (history.checkpoints.ascending.below_append_atLeast
          (history.authorityKey snapshot)).symm
    rw [delta, storedSize, storedSize, applySnapshot_events, rebuilt, before, bytes_eq]
    simp only [checkpointsSize_append, checkpointsSize_cons, Int64.ofNat_add]
    grind
  · rw [applySnapshot_other matching]
    grind

/-- Subtracting sizes one after the other subtracts their sum. -/
theorem foldl_sub_bytes {α : Type*} (size : α → UInt64) (entries : List α) (start : Int64)
    : entries.foldl (fun delta entry => delta - bytes (size entry)) start
      = start - Int64.ofNat (entries.map (fun entry => (size entry).toNat)).sum := by
  induction entries generalizing start with
  | nil => simp
  | cons entry rest ih =>
      rw [List.foldl_cons, ih, List.map_cons, List.sum_cons, Int64.ofNat_add, bytes_eq]
      grind

omit [ApplyEvent E S] in
/-- The delta of pruning is what the stored size grew by. -/
theorem advance_bytesDelta
    : (history.advance step).2.bytesDelta
      = Int64.ofNat (history.advance step).1.storedSize
        - Int64.ofNat history.storedSize := by
  have events : eventsSize history.events.entries = _ :=
    congrArg eventsSize
      (history.events.ascending.below_append_atLeast (history.dropKey step)).symm
  have checkpoints : checkpointsSize history.checkpoints.entries = _ :=
    congrArg checkpointsSize
      (history.checkpoints.ascending.below_append_atLeast (history.dropKey step)).symm
  have delta : (history.advance step).2.bytesDelta
      = 0 - Int64.ofNat (eventsSize (below (history.dropKey step) history.events.entries))
        - Int64.ofNat
            (checkpointsSize (below (history.dropKey step) history.checkpoints.entries)) := by
    simp only [advance, foldl_sub_bytes]
    rfl
  rw [delta, storedSize, storedSize, advance_events, advance_checkpoints, events, checkpoints]
  simp only [eventsSize_append, checkpointsSize_append, Int64.ofNat_add]
  grind

omit [Event E] [ApplyEvent E S] in
/-- A checkpoint put into the map grows the total by at most its size, and is in it. -/
theorem checkpointsSize_insert_bounds (checkpoints : BTreeMap ContimeKey S) (key : ContimeKey)
    (checkpoint : S)
    : checkpointsSize (checkpoints.insert key checkpoint).entries
        ≤ (Snapshot.conservativeSize checkpoint).toNat + checkpointsSize checkpoints.entries
      ∧ (Snapshot.conservativeSize checkpoint).toNat
        ≤ checkpointsSize (checkpoints.insert key checkpoint).entries := by
  constructor
  · obtain ⟨others, before, after⟩ := checkpoints.weigh_insert
      (fun checkpoint => (Snapshot.conservativeSize checkpoint).toNat) key
    have whole : checkpointsSize checkpoints.entries = _ := before
    have grown : checkpointsSize (checkpoints.insert key checkpoint).entries = _ :=
      after checkpoint
    omega
  · simp only [BTreeMap.insert_entries, checkpointsSize_append, checkpointsSize_cons]
    omega

/-- The delta of an event covers the growth of the stored size. The two differ when the
latest event overwrites a checkpoint at its own key, whose size stays counted.
-/
theorem storedSize_applyEvent_le (before : history.storedSize < 2 ^ 63)
    (after : (history.applyEvent event).1.storedSize < 2 ^ 63)
    : ((history.applyEvent event).1.storedSize : Int)
      ≤ history.storedSize + (history.applyEvent event).2.bytesDelta.toInt := by
  by_cases shared
    : above (ContimeKey.fromEvent event) history.events.entries = []
      ∧ ContimeKey.fromEvent event ∉ history.events.keys
  · obtain ⟨latest, fresh⟩ := shared
    have events := applyEvent_eventsSize fresh
    rcases applyEvent_latest_cases fresh latest with
      ⟨_, checkpoint, _, added, grown⟩ | ⟨_, kept, grown⟩
    · obtain ⟨most, least⟩ :=
        checkpointsSize_insert_bounds history.checkpoints (ContimeKey.fromEvent event) checkpoint
      rw [storedSize, events, added] at after ⊢
      rw [grown, bytes_eq, ← Int64.ofNat_add, Int64.toInt_ofNat_of_lt (by omega), storedSize]
      omega
    · rw [storedSize, events, kept] at after ⊢
      rw [grown, Int64.toInt_ofNat_of_lt (by omega), storedSize]
      omega
  · have exactly : (history.applyEvent event).2.bytesDelta = _ := applyEvent_bytesDelta
      (fun latest fresh => absurd ⟨latest, fresh⟩ shared)
    rw [exactly, SignedArithmetic.toInt_ofNat_sub before after]
    omega

end LocalSnapshotHistory

end Contime
