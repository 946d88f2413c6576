import Contime.History.Chronicles
import Contime.Model.TestFixtures
import Mathlib.Data.List.Induction

/-! How many checkpoints a history stores: one for each full interval of its events, and one for
each time that a call fixes a state, which authoritative snapshots do and the copies that the fast
path makes of them.
-/

open SortedEntries PeriodicReplay

namespace Contime

universe u v

variable {S : Type u} {E : Type v} [Event E] [Snapshot S E]

namespace LocalSnapshotHistory

/-- The keys at which a call fixes a state: a snapshot its own, and the latest event its own, where
a checkpoint lies there or behind it, of which it makes a copy.
-/
def fixes (history : LocalSnapshotHistory S E) : Operation S E → List ContimeKey
  | .applyEvent event =>
      let key := ContimeKey.fromEvent event
      if key ∉ history.events.keys
          ∧ above key history.events.entries = []
          ∧ atLeast key history.checkpoints.entries ≠ [] then
        [key]
      else []
  | .applySnapshot snapshot =>
      if Snapshot.id snapshot = history.snapshotId then
        [⟨Snapshot.time snapshot, history.snapshotId⟩]
      else []
  | .advance _ => []

variable [ApplyEvent E S] {history : LocalSnapshotHistory S E}
  {recorded : Chronicle ContimeKey E S}

/-- A call adds anchors to the chronicle only where it fixes a state. -/
theorem Records.length_anchors_le (records : history.Records recorded)
    (operation : Operation S E) (interval : Nat) (horizon time : Time)
    : (operation.record history.snapshotId interval horizon
          (time, recorded)).2.anchors.entries.length
      ≤ recorded.anchors.entries.length + (history.fixes operation).length := by
  have cut (key : ContimeKey)
      : (recorded.anchors.splitOff key).1.entries.length ≤ recorded.anchors.entries.length :=
    List.filter_sublist.length_le
  cases operation with
  | advance amount => exact List.filter_sublist.length_le
  | applySnapshot snapshot =>
      rw [Operation.record, fixes]
      by_cases matching : Snapshot.id snapshot = history.snapshotId
      · rw [if_pos matching, if_pos matching]
        exact (BTreeMap.length_insert_le _ _ _).trans (Nat.succ_le_succ (cut _))
      · rw [if_neg matching]
        exact Nat.le_add_right _ _
  | applyEvent event =>
      rw [Operation.record]
      dsimp only
      by_cases stored : (keyed event).1 ∈ recorded.kept.keys
      · rw [Chronicle.deliver_stored stored]
        exact Nat.le_add_right _ _
      rw [Chronicle.deliver_fresh stored]
      dsimp only
      unfold Chronicle.anchorsWith
      split
      next latest =>
        split
        next last found =>
          split
          next behind =>
            have fixed : history.fixes (.applyEvent event) = [ContimeKey.fromEvent event] := by
              have member := records.anchor_stored (List.mem_of_getLast? found)
              have reached : last
                  ∈ atLeast (ContimeKey.fromEvent event) history.checkpoints.entries :=
                mem_atLeast.mpr ⟨member, behind⟩
              rw [← records.events] at stored latest
              exact if_pos ⟨stored, List.isEmpty_iff.mp latest, List.ne_nil_of_mem reached⟩
            rw [fixed]
            exact BTreeMap.length_insert_le _ _ _
          next => exact Nat.le_add_right _ _
        next => exact Nat.le_add_right _ _
      next => exact (cut _).trans (Nat.le_add_right _ _)

/-- The chronicle of a run has no more anchors than the run has fixed states. -/
theorem run_length_anchors_le (snapshot : S) (currentTime horizon : Time) (interval : Nat)
    (positive : 0 < interval) (operations : List (Operation S E))
    : (chronicle snapshot currentTime horizon interval operations).anchors.entries.length
      ≤ (Transducer.emitted perform fixes
          (newWithInterval snapshot currentTime horizon interval positive) operations).length := by
  induction operations using List.reverseRecOn with
  | nil => exact Nat.le_refl 0
  | append_singleton past operation ih =>
      have records := run_records snapshot currentTime horizon interval positive past
      have own
          : ((newWithInterval snapshot currentTime horizon interval positive).run past).snapshotId
            = Snapshot.id snapshot :=
        run_snapshotId _ past
      have next := records.length_anchors_le operation interval horizon
        (past.foldl (Operation.record (Snapshot.id snapshot) interval horizon)
          (currentTime, .new (Snapshot.setTime snapshot 0))).1
      rw [own] at next
      rw [Transducer.emitted_concat, List.length_append, chronicle, List.foldl_append]
      exact next.trans (Nat.add_le_add_right ih _)

/-- In every run of the three operations there are few checkpoints: one for each state that a call
has fixed, one for each interval of stored events, and one more. By the chronicle of the run,
whose anchors and full intervals mark the checkpoints.
-/
theorem checkpoints_few (snapshot : S) (currentTime horizon : Time) (interval : Nat)
    (positive : 0 < interval) (operations : List (Operation S E))
    : let start : LocalSnapshotHistory S E :=
        newWithInterval snapshot currentTime horizon interval positive
      interval * (start.run operations).checkpoints.entries.length
        < (start.run operations).events.entries.length
          + interval * (1 + (Transducer.emitted perform fixes start operations).length) := by
  intro start
  have records := run_records snapshot currentTime horizon interval positive operations
  have steady : (start.run operations).checkpointInterval = interval := run_checkpointInterval ..
  have few := records.formed.length_marked_lt replayStep
  rw [← records.checkpoints, ← records.events, steady] at few
  have anchors := run_length_anchors_le snapshot currentTime horizon interval positive operations
  have more := Nat.mul_le_mul_left interval (Nat.add_le_add_left anchors 1)
  exact few.trans_le (Nat.add_le_add_left more _)

/-- Ahead of a snapshot every event that is the latest one leaves a checkpoint, whatever the
interval, and the events behind it leave one for each interval.
-/
theorem checkpoints_few_around_snapshot
    : let start : LocalSnapshotHistory TestSnapshot TestEvent :=
        newWithInterval ⟨1, 0, [], 0⟩ 0 60 2 (by decide)
      let operations : List (Operation TestSnapshot TestEvent) :=
        [.applySnapshot ⟨1, 9, [], 100⟩, .applyEvent (.positive 1 1 0 1),
          .applyEvent (.positive 1 2 0 1), .applyEvent (.positive 1 3 0 1),
          .applyEvent (.positive 1 10 0 1), .applyEvent (.positive 1 11 0 1)]
      (start.run operations).checkpoints.entries.length = 5
      ∧ 2 * (start.run operations).checkpoints.entries.length
        < (start.run operations).events.entries.length
          + 2 * (1 + (Transducer.emitted perform fixes start operations).length) := by
  intro start operations
  exact ⟨by decide,
    checkpoints_few (⟨1, 0, [], 0⟩ : TestSnapshot) 0 60 2 (by decide) operations⟩

end LocalSnapshotHistory

end Contime
