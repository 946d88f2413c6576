import Contime.History.BoundedReplay

/-! The fast path refines the slow one. The checkpoints of every reachable history are dense,
so the events behind the last one complete at most one interval with a new event, and the one
checkpoint of the fast path is all that the slow path would make.
-/

open SortedEntries PeriodicReplay

namespace Contime

universe u v
variable {S : Type u} {E : Type v} [Event E] [Snapshot S E] [ApplyEvent E S]

namespace LocalSnapshotHistory
variable {history : LocalSnapshotHistory S E} {event : E}

omit [Snapshot S E] [ApplyEvent E S] in
/-- An event behind all stored ones is new and the latest. -/
theorem latest_of_behind
    (behind : ∀ entry ∈ history.events.entries, entry.1 < ContimeKey.fromEvent event)
    : ContimeKey.fromEvent event ∉ history.events.keys
      ∧ above (ContimeKey.fromEvent event) history.events.entries = [] := by
  refine ⟨fun stored => ?_, above_eq_nil (fun entry member => (behind entry member).le)⟩
  obtain ⟨value, member⟩ := BTreeMap.mem_keys.mp stored
  exact lt_irrefl _ (behind _ member)

/-- In a dense history, an event behind everything that is stored takes the fast path, which
comes to what the slow path would.
-/
theorem Dense.applyEventInPlace_behind (dense : history.Dense)
    (events : ∀ entry ∈ history.events.entries, entry.1 < ContimeKey.fromEvent event)
    (checkpoints
      : ∀ checkpoint ∈ history.checkpoints.entries, checkpoint.1 < ContimeKey.fromEvent event)
    : let key := ContimeKey.fromEvent event
      let inserted := history.events.insert key event
      let size := bytes (Event.conservativeSize event)
      let fast :=
        fastPath key history.baseSnapshot history.checkpoints inserted
          history.checkpointInterval size
      let slow :=
        slowPath key history.baseSnapshot history.checkpoints inserted
          history.checkpointInterval size
      applyEventInPlace event history.baseSnapshot history.checkpoints history.events
          history.checkpointInterval
        = fast
      ∧ fast = slow := by
  intro key inserted size fast slow
  obtain ⟨fresh, latest⟩ := latest_of_behind events
  have appended : inserted.entries = history.events.entries ++ [(key, event)] := by
    rw [BTreeMap.insert_entries, latest, below_of_forall events]
  exact ⟨applyEventInPlace_eq_fastPath _ _ _ fresh latest,
    fastPath_eq_slowPath _ _ _ appended checkpoints dense.resume_short _⟩

/-- After every run, a new event behind every stored event and checkpoint is applied by the fast
path, with the events, the checkpoints and the delta of the slow path. By density of the
checkpoints, which leaves the slow path at most one to place.
-/
theorem fastPath_refines_slowPath (base : S) (currentTime horizon : Time) (interval : Nat)
    (positive : 0 < interval) (operations : List (Operation S E)) (event : E)
    : let history :=
        (newWithInterval base currentTime horizon interval positive).run operations
      let key := ContimeKey.fromEvent event
      let inserted := history.events.insert key event
      let size := bytes (Event.conservativeSize event)
      let fast :=
        fastPath key history.baseSnapshot history.checkpoints inserted interval size
      let slow :=
        slowPath key history.baseSnapshot history.checkpoints inserted interval size
      (∀ stored ∈ history.events.keys, stored < key)
      → (∀ stored ∈ history.checkpoints.keys, stored < key)
      → applyEventInPlace event history.baseSnapshot history.checkpoints history.events interval
          = fast
        ∧ fast.events = slow.events
        ∧ fast.checkpoints = slow.checkpoints
        ∧ fast.bytesDelta = slow.bytesDelta := by
  intro history key inserted size fast slow events checkpoints
  have dense : history.Dense :=
    (newWithInterval_dense base currentTime horizon interval positive).run operations
  have same : history.checkpointInterval = interval := run_checkpointInterval _ operations
  obtain ⟨taken, equal⟩ := dense.applyEventInPlace_behind
    (fun entry member => events _ (BTreeMap.mem_keys.mpr ⟨entry.2, member⟩))
    (fun entry member => checkpoints _ (BTreeMap.mem_keys.mpr ⟨entry.2, member⟩))
  rw [same] at taken equal
  have agree : fast = slow := equal
  exact ⟨taken, congrArg AppliedEvent.events agree, congrArg AppliedEvent.checkpoints agree,
    congrArg AppliedEvent.bytesDelta agree⟩

/-- The event that completes an interval behind a snapshot. -/
theorem fastPath_refines_slowPath_behind_snapshot
    : let history : LocalSnapshotHistory TestSnapshot TestEvent :=
        (newWithInterval ⟨1, 0, [], 0⟩ 0 0 2 (by decide)).run
          [.applyEvent (.positive 1 4 0 1), .applySnapshot ⟨1, 5, [], 100⟩,
            .applyEvent (.positive 1 6 0 1)]
      let event : TestEvent := .positive 1 8 0 2
      let slow :=
        slowPath ⟨8, 0⟩ history.baseSnapshot history.checkpoints
          (history.events.insert ⟨8, 0⟩ event) 2 42
      (applyEventInPlace event history.baseSnapshot history.checkpoints history.events
          2).checkpoints.keys
        = [⟨5, 1⟩, ⟨8, 0⟩]
      ∧ slow.checkpoints.keys = [⟨5, 1⟩, ⟨8, 0⟩] := by
  intro history event slow
  obtain ⟨taken, _, checkpoints, _⟩ :=
    fastPath_refines_slowPath (⟨1, 0, [], 0⟩ : TestSnapshot) 0 0 2 (by decide)
      [.applyEvent (TestEvent.positive 1 4 0 1), .applySnapshot ⟨1, 5, [], 100⟩,
        .applyEvent (.positive 1 6 0 1)]
      (.positive 1 8 0 2) (by decide) (by decide)
  have fast : slow.checkpoints = _ := checkpoints.symm
  rw [taken, fast]
  exact ⟨by decide, by decide⟩

end LocalSnapshotHistory

end Contime
