import Contime.History.Runs
import Contime.Model.TestFixtures

/-! Arrival order and repeated delivery leave no trace in a history fed by events. -/

open SortedEntries PeriodicReplay

namespace Contime

universe u v
variable {S : Type u} {E : Type v} [Event E] [Snapshot S E] [ApplyEvent E S]

/-- Events with one key are one event. -/
def Identified (events : List E) : Prop :=
  ∀ left ∈ events, ∀ right ∈ events,
    ContimeKey.fromEvent left = ContimeKey.fromEvent right → left = right

omit [Snapshot S E] [ApplyEvent E S] in
theorem Identified.consistent {events : List E} (identified : Identified events)
    : BTreeMap.Consistent (events.map keyed) := by
  intro left hl right hr same
  obtain ⟨first, ml, rfl⟩ := List.mem_map.mp hl
  obtain ⟨second, mr, rfl⟩ := List.mem_map.mp hr
  rw [identified first ml second mr same]

namespace LocalSnapshotHistory

/-- Two runs over the same set of events end in the same history. Both are canonical over
the same event map, and the marks are a function of the base and that map.
-/
theorem applyEvents_eq_of_same_set {history : LocalSnapshotHistory S E}
    (canonical : history.Canonical) (empty : history.events = .empty)
    {first second : List E} (identified : Identified first)
    (same : ∀ event, event ∈ first ↔ event ∈ second)
    : history.applyEvents first = history.applyEvents second := by
  have members (entry : ContimeKey × E)
      : entry ∈ first.map keyed ↔ entry ∈ second.map keyed := by
    simp only [List.mem_map, same]
  have timelines
      : (history.applyEvents first).timeline = (history.applyEvents second).timeline := by
    rw [applyEvents_timeline, applyEvents_timeline, timeline, empty]
    exact Timeline.foldl_deliver_eq_of_same_members _ identified.consistent members
  have events : (history.applyEvents first).events = (history.applyEvents second).events :=
    congrArg Timeline.log timelines
  have settings : SameSettings (history.applyEvents first) (history.applyEvents second) :=
    (applyEvents_settings history first).trans (applyEvents_settings history second).symm
  refine settings.history_eq events (BTreeMap.ext_entries ?_)
  rw [canonical.applyEvents first, canonical.applyEvents second, settings.checkpointInterval,
    settings.baseSnapshot, events]

/-- The stored history and the summed deltas depend on the set of delivered events only, and have
this canonical form: exactly the delivered events, a checkpoint at exactly every `interval`-th of
them with the replay up to it, and deltas that add up to the stored size. By canonical form, which
every arrival keeps on either path: two canonical histories with the same events are equal.
-/
theorem arrivalOrder_irrelevant (snapshot : S) (currentTime horizon : Time)
    (interval : Nat) (positive : 0 < interval) (first second : List E)
    (identified : Identified first) (same : ∀ event, event ∈ first ↔ event ∈ second)
    : let fresh : LocalSnapshotHistory S E :=
        newWithInterval snapshot currentTime horizon interval positive
      let left := fresh.applyEvents first
      let right := fresh.applyEvents second
      let leftDelta := totalDelta (fresh.reports (first.map .applyEvent))
      let rightDelta := totalDelta (fresh.reports (second.map .applyEvent))
      left.events = right.events
      ∧ left.checkpoints = right.checkpoints
      ∧ leftDelta = rightDelta
      ∧ (∀ entry, entry ∈ left.events.entries ↔ ∃ event ∈ first, entry = keyed event)
      ∧ (∀ checkpoint,
          checkpoint ∈ left.checkpoints.entries
          ↔ ∃ front entry back,
              left.events.entries = front ++ entry :: back
              ∧ (front.length + 1) % interval = 0
              ∧ checkpoint
                = (entry.1,
                    replay replayStep (Snapshot.setTime snapshot 0) (front ++ [entry])))
      ∧ leftDelta
        = Int64.ofNat
            (eventsSize left.events.entries + checkpointsSize left.checkpoints.entries) := by
  intro fresh left right leftDelta rightDelta
  have canonical : fresh.Canonical :=
    newWithInterval_canonical snapshot currentTime horizon interval positive
  have equal : left = right := applyEvents_eq_of_same_set canonical rfl identified same
  have total (events : List E)
      : totalDelta (fresh.reports (events.map .applyEvent))
        = Int64.ofNat (fresh.applyEvents events).storedSize := by
    have nothing : fresh.storedSize = 0 := rfl
    rw [canonical.totalDelta, nothing]
    exact Int64.sub_zero _
  refine ⟨congrArg events equal, congrArg checkpoints equal, ?_, ?_, ?_, total first⟩
  · simp only [leftDelta, rightDelta, total]
    exact congrArg (fun history => Int64.ofNat history.storedSize) equal
  · intro entry
    have filled : left.events = BTreeMap.ofList (first.map keyed) :=
      newWithInterval_events snapshot currentTime horizon interval positive first
    rw [filled, BTreeMap.mem_ofList identified.consistent, List.mem_map]
    simp only [eq_comm]
  · intro checkpoint
    have settings := applyEvents_settings fresh first
    have marked : left.checkpoints.entries
        = marks replayStep interval 0 (Snapshot.setTime snapshot 0) left.events.entries := by
      have shape : left.Canonical := canonical.applyEvents first
      rwa [Canonical, settings.checkpointInterval, settings.baseSnapshot] at shape
    rw [marked, mem_marks_iff]
    simp only [Nat.zero_add]

/-- Three events in two orders, one of them delivered twice, with a checkpoint after two. -/
theorem arrivalOrder_irrelevant_three_events
    : let fresh : LocalSnapshotHistory TestSnapshot TestEvent :=
        newWithInterval ⟨1, 0, [], 0⟩ 0 60 2 (by decide)
      let first : List TestEvent := [.positive 1 5 2 4, .negative 1 3 7 1, .positive 1 8 9 2]
      let second : List TestEvent :=
        [.positive 1 8 9 2, .positive 1 5 2 4, .positive 1 8 9 2, .negative 1 3 7 1]
      (fresh.applyEvents first).checkpoints = (fresh.applyEvents second).checkpoints
      ∧ (fresh.applyEvents first).checkpoints.entries = [(⟨5, 2⟩, ⟨1, 5, [-1, 4], 3⟩)] := by
  intro fresh first second
  have same (event : TestEvent) : event ∈ first ↔ event ∈ second := by
    simp only [first, second, List.mem_cons, List.not_mem_nil, or_false]
    tauto
  obtain ⟨_, checkpoints, _⟩ :=
    arrivalOrder_irrelevant (⟨1, 0, [], 0⟩ : TestSnapshot) 0 60 2 (by decide) first second
      (by unfold Identified; decide) same
  exact ⟨checkpoints, by decide⟩

end LocalSnapshotHistory

end Contime
