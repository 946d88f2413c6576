import Contime.History.AuthoritativeSnapshots
import Contime.History.Locality

/-! Two authoritative snapshots of one history. Each takes effect from its own key on when it
is applied, so the order of their arrival shows behind the later one.
-/

open SortedEntries PeriodicReplay

namespace Contime

universe u v
variable {S : Type u} {E : Type v} [Event E] [Snapshot S E] [ApplyEvent E S]

namespace LocalSnapshotHistory
variable {history : LocalSnapshotHistory S E} {snapshot : S} {time : Time}

/-- A snapshot changes no answer before its own time. -/
theorem applySnapshot_snapshotAt_of_lt (past : time < Snapshot.time snapshot)
    : (history.applySnapshot snapshot).1.snapshotAt time = history.snapshotAt time := by
  have ahead : history.queryKey time < history.authorityKey snapshot :=
    ContimeKey.lt_of_time_lt past
  refine (applySnapshot_localFrom history snapshot).snapshotAt_eq ?_ ahead
  rw [applySnapshot_events]

/-- A query behind a matching snapshot answers with it and the stored events between. -/
theorem applySnapshot_snapshotAt_of_gt (overwrites : SetTimeOverwrites S E)
    (blind : TimeBlind S E) (matching : Snapshot.id snapshot = history.snapshotId)
    (behind : Snapshot.time snapshot < time)
    (absent : history.queryKey time ∉ history.events.keys)
    : (history.applySnapshot snapshot).1.snapshotAt time
      = some
          (Snapshot.setTime
            (replay queryStep snapshot
              (below (history.queryKey time)
                (above (history.authorityKey snapshot) history.events.entries)))
            time) := by
  have settings := applySnapshot_settings history snapshot
  have query : (history.applySnapshot snapshot).1.queryKey time = history.queryKey time :=
    congrArg (ContimeKey.mk time) settings.snapshotId
  have anchored := applySnapshot_anchoredAt matching
  have ahead
      : history.authorityKey snapshot < (history.applySnapshot snapshot).1.queryKey time := by
    rw [query]
    exact ContimeKey.lt_of_time_lt behind
  rw [anchored.snapshotAt ahead (by rwa [query, applySnapshot_events]),
    settledReplay_of_blind overwrites blind, query, applySnapshot_events]

/-- After every run, a matching snapshot takes effect exactly from its own key on: behind it,
queries answer with it and the stored events between; ahead of it they answer as before, and the
events and the base stay. By the cut at that key, behind which the snapshot is the nearest
checkpoint.
-/
theorem snapshot_effective_from_own_key (overwrites : SetTimeOverwrites S E)
    (blind : TimeBlind S E) (base : S) (currentTime horizon : Time) (interval : Nat)
    (positive : 0 < interval) (operations : List (Operation S E)) (snapshot : S)
    (matching : Snapshot.id snapshot = Snapshot.id base)
    : let history :=
        (newWithInterval base currentTime horizon interval positive).run operations
      let next := (history.applySnapshot snapshot).1
      let key : ContimeKey := ⟨Snapshot.time snapshot, Snapshot.id base⟩
      (∀ time : Time,
        Snapshot.time snapshot < time
        → ⟨time, Snapshot.id base⟩ ∉ history.events.keys
        → let between := below ⟨time, Snapshot.id base⟩ (above key history.events.entries)
          next.snapshotAt time
            = some (Snapshot.setTime (replay queryStep snapshot between) time))
      ∧ (∀ time < Snapshot.time snapshot, next.snapshotAt time = history.snapshotAt time)
      ∧ next.events = history.events
      ∧ next.baseSnapshot = history.baseSnapshot := by
  intro history next key
  have id : history.snapshotId = Snapshot.id base := run_snapshotId _ operations
  have authority : history.authorityKey snapshot = key := congrArg (ContimeKey.mk _) id
  refine ⟨fun time behind absent => ?_, fun time past => applySnapshot_snapshotAt_of_lt past,
    applySnapshot_events, (applySnapshot_settings history snapshot).baseSnapshot⟩
  have query : history.queryKey time = ⟨time, Snapshot.id base⟩ :=
    congrArg (ContimeKey.mk time) id
  intro between
  have answer := applySnapshot_snapshotAt_of_gt overwrites blind (matching.trans id.symm) behind
    (query ▸ absent)
  rwa [query, authority] at answer

/-- A snapshot over an earlier snapshot, a pruned prefix and a tie in time, queried behind the
next event.
-/
theorem snapshot_effective_from_own_key_between
    : let history : LocalSnapshotHistory TestSnapshot TestEvent :=
        (newWithInterval ⟨1, 0, [], 0⟩ 0 0 2 (by decide)).run
          [.applyEvent (.positive 1 2 0 1), .applyEvent (.positive 1 5 0 1),
            .applyEvent (.positive 1 5 9 1), .applySnapshot ⟨1, 4, [], 50⟩, .advance 3,
            .applyEvent (.positive 1 7 0 2)]
      (history.applySnapshot ⟨1, 5, [], 100⟩).1.snapshotAt 8 = some ⟨1, 8, [1, 2], 103⟩ := by
  intro history
  have effective :=
    snapshot_effective_from_own_key testSnapshot_setTimeOverwrites testEvent_timeBlind
      (⟨1, 0, [], 0⟩ : TestSnapshot) 0 0 2 (by decide)
      [.applyEvent (TestEvent.positive 1 2 0 1), .applyEvent (.positive 1 5 0 1),
        .applyEvent (.positive 1 5 9 1), .applySnapshot ⟨1, 4, [], 50⟩, .advance 3,
        .applyEvent (.positive 1 7 0 2)]
      ⟨1, 5, [], 100⟩ rfl
  exact (effective.1 8 (by decide) (by decide)).trans (by decide)

/-- Of two snapshots applied in the order of their times the latest one before a query answers it,
with the later events on top. In the other order that holds before the later snapshot, and behind
it the earlier one answers, which was applied last. By what each application does: it answers
behind its own key and keeps the answers ahead of it.
-/
theorem snapshots_in_either_order (overwrites : SetTimeOverwrites S E) (blind : TimeBlind S E)
    (base : S) (currentTime horizon : Time) (interval : Nat) (positive : 0 < interval)
    (delivered : List E) (early late : S) (earlyMatches : Snapshot.id early = Snapshot.id base)
    (lateMatches : Snapshot.id late = Snapshot.id base)
    (ordered : Snapshot.time early < Snapshot.time late) (time : Time)
    (none : ∀ event ∈ delivered, ContimeKey.fromEvent event ≠ ⟨time, Snapshot.id base⟩)
    : let history :=
        (newWithInterval base currentTime horizon interval positive).applyEvents delivered
      let inOrder := ((history.applySnapshot early).1.applySnapshot late).1.snapshotAt time
      let reversed := ((history.applySnapshot late).1.applySnapshot early).1.snapshotAt time
      let events :=
        below ⟨time, Snapshot.id base⟩ (BTreeMap.ofList (delivered.map keyed)).entries
      let onTopOf (start : S) (events : List (ContimeKey × E)) :=
        some (Snapshot.setTime (replay queryStep start events) time)
      (time < Snapshot.time early
        → inOrder = onTopOf (Snapshot.setTime base 0) events
          ∧ reversed = onTopOf (Snapshot.setTime base 0) events)
      ∧ (Snapshot.time early < time → time < Snapshot.time late
        → inOrder = onTopOf early (above ⟨Snapshot.time early, Snapshot.id base⟩ events)
          ∧ reversed = onTopOf early (above ⟨Snapshot.time early, Snapshot.id base⟩ events))
      ∧ (Snapshot.time late < time
        → inOrder = onTopOf late (above ⟨Snapshot.time late, Snapshot.id base⟩ events)
          ∧ reversed = onTopOf early (above ⟨Snapshot.time early, Snapshot.id base⟩ events)) := by
  intro history inOrder reversed events onTopOf
  have id : history.snapshotId = Snapshot.id base := applyEvents_snapshotId _ delivered
  have log : history.events = BTreeMap.ofList (delivered.map keyed) :=
    newWithInterval_events base currentTime horizon interval positive delivered
  have query : history.queryKey time = ⟨time, Snapshot.id base⟩ := congrArg (ContimeKey.mk time) id
  have absent : history.queryKey time ∉ history.events.keys := by
    intro present
    obtain ⟨event, member, same⟩ :=
      (newWithInterval_mem_keys base currentTime horizon interval positive).mp present
    exact none event member (same.trans query)
  -- Behind a snapshot that was just applied to `met`, it answers.
  have behind {met : LocalSnapshotHistory S E} (settings : SameSettings met history)
      (same : met.events = history.events) {snapshot : S}
      (matching : Snapshot.id snapshot = Snapshot.id base) (later : Snapshot.time snapshot < time)
      : (met.applySnapshot snapshot).1.snapshotAt time
        = onTopOf snapshot (above ⟨Snapshot.time snapshot, Snapshot.id base⟩ events) := by
    have metId : met.snapshotId = Snapshot.id base := settings.snapshotId.trans id
    have metQuery : met.queryKey time = history.queryKey time :=
      congrArg (ContimeKey.mk time) settings.snapshotId
    rw [applySnapshot_snapshotAt_of_gt overwrites blind (matching.trans metId.symm) later
      (by rwa [metQuery, same]), authorityKey, metId, metQuery, query, same, log, ← above_below]
  have settings (snapshot : S) : SameSettings (history.applySnapshot snapshot).1 history :=
    applySnapshot_settings history snapshot
  have afterEarly (later : Snapshot.time early < time) :=
    behind (.refl history) rfl earlyMatches later
  refine ⟨fun before => ?_, fun later before => ?_, fun later => ?_⟩
  · have answer : history.snapshotAt time = onTopOf (Snapshot.setTime base 0) events :=
      newWithInterval_stateBefore overwrites blind none
    have beforeLate := Int64.lt_trans before ordered
    exact ⟨((applySnapshot_snapshotAt_of_lt beforeLate).trans
        (applySnapshot_snapshotAt_of_lt before)).trans answer,
      ((applySnapshot_snapshotAt_of_lt before).trans
        (applySnapshot_snapshotAt_of_lt beforeLate)).trans answer⟩
  · exact ⟨(applySnapshot_snapshotAt_of_lt before).trans (afterEarly later),
      behind (settings late) applySnapshot_events earlyMatches later⟩
  · exact ⟨behind (settings early) applySnapshot_events lateMatches later,
      behind (settings late) applySnapshot_events earlyMatches
        (Int64.lt_trans ordered later)⟩

/-- Two snapshots with an event between them and one behind, queried between them. -/
theorem snapshots_in_either_order_between
    : let history : LocalSnapshotHistory TestSnapshot TestEvent :=
        (newWithInterval ⟨1, 0, [], 0⟩ 0 60 2 (by decide)).applyEvents
          [.positive 1 4 0 1, .positive 1 8 0 2]
      let reversed := ((history.applySnapshot ⟨1, 6, [], 200⟩).1.applySnapshot ⟨1, 3, [], 100⟩).1
      reversed.snapshotAt 5 = some ⟨1, 5, [1], 101⟩ := by
  obtain ⟨_, between, _⟩ :=
    snapshots_in_either_order testSnapshot_setTimeOverwrites testEvent_timeBlind
      (⟨1, 0, [], 0⟩ : TestSnapshot) 0 60 2 (by decide)
      [.positive 1 4 0 1, .positive 1 8 0 2] ⟨1, 3, [], 100⟩ ⟨1, 6, [], 200⟩ rfl rfl (by decide)
      5 (by decide)
  exact (between (by decide) (by decide)).2.trans (by decide)

/-- An earlier snapshot that arrives second replaces the later one. -/
theorem earlier_snapshot_replaces_later
    : let history : LocalSnapshotHistory TestSnapshot TestEvent :=
        newWithInterval ⟨1, 0, [], 0⟩ 0 60 CHECKPOINT_INTERVAL (by decide)
      let early : TestSnapshot := ⟨1, 3, [], 100⟩
      let late : TestSnapshot := ⟨1, 6, [], 200⟩
      ((history.applySnapshot early).1.applySnapshot late).1.snapshotAt 9
        = some ⟨1, 9, [], 200⟩
      ∧ ((history.applySnapshot late).1.applySnapshot early).1.snapshotAt 9
        = some ⟨1, 9, [], 100⟩ := by
  decide

end LocalSnapshotHistory

end Contime
