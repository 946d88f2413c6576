import Contime.History.QueryMeaning
import Contime.History.Redelivery

/-! What the silence of an application means to readers. Whether events are replayed anew is
decided by the order of keys, whether readers are told by the order of times alone.
-/

open SortedEntries PeriodicReplay

namespace Contime

universe u v
variable {S : Type u} {E : Type v} [Event E] [Snapshot S E] [ApplyEvent E S]

namespace LocalSnapshotHistory
variable {history : LocalSnapshotHistory S E} {event : E} {time : Time}

/-- A stored event with a later key has to be replayed behind the new one. -/
def Rewrites (history : LocalSnapshotHistory S E) (event : E) : Prop :=
  ∃ later ∈ history.events.entries, ContimeKey.fromEvent event < later.1

/-- The new event rewrites but shares its time with all it is replayed before: a stored
event has the same time and a larger id, and none has a later time.
-/
def TiesWithLatest (history : LocalSnapshotHistory S E) (event : E) : Prop :=
  history.Rewrites event
  ∧ ∀ stored ∈ history.events.entries, stored.1.time ≤ Event.time event

/-- An application is announced with the event's own time and the largest stored time. -/
def Announces (history : LocalSnapshotHistory S E) (event : E) : Prop :=
  ∃ latest ∈ history.events.entries.map (fun entry => entry.1.time),
    (∀ stored ∈ history.events.entries, stored.1.time ≤ latest)
    ∧ (history.applyEvent event).2.reconciliation
      = some
          { snapshotId := history.snapshotId, fromTime := Event.time event, toTime := latest }

omit [Snapshot S E] [ApplyEvent E S] in
theorem rewrites_iff : history.Rewrites event
    ↔ above (ContimeKey.fromEvent event) history.events.entries ≠ [] := by
  simp [Rewrites, above_eq_nil_iff]

omit [Snapshot S E] [ApplyEvent E S] in
/-- Without a tie, an event rewrites exactly when it lies behind the latest time. -/
theorem behindLatest_iff_rewrites (untied : ¬ history.TiesWithLatest event)
    : history.BehindLatest (.applyEvent event : Operation S E) ↔ history.Rewrites event := by
  constructor
  · intro behind
    obtain ⟨entry, member, later⟩ := behind
    exact ⟨entry, member, ContimeKey.lt_of_time_lt later⟩
  · intro rewrites
    by_contra upToDate
    refine untied ⟨rewrites, fun stored member => ?_⟩
    by_contra later
    exact upToDate ⟨stored, member, Int64.not_le.mp later⟩

omit [Event E] [Snapshot S E] [ApplyEvent E S] in
/-- The latest stored time is stored, and no stored one is larger. -/
theorem latestEventTime_spec {latest : Time} (found : history.latestEventTime = some latest)
    : latest ∈ history.events.entries.map (fun entry => entry.1.time)
      ∧ ∀ stored ∈ history.events.entries, stored.1.time ≤ latest := by
  constructor
  · obtain ⟨entry, last, rfl⟩ := Option.map_eq_some_iff.mp found
    exact List.mem_map_of_mem (List.mem_of_getLast? last)
  · intro stored member
    by_contra later
    obtain ⟨other, same, after⟩ :=
      latestEventTime_gt_iff.mpr ⟨stored, member, Int64.not_le.mp later⟩
    rw [found] at same
    obtain rfl := Option.some.inj same
    exact Int64.lt_irrefl after

/-- An event behind the latest time is announced from its time to the latest one. -/
theorem announces_of_behindLatest (behind : history.BehindLatest (.applyEvent event))
    : history.Announces event := by
  obtain ⟨latest, found, later⟩ := latestEventTime_gt_iff.mpr behind
  obtain ⟨stored, largest⟩ := latestEventTime_spec found
  refine ⟨latest, stored, largest, ?_⟩
  simp only [applyEvent, found, if_pos later]

/-- The latest event is applied last in every answer behind it and seen by no other. -/
theorem Canonical.snapshotAt_applyEvent_of_latest (overwrites : SetTimeOverwrites S E)
    (blind : TimeBlind S E) (canonical : history.Canonical)
    (fresh : ContimeKey.fromEvent event ∉ history.events.keys)
    (latest : ¬ history.Rewrites event)
    (absent : history.queryKey time ∉ history.events.keys)
    (apart : ContimeKey.fromEvent event ≠ history.queryKey time)
    : (history.applyEvent event).1.snapshotAt time = history.snapshotAt time
      ∨ (history.applyEvent event).1.snapshotAt time
        = (history.snapshotAt time).map (ApplyEvent.applyTo event) := by
  rcases lt_or_gt_of_ne apart with before | behind
  · right
    have next := canonical.applyEvent event
    have key : (history.applyEvent event).1.queryKey time = history.queryKey time := rfl
    have free : history.queryKey time ∉ history.checkpoints.keys := fun present =>
      absent (canonical.mem_checkpoint_keys.mp present).1
    have freeNext
        : (history.applyEvent event).1.queryKey time
          ∉ (history.applyEvent event).1.checkpoints.keys := by
      intro present
      have stored := (next.mem_checkpoint_keys.mp present).1
      rw [applyEvent_events, BTreeMap.mem_keys_insertNew] at stored
      exact stored.elim (fun same => apart same.symm) absent
    have events : below (history.queryKey time) (history.applyEvent event).1.events.entries
        = below (history.queryKey time) history.events.entries ++ [keyed event] := by
      have all := rewrites_iff.not_left.mp latest
      have split := history.events.below_append_above fresh
      have own : below (history.queryKey time) [keyed event] = [keyed event] :=
        below_of_forall (by simpa [keyed] using before)
      rw [all, List.append_nil] at split
      rw [insert_events_entries fresh, all, split, below_append, own]
    rw [next.snapshotAt_eq_stateBefore overwrites blind freeNext,
      canonical.snapshotAt_eq_stateBefore overwrites blind free, Option.map_some, key,
      Timeline.stateBefore, Timeline.stateBefore]
    simp only [timeline, events, replay_append, applyEvent_baseSnapshot]
    exact congrArg some (blind event _ time).symm
  · exact Or.inl (canonical.snapshotAt_applyEvent_of_lt fresh behind)

/-- Silence means append-only and every rewrite is announced, exactly for the new events that do
not tie with the latest one: only then are readers told of a rewrite. By canonical form: an event
behind all others is appended to every answer.
-/
theorem silence_is_append_iff (overwrites : SetTimeOverwrites S E) (blind : TimeBlind S E)
    (snapshot : S) (currentTime horizon : Time) (interval : Nat) (positive : 0 < interval)
    (delivered : List E) (event : E)
    (fresh : ∀ earlier ∈ delivered, ContimeKey.fromEvent earlier ≠ ContimeKey.fromEvent event)
    : let history :=
        (newWithInterval snapshot currentTime horizon interval positive).applyEvents delivered
      let silent := (history.applyEvent event).2.reconciliation = none
      let appended (time : Time) : Prop :=
        (history.applyEvent event).1.snapshotAt time = history.snapshotAt time
        ∨ (history.applyEvent event).1.snapshotAt time
          = (history.snapshotAt time).map (ApplyEvent.applyTo event)
      ((silent
          → ∀ time,
              (∀ stored ∈ event :: delivered,
                ContimeKey.fromEvent stored ≠ ⟨time, Snapshot.id snapshot⟩)
              → appended time)
        ∧ (history.Rewrites event → history.Announces event))
      ↔ ¬ history.TiesWithLatest event := by
  intro history silent appended
  have canonical : history.Canonical :=
    (newWithInterval_canonical snapshot currentTime horizon interval positive).applyEvents _
  have stored_iff (key : ContimeKey)
      : key ∈ history.events.keys
        ↔ ∃ earlier ∈ delivered, ContimeKey.fromEvent earlier = key :=
    newWithInterval_mem_keys snapshot currentTime horizon interval positive
  constructor
  · intro meets tied
    obtain ⟨latest, _, _, announced⟩ := meets.2 tied.1
    have quiet : silent :=
      applyEvent_reconciliation_eq_none_iff.mpr (fun behind => by
        obtain ⟨entry, member, later⟩ := behind
        exact absurd later (Int64.not_lt.mpr (tied.2 entry member)))
    rw [quiet] at announced
    cases announced
  · intro untied
    refine ⟨fun quiet time none => ?_, fun rewrites => ?_⟩
    · have query : history.queryKey time = ⟨time, Snapshot.id snapshot⟩ :=
        congrArg (ContimeKey.mk time) (applyEvents_snapshotId _ delivered)
      have latest : ¬ history.Rewrites event := fun rewrites =>
        applyEvent_reconciliation_eq_none_iff.mp quiet
          ((behindLatest_iff_rewrites untied).mpr rewrites)
      refine canonical.snapshotAt_applyEvent_of_latest overwrites blind ?_ latest ?_ ?_
      · intro stored
        obtain ⟨earlier, member, same⟩ := (stored_iff _).mp stored
        exact fresh earlier member same
      · intro stored
        obtain ⟨earlier, member, same⟩ := (stored_iff _).mp stored
        exact none earlier (.tail _ member) (same.trans query)
      · rw [query]
        exact none event (.head _)
    · exact announces_of_behindLatest ((behindLatest_iff_rewrites untied).mpr rewrites)

/-- A new event behind the latest time is announced, whatever ids are stored at its time. -/
theorem silence_is_append_iff_late
    : let history : LocalSnapshotHistory TestSnapshot TestEvent :=
        (newWithInterval ⟨1, 0, [], 0⟩ 0 60 2 (by decide)).applyEvents
          [.positive 1 5 10 1, .positive 1 8 1 1]
      history.Rewrites (.positive 1 5 3 2) ∧ history.Announces (.positive 1 5 3 2) := by
  intro history
  have rewrites : history.Rewrites (.positive 1 5 3 2) := by
    unfold Rewrites
    decide
  have meets :=
    (silence_is_append_iff testSnapshot_setTimeOverwrites testEvent_timeBlind
      ⟨1, 0, [], 0⟩ 0 60 2 (by decide) [.positive 1 5 10 1, .positive 1 8 1 1]
      (.positive 1 5 3 2) (by decide)).mpr (by unfold TiesWithLatest Rewrites; decide)
  exact ⟨rewrites, meets.2 rewrites⟩

/-- An event that ties with the latest one rewrites an answered prefix in silence. -/
theorem silent_rewrite_of_tie
    : let history : LocalSnapshotHistory TestSnapshot TestEvent :=
        (newWithInterval ⟨1, 0, [], 0⟩ 0 60 CHECKPOINT_INTERVAL (by decide)).applyEvents
          [.positive 1 5 10 1]
      let event : TestEvent := .positive 1 5 3 2
      ContimeKey.fromEvent event ∉ history.events.keys
      ∧ history.Rewrites event
      ∧ (history.applyEvent event).2.reconciliation = none
      ∧ history.snapshotAt 6 = some ⟨1, 6, [1], 1⟩
      ∧ (history.snapshotAt 6).map (ApplyEvent.applyTo event) = some ⟨1, 6, [1, 2], 3⟩
      ∧ (history.applyEvent event).1.snapshotAt 6 = some ⟨1, 6, [2, 1], 3⟩ := by
  unfold Rewrites
  decide

end LocalSnapshotHistory

end Contime
