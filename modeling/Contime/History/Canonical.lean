import Contime.History.Steps

/-! The checkpoint shape of runs of events: every `interval`-th event is marked from the
base.
-/

open SortedEntries PeriodicReplay

namespace Contime

universe u v
variable {S : Type u} {E : Type v} [Event E] [Snapshot S E] [ApplyEvent E S]

namespace LocalSnapshotHistory

/-- The checkpoints are the marks of the stored events from the base. -/
def Canonical (history : LocalSnapshotHistory S E) : Prop :=
  history.checkpoints.entries
    = marks replayStep history.checkpointInterval 0 history.baseSnapshot
        history.events.entries

variable {history : LocalSnapshotHistory S E} {event : E}

/-- Rebuilding on top of the marks before a key gives the marks of all events. -/
theorem rebuilt_of_marks {key : ContimeKey} {entries : List (ContimeKey × E)}
    (ascending : Ascending entries)
    (kept
      : below key history.checkpoints.entries
        = marks replayStep history.checkpointInterval 0 history.baseSnapshot
            (below key entries))
    : history.rebuilt key entries
      = marks replayStep history.checkpointInterval 0 history.baseSnapshot entries := by
  rw [rebuilt, kept]
  exact marks_rebuild history.intervalPositive history.baseSnapshot key ascending

/-- Events before a key are left alone by an event from the key on. -/
theorem below_insert_of_le {key : ContimeKey}
    (fresh : ContimeKey.fromEvent event ∉ history.events.keys)
    (later : key ≤ ContimeKey.fromEvent event)
    : below key (history.applyEvent event).1.events.entries
      = below key history.events.entries := by
  have none : below key [keyed event] = [] := below_eq_nil (by simpa [keyed] using later)
  have split := history.events.below_append_above fresh
  rw [insert_events_entries fresh, below_append, ← List.singleton_append, below_append, none,
    List.nil_append, ← below_append, split]

/-- A new event before a key is one more event before it. -/
theorem length_below_insert {key : ContimeKey}
    (fresh : ContimeKey.fromEvent event ∉ history.events.keys)
    (earlier : ContimeKey.fromEvent event < key)
    : (below key (history.applyEvent event).1.events.entries).length
      = (below key history.events.entries).length + 1 := by
  have one : below key [keyed event] = [keyed event] :=
    below_of_forall (by simpa [keyed] using earlier)
  have split := history.events.below_append_above fresh
  conv_rhs => rw [← split]
  rw [insert_events_entries fresh, below_append, ← List.singleton_append, below_append, one,
    below_append]
  simp only [List.length_append, List.length_singleton]
  omega

/-- Events after a key are left alone by an event up to the key. -/
theorem above_insert_of_le {key : ContimeKey}
    (fresh : ContimeKey.fromEvent event ∉ history.events.keys)
    (earlier : ContimeKey.fromEvent event ≤ key)
    : above key (history.applyEvent event).1.events.entries
      = above key history.events.entries := by
  have none : above key [keyed event] = [] := above_eq_nil (by simpa [keyed] using earlier)
  have split := history.events.below_append_above fresh
  rw [insert_events_entries fresh, above_append, ← List.singleton_append, above_append, none,
    List.nil_append, ← above_append, split]

/-- The events before a new event's own key are those stored before it. -/
theorem below_insert_self (fresh : ContimeKey.fromEvent event ∉ history.events.keys)
    : below (ContimeKey.fromEvent event) (history.applyEvent event).1.events.entries
      = below (ContimeKey.fromEvent event) history.events.entries :=
  below_insert_of_le fresh le_rfl

/-- The pending events of a canonical history are fewer than the interval. -/
theorem Canonical.dense (canonical : history.Canonical)
    : (resume history.checkpoints.entries history.baseSnapshot
        history.events.entries).2.length
      < history.checkpointInterval := by
  have positive := history.intervalPositive
  rw [canonical, resume_marks_all positive _ history.events.ascending, length_pending]
  exact Nat.mod_lt _ positive

/-- A canonical history has checkpoints at stored events only. -/
theorem Canonical.keys_subset (canonical : history.Canonical) {checkpoint : ContimeKey × S}
    (member : checkpoint ∈ history.checkpoints.entries)
    : checkpoint.1 ∈ history.events.keys := by
  rw [canonical] at member
  obtain ⟨entry, stored, same⟩ := mem_keys_of_mem_marks member
  exact BTreeMap.mem_keys.mpr ⟨entry.2, same ▸ stored⟩

/-- A canonical history has a checkpoint under exactly the keys of stored events that
complete an interval.
-/
theorem Canonical.mem_checkpoint_keys (canonical : history.Canonical) {key : ContimeKey}
    : key ∈ history.checkpoints.keys
      ↔ key ∈ history.events.keys
        ∧ history.checkpointInterval ∣ (below key history.events.entries).length + 1 := by
  rw [BTreeMap.mem_keys, BTreeMap.mem_keys, canonical]
  exact mem_marks_keys_iff history.events.ascending

/-- Every delivered event keeps a history canonical: the slow path continues the marks
before the event, and the fast path appends the one mark that can be missing.
-/
theorem Canonical.applyEvent (canonical : history.Canonical) (event : E)
    : (history.applyEvent event).1.Canonical := by
  by_cases stored : ContimeKey.fromEvent event ∈ history.events.keys
  · rwa [(applyEvent_stored history event stored).1]
  have kept : below (ContimeKey.fromEvent event) history.checkpoints.entries
      = marks replayStep history.checkpointInterval 0 history.baseSnapshot
          (below (ContimeKey.fromEvent event)
            (history.applyEvent event).1.events.entries) := by
    rw [canonical, below_marks history.events.ascending, below_insert_self stored]
  have rebuilt :=
    rebuilt_of_marks (history.applyEvent event).1.events.ascending kept
  by_cases latest : above (ContimeKey.fromEvent event) history.events.entries = []
  · refine (applyEvent_latest stored latest ?_ canonical.dense).trans rebuilt
    intro checkpoint member
    obtain ⟨value, found⟩ := BTreeMap.mem_keys.mp (canonical.keys_subset member)
    have split := history.events.below_append_above stored
    rw [latest, List.append_nil] at split
    rw [← split] at found
    exact (mem_below.mp found).2
  · exact (applyEvent_late stored latest).trans rebuilt

end LocalSnapshotHistory

end Contime
