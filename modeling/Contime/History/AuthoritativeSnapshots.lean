import Contime.History.Probes
import Contime.History.QuerySafety

/-! What an authoritative snapshot holds on to and what it reaches. Later queries answer
from it until a late event rebuilds the checkpoints; earlier queries do not see it until an
event is appended behind it in arrival but ahead of it in time.
-/

open SortedEntries PeriodicReplay

namespace Contime

universe u v
variable {S : Type u} {E : Type v} [Event E] [Snapshot S E] [ApplyEvent E S]

namespace LocalSnapshotHistory
variable {history : LocalSnapshotHistory S E} {key : ContimeKey} {snapshot : S} {event : E}
  {time : Time}

-----------------------------------------------------------------------------------------
-- Queries behind a snapshot
-----------------------------------------------------------------------------------------

/-- The event is stored already or has no later one stored: no checkpoint is dropped. -/
def SparesCheckpoints (events : BTreeMap ContimeKey E) (event : E) : Prop :=
  ContimeKey.fromEvent event ∈ events.keys
  ∨ above (ContimeKey.fromEvent event) events.entries = []

/-- An event from the key on is stored, or else the last checkpoint is the snapshot. -/
def Guarded (history : LocalSnapshotHistory S E) (key : ContimeKey) (snapshot : S) : Prop :=
  (∃ entry ∈ history.events.entries, key ≤ entry.1)
  ∨ history.checkpoints.entries.getLast? = some (key, snapshot)

omit [Event E] in
/-- A query behind the last checkpoint replays the events between the two. -/
theorem snapshotAt_behind_last
    (last : history.checkpoints.entries.getLast? = some (key, snapshot))
    (behind : key < history.queryKey time)
    : history.snapshotAt time
      = some
          (Snapshot.setTime
            (replay queryStep snapshot
              (below (history.queryKey time) (above key history.events.entries)))
            time) := by
  obtain ⟨front, shape⟩ := List.getLast?_eq_some_iff.mp last
  have ascending : Ascending (front ++ [(key, snapshot)]) := by
    rw [← shape]
    exact history.checkpoints.ascending
  have low : ∀ checkpoint ∈ history.checkpoints.entries,
      checkpoint.1 < history.queryKey time := by
    rw [shape]
    intro checkpoint member
    exact (ascending.le_last member).trans_lt behind
  have absent : history.queryKey time ∉ history.checkpoints.keys := by
    intro present
    obtain ⟨value, member⟩ := BTreeMap.mem_keys.mp present
    exact (low _ member).false
  rw [snapshotAt_eq absent, below_of_forall low, shape, answer, resume_append_singleton]

/-- In a guarded history the latest event, falling before the key, adds a copy of the
snapshot under its own key at most; the snapshot stays the last checkpoint.
-/
theorem Guarded.latest_before (guarded : history.Guarded key snapshot)
    (fresh : ContimeKey.fromEvent event ∉ history.events.keys)
    (latest : above (ContimeKey.fromEvent event) history.events.entries = [])
    (before : ContimeKey.fromEvent event < key)
    : history.checkpoints.entries.getLast? = some (key, snapshot)
      ∧ (history.applyEvent event).1.checkpoints.entries.getLast? = some (key, snapshot)
      ∧ above key history.events.entries = []
      ∧ above key (history.applyEvent event).1.events.entries = [] := by
  have low := above_eq_nil_iff.mp latest
  have none : above key history.events.entries = [] :=
    above_eq_nil (fun entry member => (low entry member).trans before.le)
  have noneNext : above key (history.applyEvent event).1.events.entries = [] := by
    rw [above_insert_of_le fresh before.le, none]
  have last : history.checkpoints.entries.getLast? = some (key, snapshot) := by
    refine guarded.resolve_left ?_
    intro stored
    obtain ⟨entry, member, reached⟩ := stored
    exact ((low entry member).trans_lt before).not_ge reached
  refine ⟨last, ?_, none, noneNext⟩
  obtain ⟨front, shape⟩ := List.getLast?_eq_some_iff.mp last
  rcases applyEvent_latest_cases fresh latest with ⟨_, _, _, added, _⟩ | ⟨_, same, _⟩
  · have kept : above (ContimeKey.fromEvent event) [(key, snapshot)] = [(key, snapshot)] :=
      above_of_forall (by simpa using before)
    rw [added, BTreeMap.insert_entries, shape, above_append, kept, ← List.cons_append,
      ← List.append_assoc]
    exact List.getLast?_concat
  · rw [same, last]

/-- A late event that spares the checkpoints changes no answer behind a guarded key. -/
theorem Guarded.snapshotAt_applyEvent (guarded : history.Guarded key snapshot)
    (spared : SparesCheckpoints history.events event)
    (before : ContimeKey.fromEvent event < key)
    (behind : key < history.queryKey time)
    : (history.applyEvent event).1.snapshotAt time = history.snapshotAt time := by
  by_cases stored : ContimeKey.fromEvent event ∈ history.events.keys
  · rw [(applyEvent_stored history event stored).1]
  have latest := spared.resolve_left stored
  obtain ⟨last, lastNext, none, noneNext⟩ := guarded.latest_before stored latest before
  rw [snapshotAt_behind_last last behind, snapshotAt_behind_last lastNext behind, none,
    noneNext]
  rfl

/-- Deliveries whose late events spare the checkpoints keep a history guarded. -/
theorem Guarded.applyEvent (guarded : history.Guarded key snapshot)
    (spared : ContimeKey.fromEvent event < key → SparesCheckpoints history.events event)
    : (history.applyEvent event).1.Guarded key snapshot := by
  by_cases stored : ContimeKey.fromEvent event ∈ history.events.keys
  · rwa [(applyEvent_stored history event stored).1]
  have grows (entry : ContimeKey × E) (member : entry ∈ history.events.entries)
      : entry ∈ (history.applyEvent event).1.events.entries := by
    rw [applyEvent_events, BTreeMap.insertNew, if_neg (by simpa using stored),
      BTreeMap.mem_insert]
    refine Or.inr ⟨member, fun same => stored ?_⟩
    exact BTreeMap.mem_keys.mpr ⟨entry.2, same ▸ member⟩
  rcases lt_or_ge (ContimeKey.fromEvent event) key with before | from_key
  · have latest := (spared before).resolve_left stored
    exact Or.inr (guarded.latest_before stored latest before).2.1
  · refine Or.inl ⟨keyed event, ?_, from_key⟩
    rw [insert_events_entries stored]
    simp

/-- A matching snapshot guards its own key. -/
theorem applySnapshot_guarded (matching : Snapshot.id snapshot = history.snapshotId)
    : (history.applySnapshot snapshot).1.Guarded (history.authorityKey snapshot) snapshot := by
  rw [Guarded, applySnapshot_events, applySnapshot_checkpoints matching]
  cases later : above (history.authorityKey snapshot) history.events.entries with
  | nil =>
      right
      rw [marks_nil]
      exact List.getLast?_concat
  | cons entry rest =>
      have found : entry ∈ above (history.authorityKey snapshot) history.events.entries := by
        simp [later]
      exact Or.inl ⟨entry, (mem_above.mp found).1, (mem_above.mp found).2.le⟩

/-- A late event leaves every answer behind an authoritative snapshot alone, in every run in which
all late events so far were repeats or the latest at their arrival. By induction over the run:
each of its events spares the checkpoints behind the snapshot, which answers there.
-/
theorem lateEvent_keeps_answers (history : LocalSnapshotHistory S E) (snapshot : S)
    (matching : Snapshot.id snapshot = history.snapshotId) (later : List E)
    (spared
      : EachDelivery
          (fun met event =>
            ContimeKey.fromEvent event < history.authorityKey snapshot
            → SparesCheckpoints met.events event)
          (history.applySnapshot snapshot).1 later)
    (front : List E) (event : E) (back : List E) (split : later = front ++ event :: back)
    (late : ContimeKey.fromEvent event < history.authorityKey snapshot)
    (time : Time) (behind : Snapshot.time snapshot < time)
    : let before := (history.applySnapshot snapshot).1.applyEvents front
      (before.applyEvent event).1.snapshotAt time = before.snapshotAt time := by
  intro before
  have kept (met : LocalSnapshotHistory S E) (event : E)
      (spares
        : ContimeKey.fromEvent event < history.authorityKey snapshot
          → SparesCheckpoints met.events event)
      (guarded : met.Guarded (history.authorityKey snapshot) snapshot)
      : (met.applyEvent event).1.Guarded (history.authorityKey snapshot) snapshot :=
    guarded.applyEvent spares
  rw [split, EachDelivery, Transducer.each_append, ← applyEvents_eq_final] at spared
  have guarded : before.Guarded (history.authorityKey snapshot) snapshot :=
    applyEvents_invariant kept (applySnapshot_guarded matching) spared.1
  exact guarded.snapshotAt_applyEvent (spared.2.1 late) late
    (ContimeKey.lt_of_time_lt behind)

/-- A late event that is the latest at its arrival, with a second event behind it. -/
theorem lateEvent_keeps_answers_of_latest
    : let history : LocalSnapshotHistory TestSnapshot TestEvent :=
        newWithInterval ⟨1, 0, [], 0⟩ 0 60 2 (by decide)
      let before := (history.applySnapshot ⟨1, 5, [], 100⟩).1
      (before.applyEvent (.positive 1 3 2 7)).1.snapshotAt 9 = before.snapshotAt 9 := by
  intro history before
  have kept :=
    lateEvent_keeps_answers history ⟨1, 5, [], 100⟩ rfl
      [.positive 1 3 2 7, .positive 1 8 4 1]
      ⟨fun _ => Or.inr rfl, fun late => absurd late (by decide), trivial⟩
      [] (.positive 1 3 2 7) [.positive 1 8 4 1] rfl (by decide) 9 (by decide)
  exact kept

/-- A late event behind which another event is stored drops the snapshot. -/
theorem lateEvent_drops_snapshot
    : let history : LocalSnapshotHistory TestSnapshot TestEvent :=
        newWithInterval ⟨1, 0, [], 0⟩ 0 60 CHECKPOINT_INTERVAL (by decide)
      let before :=
        ((history.applyEvents [.positive 1 6 0 1]).applySnapshot ⟨1, 5, [], 100⟩).1
      let late : TestEvent := .positive 1 3 0 10
      ContimeKey.fromEvent late < ⟨5, 1⟩
      ∧ before.snapshotAt 7 = some ⟨1, 7, [1], 101⟩
      ∧ (before.applyEvent late).1.snapshotAt 7 = some ⟨1, 7, [10, 1], 11⟩ := by
  decide

-----------------------------------------------------------------------------------------
-- Queries ahead of a snapshot
-----------------------------------------------------------------------------------------

/-- The checkpoints before a key are the marks of the events before it from the base. -/
def CanonicalBelow (history : LocalSnapshotHistory S E) (key : ContimeKey) : Prop :=
  below key history.checkpoints.entries
    = marks replayStep history.checkpointInterval 0 history.baseSnapshot
        (below key history.events.entries)

/-- A new event is the latest of all and falls before the key, but some checkpoint lies
behind it: the fast path then replays on top of a state from the event's future.
-/
def Leaks (history : LocalSnapshotHistory S E) (key : ContimeKey) (event : E) : Prop :=
  ContimeKey.fromEvent event ∉ history.events.keys
  ∧ above (ContimeKey.fromEvent event) history.events.entries = []
  ∧ ContimeKey.fromEvent event < key
  ∧ ∃ checkpoint ∈ history.checkpoints.entries,
      ContimeKey.fromEvent event < checkpoint.1

theorem Canonical.canonicalBelow (canonical : history.Canonical) (key : ContimeKey)
    : history.CanonicalBelow key := by
  rw [CanonicalBelow, canonical, below_marks history.events.ascending]

/-- A canonical part has canonical parts. -/
theorem CanonicalBelow.mono {low : ContimeKey} (canonical : history.CanonicalBelow key)
    (ordered : low ≤ key)
    : history.CanonicalBelow low := by
  have cut := congrArg (below low) canonical
  rwa [below_below_of_le ordered, below_marks (history.events.ascending.below key),
    below_below_of_le ordered] at cut

/-- A late event in the canonical part rebuilds all checkpoints from the base. -/
theorem CanonicalBelow.applyEvent_late
    (canonical : history.CanonicalBelow (ContimeKey.fromEvent event))
    (fresh : ContimeKey.fromEvent event ∉ history.events.keys)
    (late : above (ContimeKey.fromEvent event) history.events.entries ≠ [])
    : (history.applyEvent event).1.Canonical := by
  refine (LocalSnapshotHistory.applyEvent_late fresh late).trans ?_
  refine rebuilt_of_marks (history.applyEvent event).1.events.ascending ?_
  rw [below_insert_self fresh]
  exact canonical

/-- Rebuilding from a later key on keeps the canonical part. Either a kept checkpoint lies
behind the part, and all new ones behind that; or the part is all that is kept.
-/
theorem below_rebuilt {later : ContimeKey} {entries : List (ContimeKey × E)}
    (ascending : Ascending entries) (ordered : key ≤ later)
    (canonical
      : below key history.checkpoints.entries
        = marks replayStep history.checkpointInterval 0 history.baseSnapshot
            (below key entries))
    : below key (history.rebuilt later entries)
      = marks replayStep history.checkpointInterval 0 history.baseSnapshot
          (below key entries) := by
  have part : below key (below later history.checkpoints.entries)
      = marks replayStep history.checkpointInterval 0 history.baseSnapshot
          (below key entries) := by
    rw [below_below_of_le ordered, canonical]
  by_cases all : ∀ checkpoint ∈ below later history.checkpoints.entries, checkpoint.1 < key
  · rw [below_of_forall all] at part
    have whole : history.rebuilt later entries
        = marks replayStep history.checkpointInterval 0 history.baseSnapshot entries := by
      rw [rebuilt, part]
      exact marks_rebuild history.intervalPositive history.baseSnapshot key ascending
    rw [whole, below_marks ascending]
  · push Not at all
    obtain ⟨checkpoint, member, behind⟩ := all
    have replayed := resume_after_marks (history.checkpoints.ascending.below later)
      history.baseSnapshot entries checkpoint member
    have none (start : S) (interval : Nat)
        : below key
            (marks replayStep interval 0 start
              (resume (below later history.checkpoints.entries) history.baseSnapshot
                entries).2)
          = [] := by
      refine below_eq_nil (fun mark marked => ?_)
      obtain ⟨entry, found, same⟩ := mem_keys_of_mem_marks marked
      rw [← same]
      exact behind.trans (replayed entry found).le
    rw [rebuilt, below_append, part, none, List.append_nil]

/-- Every event that does not leak keeps the part before a key canonical. -/
theorem CanonicalBelow.applyEvent (canonical : history.CanonicalBelow key)
    (sealed : ¬ history.Leaks key event)
    : (history.applyEvent event).1.CanonicalBelow key := by
  by_cases stored : ContimeKey.fromEvent event ∈ history.events.keys
  · rwa [(applyEvent_stored history event stored).1]
  rcases lt_or_ge (ContimeKey.fromEvent event) key with before | behind
  · by_cases latest : above (ContimeKey.fromEvent event) history.events.entries = []
    · -- All events and checkpoints lie in the canonical part.
      have checkpoints : below key history.checkpoints.entries = history.checkpoints.entries := by
        refine below_of_forall (fun checkpoint member => ?_)
        have reached : checkpoint.1 ≤ ContimeKey.fromEvent event :=
          not_lt.mp (fun ahead =>
            sealed ⟨stored, latest, before, checkpoint, member, ahead⟩)
        exact reached.trans_lt before
      have events : below key history.events.entries = history.events.entries := by
        refine below_of_forall (fun entry member => ?_)
        exact (above_eq_nil_iff.mp latest entry member).trans_lt before
      have whole : history.Canonical := by
        rwa [CanonicalBelow, checkpoints, events] at canonical
      exact (whole.applyEvent event).canonicalBelow key
    · exact ((canonical.mono before.le).applyEvent_late stored latest).canonicalBelow key
  · rw [CanonicalBelow, applyEvent_checkpointInterval, applyEvent_baseSnapshot]
    have events := below_insert_of_le stored behind
    by_cases latest : above (ContimeKey.fromEvent event) history.events.entries = []
    · rw [events, ← canonical]
      rcases applyEvent_latest_cases stored latest with ⟨_, _, _, added, _⟩ | ⟨_, kept, _⟩
      · rw [added, BTreeMap.below_insert_of_le _ behind]
      · rw [kept]
    · rw [LocalSnapshotHistory.applyEvent_late stored latest]
      refine below_rebuilt (history.applyEvent event).1.events.ascending behind ?_
      rw [events, canonical]

/-- A snapshot keeps the part before its own key canonical. -/
theorem CanonicalBelow.applySnapshot (canonical : history.CanonicalBelow key)
    (ahead : key ≤ history.authorityKey snapshot)
    : (history.applySnapshot snapshot).1.CanonicalBelow key := by
  have settings := applySnapshot_settings history snapshot
  rw [CanonicalBelow, below_applySnapshot ahead, applySnapshot_events,
    settings.checkpointInterval, settings.baseSnapshot]
  exact canonical

/-- An authoritative snapshot changes no answer ahead of it, in every run of later events none of
which leaks across the query. By induction over the later events: on both sides the checkpoints
below the query stay canonical.
-/
theorem pastAnswers_ignore_snapshot (base : S) (currentTime horizon : Time)
    (interval : Nat) (positive : 0 < interval) (delivered : List E) (snapshot : S)
    (matching : Snapshot.id snapshot = Snapshot.id base) (later : List E) (time : Time)
    (past : time < Snapshot.time snapshot)
    (none
      : ∀ event ∈ delivered ++ later,
          ContimeKey.fromEvent event ≠ ⟨time, Snapshot.id base⟩)
    (sealed
      : EachDelivery (fun met event => ¬ met.Leaks ⟨time, Snapshot.id base⟩ event)
          (((newWithInterval base currentTime horizon interval positive).applyEvents
            delivered).applySnapshot snapshot).1
          later)
    : let history :=
        (newWithInterval base currentTime horizon interval positive).applyEvents delivered
      ((history.applySnapshot snapshot).1.applyEvents later).snapshotAt time
        = (history.applyEvents later).snapshotAt time := by
  intro history
  let fresh : LocalSnapshotHistory S E :=
    newWithInterval base currentTime horizon interval positive
  let key : ContimeKey := ⟨time, Snapshot.id base⟩
  have id : history.snapshotId = Snapshot.id base :=
    (applyEvents_settings fresh delivered).snapshotId
  have canonical : history.Canonical :=
    (newWithInterval_canonical base currentTime horizon interval positive).applyEvents _
  have kept (met : LocalSnapshotHistory S E) (event : E) (tight : ¬ met.Leaks key event)
      (canonical : met.CanonicalBelow key)
      : (met.applyEvent event).1.CanonicalBelow key :=
    canonical.applyEvent tight
  have ahead : key < history.authorityKey snapshot := ContimeKey.lt_of_time_lt past
  have left : ((history.applySnapshot snapshot).1.applyEvents later).CanonicalBelow key :=
    applyEvents_invariant kept
      ((canonical.canonicalBelow key).applySnapshot ahead.le) sealed
  have right : (history.applyEvents later).CanonicalBelow key :=
    (canonical.applyEvents later).canonicalBelow key
  have settings : SameSettings ((history.applySnapshot snapshot).1.applyEvents later)
      (history.applyEvents later) :=
    ((applyEvents_settings _ later).trans (applySnapshot_settings history snapshot)).trans
      (applyEvents_settings history later).symm
  have events : ((history.applySnapshot snapshot).1.applyEvents later).events
      = (history.applyEvents later).events := by
    rw [applyEvents_events, applyEvents_events, applySnapshot_events]
  have query : (history.applyEvents later).queryKey time = key :=
    congrArg (ContimeKey.mk time) ((applyEvents_settings history later).snapshotId.trans id)
  -- Neither run has an operation at the query's key, so neither has a checkpoint there.
  have leftFree
      : key ∉ ((history.applySnapshot snapshot).1.applyEvents later).checkpoints.keys := by
    have absent := run_checkpoint_absent base currentTime horizon interval positive
      (fun _ => Operation.key_ne_of_snapshot matching (Int64.ne_of_lt past).symm none)
    rwa [run, Transducer.final_append] at absent
  have rightFree : key ∉ (history.applyEvents later).checkpoints.keys := by
    have absent := run_checkpoint_absent base currentTime horizon interval positive
      (fun _ => Operation.key_ne_of_events none)
    rwa [← applyEvents, applyEvents_append] at absent
  rw [← query] at left right leftFree rightFree
  refine snapshotAt_congr_of_absent settings ?_ (by rw [events]) leftFree rightFree
  rw [left, right, events, settings.checkpointInterval, settings.baseSnapshot]

/-- A snapshot between two events, with a late event whose successor is stored. -/
theorem pastAnswers_ignore_snapshot_between
    : let history : LocalSnapshotHistory TestSnapshot TestEvent :=
        (newWithInterval ⟨1, 0, [], 0⟩ 0 60 2 (by decide)).applyEvents [.positive 1 8 0 1]
      let later : List TestEvent := [.positive 1 3 0 7]
      ((history.applySnapshot ⟨1, 5, [], 100⟩).1.applyEvents later).snapshotAt 4
        = (history.applyEvents later).snapshotAt 4 := by
  have ignored :=
    pastAnswers_ignore_snapshot (⟨1, 0, [], 0⟩ : TestSnapshot) 0 60 2 (by decide)
      [.positive 1 8 0 1] ⟨1, 5, [], 100⟩ rfl [.positive 1 3 0 7] 4 (by decide) (by decide)
      ⟨fun leak => absurd leak.2.1 (by decide), trivial⟩
  exact ignored

/-- An event ahead of a snapshot but behind every stored event is answered from it. -/
theorem snapshot_leaks_into_past
    : let history : LocalSnapshotHistory TestSnapshot TestEvent :=
        newWithInterval ⟨1, 0, [], 0⟩ 0 60 CHECKPOINT_INTERVAL (by decide)
      let later : List TestEvent := [.positive 1 3 0 7]
      ((history.applySnapshot ⟨1, 5, [], 100⟩).1.applyEvents later).snapshotAt 4
        = some ⟨1, 4, [], 100⟩
      ∧ (history.applyEvents later).snapshotAt 4 = some ⟨1, 4, [7], 7⟩ := by
  decide

-----------------------------------------------------------------------------------------
-- Exactly the spared events change nothing
-----------------------------------------------------------------------------------------

/-- From `key` on, the checkpoints are the snapshot and the marks of the later events on
top of it.
-/
def AnchoredAt (history : LocalSnapshotHistory S E) (key : ContimeKey) (snapshot : S)
    : Prop :=
  history.checkpoints.entries
    = below key history.checkpoints.entries
      ++ (key, snapshot)
        :: marks replayStep history.checkpointInterval 0 snapshot
            (above key history.events.entries)

/-- A matching snapshot anchors the history at its own key. -/
theorem applySnapshot_anchoredAt (matching : Snapshot.id snapshot = history.snapshotId)
    : (history.applySnapshot snapshot).1.AnchoredAt (history.authorityKey snapshot)
        snapshot := by
  have settings := applySnapshot_settings history snapshot
  rw [AnchoredAt, below_applySnapshot le_rfl, applySnapshot_events, settings.checkpointInterval]
  exact applySnapshot_checkpoints matching

/-- Before a key behind the anchor lie the checkpoints before the anchor, the anchor, and the
marks of the events between.
-/
theorem AnchoredAt.checkpoints_below (anchored : history.AnchoredAt key snapshot)
    {later : ContimeKey} (behind : key < later)
    : below later history.checkpoints.entries
      = below key history.checkpoints.entries
        ++ (key, snapshot)
          :: marks replayStep history.checkpointInterval 0 snapshot
              (below later (above key history.events.entries)) := by
  have older : below later (below key history.checkpoints.entries)
      = below key history.checkpoints.entries :=
    below_of_forall (fun _ member => (mem_below.mp member).2.trans behind)
  have anchor : below later [(key, snapshot)] = [(key, snapshot)] :=
    below_of_forall (by simpa using behind)
  conv_lhs => rw [anchored]
  rw [below_append, older, ← List.singleton_append, below_append, anchor,
    below_marks (history.events.ascending.above key), List.singleton_append]

/-- The marks of events behind a key lie behind it. -/
theorem lt_of_mem_marks_above {entries : List (ContimeKey × E)} {interval : Nat}
    {mark : ContimeKey × S}
    (member : mark ∈ marks replayStep interval 0 snapshot (above key entries))
    : key < mark.1 := by
  obtain ⟨entry, replayed, same⟩ := mem_keys_of_mem_marks member
  exact same ▸ (mem_above.mp replayed).2

/-- A query behind an anchor answers with the anchored snapshot and the stored events
between the two.
-/
theorem AnchoredAt.snapshotAt (anchored : history.AnchoredAt key snapshot)
    (behind : key < history.queryKey time)
    (absent : history.queryKey time ∉ history.events.keys)
    : history.snapshotAt time
      = some
          (Snapshot.setTime
            (settledReplay history.checkpointInterval snapshot
              (below (history.queryKey time) (above key history.events.entries)))
            time) := by
  have later : Ascending (above key history.events.entries) :=
    history.events.ascending.above key
  have unmarked : history.queryKey time ∉ history.checkpoints.keys := by
    intro present
    obtain ⟨value, member⟩ := BTreeMap.mem_keys.mp present
    rw [anchored] at member
    rcases List.mem_append.mp member with older | newer
    · exact (mem_below.mp older).2.not_gt behind
    rcases List.mem_cons.mp newer with same | marked
    · exact behind.ne' (congrArg Prod.fst same)
    · obtain ⟨entry, replayed, same⟩ := mem_keys_of_mem_marks marked
      have key_eq : entry.1 = history.queryKey time := same
      exact absent (BTreeMap.mem_keys.mpr ⟨entry.2, key_eq ▸ (mem_above.mp replayed).1⟩)
  have ahead : ∀ mark
      ∈ marks replayStep history.checkpointInterval 0 snapshot
          (below (history.queryKey time) (above key history.events.entries)),
      (key, snapshot).1 < mark.1 := by
    intro mark member
    rw [← above_below] at member
    exact lt_of_mem_marks_above member
  rw [snapshotAt_eq unmarked, anchored.checkpoints_below behind, answer, resume_anchor ahead,
    replay_resume_marks history.intervalPositive snapshot _ later]

/-- Directly after a snapshot, a tally answers differently after a late event that does not
spare the checkpoints, if the snapshot counts more events than were ever delivered.
-/
theorem Canonical.tally_notices_unspared {history : LocalSnapshotHistory (Tally.{u} E) E}
    (canonical : history.Canonical) {snapshot : Tally E}
    (matching : Snapshot.id snapshot = history.snapshotId)
    (before : ContimeKey.fromEvent event < history.authorityKey snapshot)
    (behind : history.authorityKey snapshot < history.queryKey time)
    (absent : history.queryKey time ∉ history.events.keys)
    (unspared : ¬ SparesCheckpoints history.events event)
    (counts
      : history.baseSnapshot.applied + history.events.entries.length + 1 < snapshot.applied)
    : ((history.applySnapshot snapshot).1.applyEvent event).1.snapshotAt time
      ≠ (history.applySnapshot snapshot).1.snapshotAt time := by
  obtain ⟨fresh, late⟩ := not_or.mp unspared
  have part := (canonical.canonicalBelow (ContimeKey.fromEvent event)).applySnapshot before.le
  have anchored := applySnapshot_anchoredAt matching
  have settings := applySnapshot_settings history snapshot
  have query : (history.applySnapshot snapshot).1.queryKey time = history.queryKey time :=
    congrArg (ContimeKey.mk time) settings.snapshotId
  have events : (history.applySnapshot snapshot).1.events = history.events :=
    applySnapshot_events
  generalize (history.applySnapshot snapshot).1 = met at *
  rw [← events] at fresh late absent
  rw [← query] at behind absent
  have next := part.applyEvent_late fresh late
  have unmarked : met.queryKey time ∉ (met.applyEvent event).1.checkpoints.keys := by
    intro present
    have stored := (next.mem_checkpoint_keys.mp present).1
    rw [applyEvent_events, BTreeMap.mem_keys_insertNew] at stored
    exact stored.elim (before.trans behind).ne' absent
  have after : _ = some (met.baseSnapshot.applied
      + (below (met.queryKey time) (met.applyEvent event).1.events.entries).length) :=
    next.tally_snapshotAt unmarked
  intro same
  rw [same, anchored.snapshotAt behind absent, Option.map_some, Tally.applied_answer,
    length_below_insert fresh (before.trans behind)] at after
  have equal := Option.some.inj after
  have shorter : (below (met.queryKey time) met.events.entries).length
      ≤ history.events.entries.length := by
    rw [events]
    exact List.length_filter_le ..
  have base := congrArg Tally.applied settings.baseSnapshot
  omega

/-- Directly after a snapshot, a late event keeps the answer of a later query under every
model with overwriting time and time-blind events if and only if it spares the checkpoints.
-/
theorem lateEvent_keeps_answer_iff (snapshotId : SnapshotId) (interval : Nat)
    (positive : 0 < interval) (delivered : List E) (snapshotTime time : Time) (event : E)
    (late : ContimeKey.fromEvent event < ⟨snapshotTime, snapshotId⟩)
    (behind : snapshotTime < time)
    (none : ∀ event ∈ delivered, ContimeKey.fromEvent event ≠ ⟨time, snapshotId⟩)
    : (∀ (S : Type u) [Snapshot S E] [ApplyEvent E S] (base snapshot : S)
          (currentTime horizon : Time),
        SetTimeOverwrites S E → TimeBlind S E
        → Snapshot.id base = snapshotId → Snapshot.id snapshot = snapshotId
        → Snapshot.time snapshot = snapshotTime
        → let before :=
            (((newWithInterval base currentTime horizon interval positive).applyEvents
              delivered).applySnapshot snapshot).1
          (before.applyEvent event).1.snapshotAt time = before.snapshotAt time)
      ↔ SparesCheckpoints (BTreeMap.ofList (delivered.map keyed)) event := by
  have log {S : Type u} [Snapshot S E] [ApplyEvent E S] (base : S) (currentTime horizon : Time)
      : ((newWithInterval base currentTime horizon interval positive).applyEvents
          delivered).events
        = BTreeMap.ofList (delivered.map keyed) :=
    newWithInterval_events base currentTime horizon interval positive delivered
  have ahead : (⟨snapshotTime, snapshotId⟩ : ContimeKey) < ⟨time, snapshotId⟩ :=
    ContimeKey.lt_of_time_lt behind
  constructor
  · intro unchanged
    let base : Tally.{u} E := ⟨snapshotId, 0, 0⟩
    let count := (BTreeMap.ofList (delivered.map keyed)).entries.length
    let snapshot : Tally.{u} E := ⟨snapshotId, snapshotTime, count + 2⟩
    have canonical :=
      (newWithInterval_canonical base 0 0 interval positive).applyEvents delivered
    have same := unchanged (Tally.{u} E) base snapshot 0 0 Tally.setTimeOverwrites
      Tally.timeBlind rfl rfl rfl
    generalize shape : (newWithInterval base 0 0 interval positive).applyEvents delivered
      = history at *
    have id : history.snapshotId = snapshotId := by simp [← shape, base, Snapshot.id]
    have start : history.baseSnapshot.applied = 0 := by
      simp [← shape, base, Snapshot.setTime]
    have events : history.events = _ := shape ▸ log base 0 0
    have authority : history.authorityKey snapshot = ⟨snapshotTime, snapshotId⟩ :=
      congrArg (ContimeKey.mk snapshotTime) id
    have query : history.queryKey time = ⟨time, snapshotId⟩ := congrArg (ContimeKey.mk time) id
    rw [← events]
    by_contra unspared
    refine canonical.tally_notices_unspared id.symm (authority ▸ late) ?_ ?_ unspared ?_ same
    · rwa [authority, query]
    · rw [query, events, BTreeMap.mem_keys_ofList]
      intro stored
      obtain ⟨entry, member, key⟩ := stored
      obtain ⟨stored, found, rfl⟩ := List.mem_map.mp member
      exact none stored found key
    · rw [start, events]
      simp only [snapshot, count]
      omega
  · intro spared S _ _ base snapshot currentTime horizon _ _ id sameId sameTime before
    subst id sameTime
    have guarded : before.Guarded ⟨Snapshot.time snapshot, Snapshot.id base⟩ snapshot := by
      have own := applySnapshot_guarded (sameId.trans (applyEvents_snapshotId
        (newWithInterval base currentTime horizon interval positive) delivered).symm)
      rwa [authorityKey, applyEvents_snapshotId] at own
    have query : before.queryKey time = ⟨time, Snapshot.id base⟩ := by
      rw [queryKey, (applySnapshot_settings _ _).snapshotId, applyEvents_snapshotId]
      rfl
    refine guarded.snapshotAt_applyEvent ?_ late (query ▸ ahead)
    rwa [applySnapshot_events, log]

end LocalSnapshotHistory

end Contime
