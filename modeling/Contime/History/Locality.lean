import Contime.History.BoundedReplay

/-! Updates are local in time: an event or a snapshot moves nothing that is stored before its
own key. A late event replays from a checkpoint that may lie far before it, but the events up
to it are too few for a mark.
-/

open SortedEntries PeriodicReplay Spacing

namespace Contime

universe u v
variable {S : Type u} {E : Type v} [Event E] [Snapshot S E] [ApplyEvent E S]

namespace LocalSnapshotHistory
variable {history before after : LocalSnapshotHistory S E} {key : ContimeKey} {event : E}
  {snapshot : S} {time : Time}

/-- All that an update under `key` leaves alone. -/
structure LocalFrom (key : ContimeKey) (before after : LocalSnapshotHistory S E) : Prop where
  settings : SameSettings after before
  stored : ∀ entry ∈ before.events.entries, entry ∈ after.events.entries
  others : ∀ entry ∈ after.events.entries, entry.1 ≠ key → entry ∈ before.events.entries
  checkpoints : below key after.checkpoints.entries = below key before.checkpoints.entries

omit [Snapshot S E] [ApplyEvent E S] [Event E] in
/-- Before its key an update leaves the stored events as they were. -/
theorem LocalFrom.below_events (frame : LocalFrom key before after)
    : below key after.events.entries = below key before.events.entries := by
  refine (after.events.ascending.below key).ext (before.events.ascending.below key) ?_
  intro entry
  rw [mem_below, mem_below]
  constructor
  · intro present
    obtain ⟨member, earlier⟩ := present
    exact ⟨frame.others entry member earlier.ne, earlier⟩
  · intro present
    obtain ⟨member, earlier⟩ := present
    exact ⟨frame.stored entry member, earlier⟩

omit [Event E] in
/-- A query before the key of an update does not see it, unless the update brings the first
event: the range call of a query never panics on a map that was never filled.
-/
theorem LocalFrom.snapshotAt_eq (frame : LocalFrom key before after)
    (alike : after.events.isEmpty = before.events.isEmpty)
    (earlier : before.queryKey time < key)
    : after.snapshotAt time = before.snapshotAt time := by
  have query : after.queryKey time = before.queryKey time :=
    congrArg (ContimeKey.mk time) frame.settings.snapshotId
  have checkpoints : upTo (before.queryKey time) after.checkpoints.entries
      = upTo (before.queryKey time) before.checkpoints.entries := by
    rw [← upTo_below_of_lt earlier, frame.checkpoints, upTo_below_of_lt earlier]
  have events : below (before.queryKey time) after.events.entries
      = below (before.queryKey time) before.events.entries := by
    rw [← below_below_of_le earlier.le, frame.below_events, below_below_of_le earlier.le]
  have start : after.queryStart time = before.queryStart time := by
    rw [queryStart, queryStart, query, BTreeMap.range_unbounded_included,
      BTreeMap.range_unbounded_included, checkpoints, frame.settings.baseSnapshot]
  rw [snapshotAt, snapshotAt, start, query, frame.settings.eventsEmptied]
  dsimp only
  rw [BTreeMap.range?_excluded_congr alike events]

omit [Event E] in
/-- So the answers that an update changes lie at or behind the time of its key. -/
theorem LocalFrom.time_le_of_changed (frame : LocalFrom key before after)
    (alike : after.events.isEmpty = before.events.isEmpty)
    (changed : after.snapshotAt time ≠ before.snapshotAt time)
    : key.time ≤ time := by
  by_contra earlier
  have lower : before.queryKey time < key :=
    ContimeKey.lt_of_time_lt (Int64.not_le.mp earlier)
  exact changed (frame.snapshotAt_eq alike lower)

omit [Event E] [Snapshot S E] [ApplyEvent E S] in
/-- Before any key, fewer events than the interval follow the last checkpoint there. -/
theorem Dense.before_short (dense : history.Dense) {events : List (ContimeKey × E)}
    (same : below key events = below key history.events.entries)
    : (below key
        (resume (below key history.checkpoints.entries) history.baseSnapshot events).2).length
      < history.checkpointInterval := by
  have earlier {stop : ContimeKey} (present : stop ∈ history.checkpoints.keys)
      (before : stop < key)
      : ∃ checkpoint ∈ below key history.checkpoints.entries, checkpoint.1 = stop := by
    obtain ⟨value, member⟩ := BTreeMap.mem_keys.mp present
    exact ⟨(stop, value), mem_below.mpr ⟨member, before⟩, rfl⟩
  have ascending := history.checkpoints.ascending.below key
  rcases List.eq_nil_or_concat (below key history.checkpoints.entries) with
    none | ⟨front, last, some⟩
  · rw [none, resume_nil, same]
    refine dense.before (fun stop present => ?_)
    by_contra before
    obtain ⟨checkpoint, member, _⟩ := earlier present (not_le.mp before)
    rw [none] at member
    exact List.not_mem_nil member
  · rw [some, List.concat_eq_append] at ascending earlier ⊢
    rw [resume_append_singleton, ← above_below, same, above_below]
    refine dense.between (fun stop present => ?_)
    rcases lt_or_ge stop key with before | behind
    · obtain ⟨checkpoint, member, rfl⟩ := earlier present before
      exact Or.inl (ascending.le_last member)
    · exact Or.inr behind

/-- Rebuilding from a key on adds no checkpoint before it. -/
theorem Dense.below_rebuilt (dense : history.Dense) {events : List (ContimeKey × E)}
    (ascending : Ascending events)
    (same : below key events = below key history.events.entries)
    : below key (history.rebuilt key events) = below key history.checkpoints.entries := by
  have replayed := resume_sublist (below key history.checkpoints.entries) history.baseSnapshot
    events
  have short := dense.before_short same
  rw [rebuilt, below_append, below_below_self, below_marks (ascending.sublist replayed),
    marks_of_short (by omega), List.append_nil]

/-- An event from a key on leaves the checkpoints before the key alone. -/
theorem Dense.below_applyEvent (dense : history.Dense)
    (ordered : key ≤ ContimeKey.fromEvent event)
    : below key (history.applyEvent event).1.checkpoints.entries
      = below key history.checkpoints.entries := by
  by_cases stored : ContimeKey.fromEvent event ∈ history.events.keys
  · rw [(applyEvent_stored history event stored).1]
  by_cases latest : above (ContimeKey.fromEvent event) history.events.entries = []
  · rcases applyEvent_latest_cases stored latest with ⟨_, _, _, added, _⟩ | ⟨_, kept, _⟩
    · rw [added, BTreeMap.below_insert_of_le _ ordered]
    · rw [kept]
  · have own := dense.below_rebuilt (history.applyEvent event).1.events.ascending
      (below_insert_self stored)
    have part := congrArg (below key) own
    rwa [below_below_of_le ordered, below_below_of_le ordered,
      ← LocalSnapshotHistory.applyEvent_late stored latest] at part

/-- An event is local from its own key on. -/
theorem Dense.applyEvent_localFrom (dense : history.Dense) (event : E)
    : LocalFrom (ContimeKey.fromEvent event) history (history.applyEvent event).1 where
  settings := applyEvent_settings history event
  stored entry member := by
    rw [applyEvent_events]
    by_cases stored : ContimeKey.fromEvent event ∈ history.events.keys
    · rwa [BTreeMap.insertNew, if_pos (BTreeMap.containsKey_iff.mpr stored)]
    · rw [BTreeMap.insertNew, if_neg (by simpa using stored), BTreeMap.mem_insert]
      refine Or.inr ⟨member, fun same => stored ?_⟩
      exact BTreeMap.mem_keys.mpr ⟨entry.2, same ▸ member⟩
  others entry member differ := by
    rw [applyEvent_events] at member
    refine (BTreeMap.mem_insertNew_imp member).resolve_left (fun own => ?_)
    exact differ (congrArg Prod.fst own)
  checkpoints := dense.below_applyEvent le_rfl

/-- A snapshot is local from its own key on. -/
theorem applySnapshot_localFrom (history : LocalSnapshotHistory S E) (snapshot : S)
    : LocalFrom (history.authorityKey snapshot) history (history.applySnapshot snapshot).1 where
  settings := applySnapshot_settings history snapshot
  stored entry member := by rwa [applySnapshot_events]
  others entry member _ := by rwa [applySnapshot_events] at member
  checkpoints := below_applySnapshot le_rfl

/-- In every run, an event or a snapshot leaves the base, the clock, the events under other keys
and all checkpoints before its own key as they were. By density of the checkpoints, which keeps
the slow path behind that key.
-/
theorem updates_local (base : S) (currentTime horizon : Time) (interval : Nat)
    (positive : 0 < interval) (operations : List (Operation S E))
    : let history :=
        (newWithInterval base currentTime horizon interval positive).run operations
      (∀ event : E,
        LocalFrom (ContimeKey.fromEvent event) history (history.applyEvent event).1)
      ∧ ∀ snapshot : S,
        LocalFrom (history.authorityKey snapshot) history (history.applySnapshot snapshot).1
        ∧ (history.applySnapshot snapshot).1.events = history.events := by
  intro history
  have dense : history.Dense :=
    (newWithInterval_dense base currentTime horizon interval positive).run operations
  exact ⟨dense.applyEvent_localFrom,
    fun snapshot => ⟨applySnapshot_localFrom history snapshot, applySnapshot_events⟩⟩

/-- A late event behind a snapshot and a pruned prefix, replayed from the base. -/
theorem updates_local_late_event
    : let history : LocalSnapshotHistory TestSnapshot TestEvent :=
        (newWithInterval ⟨1, 0, [], 0⟩ 0 0 2 (by decide)).run
          [.applyEvent (.positive 1 1 0 1), .applyEvent (.positive 1 4 0 1),
            .applyEvent (.positive 1 6 0 1), .applyEvent (.positive 1 8 0 1), .advance 3,
            .applySnapshot ⟨1, 5, [], 100⟩]
      let late : TestEvent := .positive 1 7 0 1
      below ⟨7, 0⟩ (history.applyEvent late).1.checkpoints.entries
        = [(⟨4, 0⟩, ⟨1, 4, [1, 1], 2⟩), (⟨5, 1⟩, ⟨1, 5, [], 100⟩)] := by
  intro history late
  have frame :=
    (updates_local (⟨1, 0, [], 0⟩ : TestSnapshot) 0 0 2 (by decide)
      [.applyEvent (TestEvent.positive 1 1 0 1), .applyEvent (.positive 1 4 0 1),
        .applyEvent (.positive 1 6 0 1), .applyEvent (.positive 1 8 0 1), .advance 3,
        .applySnapshot ⟨1, 5, [], 100⟩]).1 late
  exact frame.checkpoints.trans (by decide)

end LocalSnapshotHistory

end Contime
