import Contime.Library.Spacing
import Contime.History.Queries
import Contime.Model.TestFixtures

/-! Checkpoints lie densely among the stored events, whatever moved them, so that no query
replays as many events as the interval.
-/

open SortedEntries PeriodicReplay Spacing

namespace Contime

universe u v
variable {S : Type u} {E : Type v} [Event E] [Snapshot S E] [ApplyEvent E S]

namespace LocalSnapshotHistory
variable {history : LocalSnapshotHistory S E} {key : ContimeKey} {event : E} {snapshot : S}

/-- Between the checkpoints the stored events are fewer than the interval. -/
def Dense (history : LocalSnapshotHistory S E) : Prop :=
  Spaced history.checkpointInterval history.checkpoints.keys history.events.entries

/-- Marking anew behind the checkpoints before a key leaves the events dense, when those
before the key are.
-/
theorem spaced_rebuilt {events : List (ContimeKey × E)} (ascending : Ascending events)
    (before
      : Spaced history.checkpointInterval
          ((below key history.checkpoints.entries).map Prod.fst) (below key events))
    : Spaced history.checkpointInterval ((history.rebuilt key events).map Prod.fst) events := by
  have positive := history.intervalPositive
  rcases List.eq_nil_or_concat (below key history.checkpoints.entries) with
    none | ⟨front, last, some⟩
  · rw [rebuilt, none, resume_nil, List.nil_append]
    exact spaced_marks replayStep positive _ ascending
  · -- The last kept checkpoint separates what was spaced before from what is marked anew.
    have member : last ∈ below key history.checkpoints.entries := by simp [some]
    have low : last.1 < key := (mem_below.mp member).2
    rw [rebuilt, some, List.concat_eq_append, resume_append_singleton]
    refine spaced_of_sides last.1 (by simp) ?_ ?_
    · have part := before.below last.1 (fun stop stored _ => stored)
      rw [below_below_of_le low.le] at part
      refine part.mono (fun stop stored => ?_)
      rw [some, List.concat_eq_append] at stored
      rw [List.map_append]
      exact List.mem_append_left _ stored
    · refine (spaced_marks replayStep positive last.2 (ascending.above last.1)).mono
        (fun stop marked => ?_)
      rw [List.map_append]
      exact List.mem_append_right _ marked

/-- A late event keeps a history dense. -/
theorem Dense.applyEvent_late (dense : history.Dense)
    (fresh : ContimeKey.fromEvent event ∉ history.events.keys)
    (late : above (ContimeKey.fromEvent event) history.events.entries ≠ [])
    : (history.applyEvent event).1.Dense := by
  have shape := LocalSnapshotHistory.applyEvent_late fresh late
  rw [Dense, BTreeMap.keys, shape]
  refine spaced_rebuilt (history.applyEvent event).1.events.ascending ?_
  rw [below_insert_self fresh]
  refine dense.below _ (fun stop stored before => ?_)
  obtain ⟨value, member⟩ := BTreeMap.mem_keys.mp stored
  exact List.mem_map_of_mem (mem_below.mpr ⟨member, before⟩)

omit [Event E] [Snapshot S E] [ApplyEvent E S] in
/-- The events behind the last checkpoint are fewer than the interval. -/
theorem Dense.resume_short (dense : history.Dense)
    : (resume history.checkpoints.entries history.baseSnapshot
        history.events.entries).2.length < history.checkpointInterval := by
  have ascending := history.checkpoints.ascending
  unfold Dense BTreeMap.keys at dense
  rcases List.eq_nil_or_concat history.checkpoints.entries with none | ⟨front, last, some⟩
  · have few := dense Set.univ Set.ordConnected_univ (by simp [none])
    simpa [none, within] using few
  · rw [some, List.concat_eq_append] at ascending dense ⊢
    rw [resume_append_singleton]
    refine dense.after (fun stop stored => ?_)
    obtain ⟨checkpoint, member, rfl⟩ := List.mem_map.mp stored
    exact ascending.le_last member

omit [Event E] [Snapshot S E] [ApplyEvent E S] in
/-- A stretch around the latest event holds only events behind the last checkpoint; with
the new event these complete an interval or stay short of it.
-/
theorem Dense.latest_short (dense : history.Dense) {next : List (ContimeKey × E)}
    {entry : ContimeKey × E} (appended : next = history.events.entries ++ [entry])
    (latest : ∀ earlier ∈ history.events.entries, earlier.1 ≤ entry.1)
    {stretch : Set ContimeKey} (connected : stretch.OrdConnected)
    (free : ∀ stop ∈ history.checkpoints.keys, stop ∉ stretch) (own : entry.1 ∈ stretch)
    (unaligned
      : (resume history.checkpoints.entries history.baseSnapshot next).2.length
          % history.checkpointInterval ≠ 0)
    : (within stretch next).length < history.checkpointInterval := by
  have short := dense.resume_short
  have bounded (tail : List (ContimeKey × E))
      (grown : tail.length ≤ history.checkpointInterval)
      (incomplete : tail.length % history.checkpointInterval ≠ 0)
      (covered : within stretch next = within stretch tail)
      : (within stretch next).length < history.checkpointInterval := by
    have part := (within_sublist stretch tail).length_le
    have full : tail.length ≠ history.checkpointInterval := by
      intro same
      exact incomplete (by rw [same, Nat.mod_self])
    rw [covered]
    omega
  rcases List.eq_nil_or_concat history.checkpoints.entries with none | ⟨front, last, some⟩
  · rw [none, resume_nil] at short unaligned
    refine bounded next ?_ unaligned rfl
    rw [appended, List.length_append, List.length_singleton]
    exact short
  · rw [some, List.concat_eq_append, resume_append_singleton] at short unaligned
    have upper : ∀ later ∈ next, later.1 ≤ entry.1 := by
      rw [appended]
      intro later member
      rcases List.mem_append.mp member with stored | same
      · exact latest later stored
      · rw [List.mem_singleton.mp same]
    have behind : last.1 < entry.1 := by
      by_contra reached
      have none : above last.1 next = [] :=
        above_eq_nil (fun later member => (upper later member).trans (not_lt.mp reached))
      rw [none] at unaligned
      exact unaligned (Nat.zero_mod _)
    have stop : last.1 ∉ stretch :=
      free last.1 (BTreeMap.mem_keys.mpr ⟨last.2, by simp [some]⟩)
    have high : stretch ⊆ Set.Ioi last.1 := by
      refine (subset_Iio_or_subset_Ioi connected stop).resolve_left (fun low => ?_)
      exact behind.asymm (low own)
    refine bounded (above last.1 next) ?_ unaligned (within_above high).symm
    have own : above last.1 [entry] = [entry] := above_of_forall (by simpa using behind)
    rw [appended, above_append, own, List.length_append, List.length_singleton]
    exact short

/-- The latest event keeps a history dense: if it completes an interval it is a checkpoint
itself, and otherwise the events behind the last checkpoint stay short of one.
-/
theorem Dense.applyEvent_latest (dense : history.Dense)
    (fresh : ContimeKey.fromEvent event ∉ history.events.keys)
    (latest : above (ContimeKey.fromEvent event) history.events.entries = [])
    : (history.applyEvent event).1.Dense := by
  have positive := history.intervalPositive
  have entries := insert_latest_entries fresh latest
  have outside (stretch : Set ContimeKey) (apart : ContimeKey.fromEvent event ∉ stretch)
      : within stretch (history.applyEvent event).1.events.entries
        = within stretch history.events.entries := by
    have none : within stretch [keyed event] = [] :=
      within_eq_nil (by simpa [keyed] using apart)
    rw [entries, within_append, none, List.append_nil]
  intro stretch connected free
  rcases applyEvent_latest_cases fresh latest with ⟨_, _, _, added, _⟩ | ⟨unaligned, kept, _⟩
  · rw [added] at free
    have own : ContimeKey.fromEvent event ∉ stretch :=
      free _ (BTreeMap.mem_keys.mpr ⟨_, BTreeMap.mem_insert.mpr (Or.inl rfl)⟩)
    rw [outside stretch own]
    refine dense stretch connected (fun stop stored => ?_)
    by_cases same : stop = ContimeKey.fromEvent event
    · exact same ▸ own
    · obtain ⟨value, member⟩ := BTreeMap.mem_keys.mp stored
      exact free stop
        (BTreeMap.mem_keys.mpr ⟨value, BTreeMap.mem_insert.mpr (Or.inr ⟨member, same⟩)⟩)
  · rw [kept] at free
    by_cases own : ContimeKey.fromEvent event ∈ stretch
    · exact dense.latest_short entries (above_eq_nil_iff.mp latest) connected free own unaligned
    · rw [outside stretch own]
      exact dense stretch connected free

/-- Events keep a history dense, late or not. -/
theorem Dense.applyEvent (dense : history.Dense) (event : E)
    : (history.applyEvent event).1.Dense := by
  by_cases stored : ContimeKey.fromEvent event ∈ history.events.keys
  · rwa [(applyEvent_stored history event stored).1]
  by_cases latest : above (ContimeKey.fromEvent event) history.events.entries = []
  · exact dense.applyEvent_latest stored latest
  · exact dense.applyEvent_late stored latest

/-- Snapshots keep a history dense: a matching one separates the events before it, spaced
as before, from those it is marked behind.
-/
theorem Dense.applySnapshot (dense : history.Dense) (snapshot : S)
    : (history.applySnapshot snapshot).1.Dense := by
  by_cases matching : Snapshot.id snapshot = history.snapshotId
  · have settings := applySnapshot_settings history snapshot
    rw [Dense, settings.checkpointInterval, applySnapshot_events, BTreeMap.keys,
      applySnapshot_checkpoints matching, List.map_append, List.map_cons]
    refine spaced_of_sides (history.authorityKey snapshot) (by simp) ?_ ?_
    · refine dense.below _ (fun stop stored before => ?_)
      obtain ⟨value, member⟩ := BTreeMap.mem_keys.mp stored
      exact List.mem_append_left _ (List.mem_map_of_mem (mem_below.mpr ⟨member, before⟩))
    · refine (spaced_marks replayStep history.intervalPositive snapshot
        (history.events.ascending.above _)).mono (fun stop marked => ?_)
      exact List.mem_append_right _ (List.mem_cons_of_mem _ marked)
  · rwa [applySnapshot_other matching]

omit [ApplyEvent E S] in
/-- Pruning keeps a history dense: it cuts events and checkpoints at one key. -/
theorem Dense.advance (dense : history.Dense) (time : Time)
    : (history.advance time).1.Dense := by
  refine dense.atLeast _ (fun stop stored kept => ?_)
  obtain ⟨value, member⟩ := BTreeMap.mem_keys.mp stored
  exact BTreeMap.mem_keys.mpr ⟨value, mem_atLeast.mpr ⟨member, kept⟩⟩

/-- Every operation keeps a history dense. -/
theorem Dense.perform (dense : history.Dense) (operation : Operation S E)
    : (history.perform operation).1.Dense := by
  cases operation with
  | applyEvent event => exact dense.applyEvent event
  | applySnapshot snapshot => exact dense.applySnapshot snapshot
  | advance time => exact dense.advance time

/-- Every run keeps a history dense. -/
theorem Dense.run (dense : history.Dense) (operations : List (Operation S E))
    : (history.run operations).Dense :=
  Transducer.final_invariant (fun _ operation dense => dense.perform operation) dense operations

omit [Event E] [ApplyEvent E S] in
/-- A new history stores no events. -/
theorem newWithInterval_dense (snapshot : S) (currentTime horizon : Time) (interval : Nat)
    (positive : 0 < interval)
    : (newWithInterval (E := E) snapshot currentTime horizon interval positive).Dense :=
  spaced_nil positive

/-- Every run from a new history is dense. -/
theorem run_dense (snapshot : S) (currentTime horizon : Time) (interval : Nat)
    (positive : 0 < interval) (operations : List (Operation S E))
    : let history :=
        (newWithInterval snapshot currentTime horizon interval positive).run operations
      Spaced interval history.checkpoints.keys history.events.entries := by
  intro history
  have dense : history.Dense :=
    (newWithInterval_dense snapshot currentTime horizon interval positive).run operations
  have same : history.checkpointInterval = interval := run_checkpointInterval _ operations
  exact same ▸ dense

omit [Event E] [Snapshot S E] [ApplyEvent E S] in
/-- A query of a dense history replays fewer events than the interval. -/
theorem replay_short {interval : Nat} (positive : 0 < interval)
    (spaced : Spaced interval history.checkpoints.keys history.events.entries) (time : Time)
    {replayed : List (ContimeKey × E)}
    (range
      : history.events.range? history.eventsEmptied (history.queryStart time).2
          (.excluded (history.queryKey time))
        = some replayed)
    : replayed.length < interval := by
  have ascending : Ascending (upTo (history.queryKey time) history.checkpoints.entries) :=
    history.checkpoints.ascending.sublist List.filter_sublist
  -- A checkpoint up to the query's key is the start of the replay or lies before it.
  have later (start : ContimeKey)
      (reached : ∀ checkpoint ∈ upTo (history.queryKey time) history.checkpoints.entries,
        checkpoint.1 ≤ start)
      : ∀ stop ∈ history.checkpoints.keys, stop ≤ start ∨ history.queryKey time ≤ stop := by
    intro stop stored
    obtain ⟨value, member⟩ := BTreeMap.mem_keys.mp stored
    refine (le_or_gt stop (history.queryKey time)).imp (fun early => ?_) le_of_lt
    exact reached (stop, value) (mem_upTo.mpr ⟨member, early⟩)
  rw [BTreeMap.range?] at range
  split at range
  · obtain rfl := Option.some.inj range
    exact positive
  split at range
  · cases range
  obtain rfl := Option.some.inj range
  rw [queryStart, BTreeMap.range_unbounded_included]
  rcases List.eq_nil_or_concat
    (upTo (history.queryKey time) history.checkpoints.entries) with none | ⟨front, last, some⟩
  · rw [none]
    simp only [List.getLast?_nil, replayStart, BTreeMap.range_unbounded_excluded]
    refine spaced.before (fun stop stored => ?_)
    obtain ⟨value, member⟩ := BTreeMap.mem_keys.mp stored
    by_contra early
    have found := mem_upTo.mpr ⟨member, (not_le.mp early).le⟩
    rw [none] at found
    exact List.not_mem_nil found
  · rw [some, List.concat_eq_append] at ascending later ⊢
    simp only [List.getLast?_append, List.getLast?_singleton, Option.some_or, replayStart,
      BTreeMap.range_excluded_excluded, above_below]
    exact spaced.between (later last.1 (fun _ member => ascending.le_last member))

/-- In every run, fewer events than the interval lie between two consecutive checkpoints, before
the first one, after the last one, and in all when there is none; so the range that any query
replays is shorter than the interval. By induction over the run, each operation keeps the
checkpoints dense.
-/
theorem boundedReplay (snapshot : S) (currentTime horizon : Time) (interval : Nat)
    (positive : 0 < interval) (operations : List (Operation S E))
    : let history :=
        (newWithInterval snapshot currentTime horizon interval positive).run operations
      let events := history.events.entries
      let checkpoints := history.checkpoints.entries
      (∀ front first second back, checkpoints = front ++ first :: second :: back
        → (below second.1 (above first.1 events)).length < interval)
      ∧ (∀ first ∈ checkpoints.head?, (below first.1 events).length < interval)
      ∧ (∀ last ∈ checkpoints.getLast?, (above last.1 events).length < interval)
      ∧ (checkpoints = [] → events.length < interval)
      ∧ (∀ time replayed,
          history.events.range? history.eventsEmptied (history.queryStart time).2
              (.excluded (history.queryKey time))
            = some replayed
          → replayed.length < interval) := by
  intro history events checkpoints
  have spaced : Spaced interval history.checkpoints.keys events :=
    run_dense snapshot currentTime horizon interval positive operations
  have ascending : Ascending checkpoints := history.checkpoints.ascending
  have stored {stop : ContimeKey} (member : stop ∈ history.checkpoints.keys)
      : ∃ checkpoint ∈ checkpoints, checkpoint.1 = stop :=
    List.mem_map.mp member
  refine ⟨?_, ?_, ?_, ?_, ?_⟩
  · intro front first second back split
    refine spaced.between (fun stop member => ?_)
    obtain ⟨checkpoint, found, rfl⟩ := stored member
    rw [split] at ascending found
    rcases List.mem_append.mp found with before | behind
    · exact Or.inl (ascending.around.1 checkpoint before).le
    rw [← List.singleton_append, ← List.append_assoc] at ascending
    rcases List.mem_cons.mp behind with rfl | behind
    · exact Or.inl le_rfl
    rcases List.mem_cons.mp behind with rfl | behind
    · exact Or.inr le_rfl
    · exact Or.inr (ascending.around.2 checkpoint behind).le
  · intro first head
    obtain ⟨rest, split⟩ := List.head?_eq_some_iff.mp head
    refine spaced.before (fun stop member => ?_)
    obtain ⟨checkpoint, found, rfl⟩ := stored member
    rw [split] at ascending found
    rcases List.mem_cons.mp found with rfl | behind
    · exact le_rfl
    · exact ((List.pairwise_cons.mp ascending).1 checkpoint behind).le
  · intro last final
    obtain ⟨front, split⟩ := List.getLast?_eq_some_iff.mp final
    refine spaced.after (fun stop member => ?_)
    obtain ⟨checkpoint, found, rfl⟩ := stored member
    rw [split] at ascending found
    exact ascending.le_last found
  · intro none
    have few := spaced Set.univ Set.ordConnected_univ (by
      intro stop member
      obtain ⟨checkpoint, found, _⟩ := stored member
      rw [none] at found
      exact absurd found List.not_mem_nil)
    simpa [within] using few
  · intro time replayed range
    exact replay_short positive spaced time range

/-- A run with a late event, a snapshot behind all events and an advance. -/
theorem boundedReplay_snapshot_behind
    : let history : LocalSnapshotHistory TestSnapshot TestEvent :=
        (newWithInterval ⟨1, 0, [], 0⟩ 0 0 2 (by decide)).run
          [.applyEvent (.positive 1 4 0 1), .applyEvent (.positive 1 2 0 1),
            .applySnapshot ⟨1, 9, [], 100⟩, .advance 3, .applyEvent (.positive 1 5 0 1)]
      (∀ last ∈ history.checkpoints.entries.getLast?,
          (above last.1 history.events.entries).length < 2)
      ∧ history.checkpoints.keys = [⟨4, 0⟩, ⟨5, 0⟩, ⟨9, 1⟩] := by
  obtain ⟨_, _, last, _⟩ :=
    boundedReplay (⟨1, 0, [], 0⟩ : TestSnapshot) 0 0 2 (by decide)
      [.applyEvent (TestEvent.positive 1 4 0 1), .applyEvent (.positive 1 2 0 1),
        .applySnapshot ⟨1, 9, [], 100⟩, .advance 3, .applyEvent (.positive 1 5 0 1)]
  exact ⟨last, by decide⟩

end LocalSnapshotHistory

end Contime
