import Contime.History.Queries
import Contime.Model.TestFixtures

/-! What pruning keeps. The base moves to the last dropped checkpoint, so exactly the dropped
events behind that checkpoint are lost to later queries.
-/

open SortedEntries PeriodicReplay

namespace Contime

universe u v
variable {S : Type u} {E : Type v} [Event E] [Snapshot S E] [ApplyEvent E S]

namespace LocalSnapshotHistory
variable {history : LocalSnapshotHistory S E} {key : ContimeKey} {time step : Time}

/-- Every checkpoint lies at a stored event. -/
def CheckpointsAtEvents (history : LocalSnapshotHistory S E) : Prop :=
  ∀ key ∈ history.checkpoints.keys, key ∈ history.events.keys

/-- Events and pruning keep checkpoints at stored events. -/
theorem CheckpointsAtEvents.perform (anchored : history.CheckpointsAtEvents)
    {operation : Operation S E} (other : ∀ snapshot, operation ≠ .applySnapshot snapshot)
    : (history.perform operation).1.CheckpointsAtEvents := by
  intro key present
  cases operation with
  | applyEvent event =>
      rcases applyEvent_checkpoint_keys present with older | stored
      · rw [LocalSnapshotHistory.perform, applyEvent_events, BTreeMap.mem_keys_insertNew]
        exact Or.inr (anchored key older)
      · exact stored
  | applySnapshot snapshot => exact absurd rfl (other snapshot)
  | advance time =>
      obtain ⟨value, member⟩ := BTreeMap.mem_keys.mp present
      obtain ⟨older, kept⟩ := mem_atLeast.mp member
      obtain ⟨event, stored⟩ :=
        BTreeMap.mem_keys.mp (anchored key (BTreeMap.mem_keys.mpr ⟨value, older⟩))
      exact BTreeMap.mem_keys.mpr ⟨event, mem_atLeast.mpr ⟨stored, kept⟩⟩

/-- Every run of events and pruning keeps checkpoints at stored events. -/
theorem run_checkpointsAtEvents (snapshot : S) (currentTime horizon : Time) (interval : Nat)
    (positive : 0 < interval) {operations : List (Operation S E)}
    (others : ∀ snapshot, .applySnapshot snapshot ∉ operations)
    : ((newWithInterval snapshot currentTime horizon interval positive).run
        operations).CheckpointsAtEvents := by
  have kept (met : LocalSnapshotHistory S E) (operation : Operation S E)
      (other : ∀ snapshot, operation ≠ .applySnapshot snapshot)
      (anchored : met.CheckpointsAtEvents)
      : (met.perform operation).1.CheckpointsAtEvents :=
    anchored.perform other
  have allowed : ∀ operation ∈ operations, ∀ snapshot, operation ≠ .applySnapshot snapshot :=
    fun operation member snapshot same => others snapshot (same ▸ member)
  refine (Transducer.each_of_forall allowed).invariant kept ?_
  exact fun key present => absurd present List.not_mem_nil

/-- The key before which `advance` drops. -/
def dropKey (history : LocalSnapshotHistory S E) (step : Time) : ContimeKey where
  time := history.dropTime step
  id := 0

omit [Event E] [Snapshot S E] [ApplyEvent E S] in
/-- A query from the drop time on lies at or behind the drop key, whose id is the least. -/
theorem dropKey_le_queryKey (reached : history.dropTime step ≤ time)
    : history.dropKey step ≤ history.queryKey time := by
  rcases Int64.lt_or_eq_of_le reached with earlier | same
  · have before : history.dropKey step < history.queryKey time :=
      ContimeKey.lt_of_time_lt earlier
    exact before.le
  · exact Or.inr ⟨same, BitVec.le_def.mpr (Nat.zero_le _)⟩

omit [Event E] [Snapshot S E] [ApplyEvent E S] in
/-- The drop key is the least one of its time. -/
theorem dropKey_le_iff
    : history.dropKey step ≤ key ↔ (history.dropTime step).toInt ≤ key.time.toInt := by
  rw [ContimeKey.le_iff_toInt]
  have least : (0 : BitVec 128).toNat ≤ key.id.toNat := Nat.zero_le _
  simp only [dropKey]
  omega

/-- What `advance` promotes to the base, with the dropped events it does not cover. -/
def promoted (history : LocalSnapshotHistory S E) (step : Time) : S × List (ContimeKey × E) :=
  resume (below (history.dropKey step) history.checkpoints.entries) history.baseSnapshot
    (below (history.dropKey step) history.events.entries)

omit [ApplyEvent E S] in
theorem advance_baseSnapshot
    : (history.advance step).1.baseSnapshot = (history.promoted step).1 := by
  rw [promoted, resume]
  simp only [advance, BTreeMap.splitOff, dropKey]
  split <;> simp_all

omit [ApplyEvent E S] in
theorem advance_events
    : (history.advance step).1.events.entries
      = atLeast (history.dropKey step) history.events.entries := rfl

omit [ApplyEvent E S] in
theorem advance_checkpoints
    : (history.advance step).1.checkpoints.entries
      = atLeast (history.dropKey step) history.checkpoints.entries := rfl

omit [ApplyEvent E S] in
/-- Pruning keeps the events from the drop time on. -/
theorem mem_advance_events {entry : ContimeKey × E}
    : entry ∈ (history.advance step).1.events.entries
      ↔ entry ∈ history.events.entries
        ∧ (history.dropTime step).toInt ≤ entry.1.time.toInt := by
  rw [advance_events, mem_atLeast, dropKey_le_iff]

omit [ApplyEvent E S] in
/-- Pruning keeps the checkpoints from the drop time on. -/
theorem mem_advance_checkpoints {entry : ContimeKey × S}
    : entry ∈ (history.advance step).1.checkpoints.entries
      ↔ entry ∈ history.checkpoints.entries
        ∧ (history.dropTime step).toInt ≤ entry.1.time.toInt := by
  rw [advance_checkpoints, mem_atLeast, dropKey_le_iff]

omit [ApplyEvent E S] in
/-- Pruning adds no checkpoint. -/
theorem advance_checkpoint_absent (absent : key ∉ history.checkpoints.keys)
    : key ∉ (history.advance step).1.checkpoints.keys := by
  intro present
  obtain ⟨value, member⟩ := BTreeMap.mem_keys.mp present
  exact absent (BTreeMap.mem_keys.mpr ⟨value, (mem_atLeast.mp member).1⟩)

/-- Without a retained checkpoint before it, a query answers before the drop with the
promoted state, the uncovered dropped events and the retained ones; after the drop the
uncovered dropped events are missing.
-/
theorem advance_snapshotAt_of_uncovered
    (absent : history.queryKey time ∉ history.checkpoints.keys)
    (reached : history.dropKey step ≤ history.queryKey time)
    (uncovered
      : below (history.queryKey time)
          (atLeast (history.dropKey step) history.checkpoints.entries)
        = [])
    : let retained :=
        below (history.queryKey time) (atLeast (history.dropKey step) history.events.entries)
      history.snapshotAt time
        = some
            (Snapshot.setTime
              (replay queryStep (history.promoted step).1
                ((history.promoted step).2 ++ retained))
              time)
      ∧ (history.advance step).1.snapshotAt time
        = some
            (Snapshot.setTime (replay queryStep (history.promoted step).1 retained) time) := by
  intro retained
  have split := history.events.ascending.below_append_atLeast (history.dropKey step)
  have before : below (history.queryKey time) history.checkpoints.entries
      = below (history.dropKey step) history.checkpoints.entries := by
    rw [history.checkpoints.ascending.below_eq_append reached, uncovered, List.append_nil]
  have resumed
      : resume (below (history.dropKey step) history.checkpoints.entries)
          history.baseSnapshot history.events.entries
        = ((history.promoted step).1,
            (history.promoted step).2
              ++ atLeast (history.dropKey step) history.events.entries) := by
    conv_lhs => rw [← split]
    refine resume_append _ _ (fun checkpoint dropped entry kept => ?_)
    exact (mem_below.mp dropped).2.trans_le (mem_atLeast.mp kept).2
  have early : below (history.queryKey time) (history.promoted step).2
      = (history.promoted step).2 :=
    below_of_forall (fun entry member =>
      (mem_below.mp (mem_of_mem_resume member)).2.trans_le reached)
  constructor
  · rw [snapshotAt_eq absent, answer, before, resumed, below_append, early]
  · rw [snapshotAt_eq (advance_checkpoint_absent absent)]
    have key : (history.advance step).1.queryKey time = history.queryKey time := rfl
    rw [answer, key, advance_checkpoints, uncovered, advance_baseSnapshot, advance_events,
      resume_nil]

/-- With a retained checkpoint before it, a query answers alike before and after the drop. -/
theorem advance_snapshotAt_of_covered
    (absent : history.queryKey time ∉ history.checkpoints.keys)
    (reached : history.dropKey step ≤ history.queryKey time)
    (covered
      : below (history.queryKey time)
          (atLeast (history.dropKey step) history.checkpoints.entries)
        ≠ [])
    : (history.advance step).1.snapshotAt time = history.snapshotAt time := by
  have key : (history.advance step).1.queryKey time = history.queryKey time := rfl
  obtain ⟨front, last, shape⟩ := (List.eq_nil_or_concat _).resolve_left covered
  rw [List.concat_eq_append] at shape
  have kept : history.dropKey step ≤ last.1 := by
    have member : last ∈ below (history.queryKey time)
        (atLeast (history.dropKey step) history.checkpoints.entries) := by
      simp [shape]
    exact (mem_atLeast.mp (mem_below.mp member).1).2
  rw [snapshotAt_eq absent, snapshotAt_eq (advance_checkpoint_absent absent), answer, answer,
    key, advance_checkpoints, advance_events,
    history.checkpoints.ascending.below_eq_append reached, shape, ← List.append_assoc,
    resume_append_singleton, resume_append_singleton, above_atLeast_of_le kept]

/-- Across an advance in any run of events and advances, a query from the drop time on keeps its
answer if a retained checkpoint lies before it or the promoted state covers all dropped events.
Otherwise it loses exactly the uncovered dropped events: its answer replayed them and the retained
events on the promoted state, and now replays only the retained ones. By cases on whether a
retained checkpoint lies before the query.
-/
theorem advance_answers (snapshot : S) (currentTime horizon : Time) (interval : Nat)
    (positive : 0 < interval) (operations : List (Operation S E))
    (others : ∀ snapshot, .applySnapshot snapshot ∉ operations) (step time : Time)
    : let history :=
        (newWithInterval snapshot currentTime horizon interval positive).run operations
      let next := (history.advance step).1
      let query : ContimeKey := ⟨time, Snapshot.id snapshot⟩
      let retained := below query next.events.entries
      let promoted := (history.promoted step).1
      let uncovered := (history.promoted step).2
      history.dropTime step ≤ time
      → query ∉ history.events.keys
      → (((∃ checkpoint ∈ next.checkpoints.entries, checkpoint.1 < query) ∨ uncovered = [])
          → next.snapshotAt time = history.snapshotAt time)
        ∧ ((∀ checkpoint ∈ next.checkpoints.entries, ¬ checkpoint.1 < query)
          → history.snapshotAt time
              = some
                  (Snapshot.setTime (replay queryStep promoted (uncovered ++ retained)) time)
            ∧ next.snapshotAt time
              = some (Snapshot.setTime (replay queryStep promoted retained) time)) := by
  intro history next query retained promoted uncovered reached absent
  have key : history.queryKey time = query := congrArg (ContimeKey.mk time) (run_snapshotId ..)
  have free : history.queryKey time ∉ history.checkpoints.keys := fun present =>
    absent (key ▸ run_checkpointsAtEvents snapshot currentTime horizon interval positive others
      _ present)
  have boundary := dropKey_le_queryKey reached
  have uncovered_iff
      : below (history.queryKey time)
            (atLeast (history.dropKey step) history.checkpoints.entries) = []
        ↔ ∀ checkpoint ∈ next.checkpoints.entries, ¬ checkpoint.1 < query := by
    rw [key, ← advance_checkpoints]
    simp [List.eq_nil_iff_forall_not_mem, next]
  have lost (none : ∀ checkpoint ∈ next.checkpoints.entries, ¬ checkpoint.1 < query)
      : history.snapshotAt time
          = some (Snapshot.setTime (replay queryStep promoted (uncovered ++ retained)) time)
        ∧ next.snapshotAt time
          = some (Snapshot.setTime (replay queryStep promoted retained) time) := by
    have answers := advance_snapshotAt_of_uncovered free boundary (uncovered_iff.mpr none)
    rwa [key] at answers
  refine ⟨fun kept => ?_, lost⟩
  by_cases none : ∀ checkpoint ∈ next.checkpoints.entries, ¬ checkpoint.1 < query
  · obtain ⟨before, after⟩ := lost none
    have covers : uncovered = [] := by
      refine kept.resolve_left ?_
      intro covered
      obtain ⟨checkpoint, member, earlier⟩ := covered
      exact none checkpoint member earlier
    rw [before, after, covers, List.nil_append]
  · exact advance_snapshotAt_of_covered free boundary (uncovered_iff.not.mpr none)

/-- A query behind a retained checkpoint. -/
theorem advance_answers_behind_checkpoint
    : let history : LocalSnapshotHistory TestSnapshot TestEvent :=
        (newWithInterval ⟨1, 0, [], 0⟩ 0 0 2 (by decide)).run
          [.applyEvent (.positive 1 10 0 1), .applyEvent (.positive 1 30 0 2)]
      (history.advance 20).1.snapshotAt 40 = history.snapshotAt 40 := by
  have answers :=
    advance_answers (⟨1, 0, [], 0⟩ : TestSnapshot) 0 0 2 (by decide)
      [.applyEvent (.positive 1 10 0 1), .applyEvent (.positive 1 30 0 2)] (by simp) 20 40
      (by decide) (by decide)
  exact answers.1 (Or.inl (by decide))

/-- An event dropped before the first checkpoint is missing from later answers. -/
theorem advance_loses_event
    : let history : LocalSnapshotHistory TestSnapshot TestEvent :=
        (newWithInterval ⟨1, 0, [], 0⟩ 0 0 CHECKPOINT_INTERVAL (by decide)).run
          [.applyEvent (.positive 1 1 0 3)]
      let next := (history.advance 100).1
      history.dropTime 100 ≤ 200
      ∧ history.snapshotAt 200 = some ⟨1, 200, [3], 3⟩
      ∧ next.snapshotAt 200 = some ⟨1, 200, [], 0⟩ := by
  decide

end LocalSnapshotHistory

end Contime
