import Contime.Abstract.Retention
import Contime.History.Probes
import Contime.History.Pruning

/-! Deliveries of pruned events. A history keeps what the retention of its deliveries keeps, and
its checkpoints still cover the lost events, so an event that comes again after it was pruned
counts a second time, or restores what was lost.
-/

open SortedEntries PeriodicReplay

namespace Contime

universe u v
variable {S : Type u} {E : Type v} [Event E] [Snapshot S E] [ApplyEvent E S]

namespace LocalSnapshotHistory
variable {history : LocalSnapshotHistory S E} {retention : Retention ContimeKey E}
  {key : ContimeKey} {event : E} {time : Time}

/-- The history stores the kept events, and its checkpoints are the marks of all events that
the retention still covers.
-/
structure Follows (history : LocalSnapshotHistory S E) (retention : Retention ContimeKey E)
    : Prop where
  formed : retention.WellFormed history.checkpointInterval
  keyed : ∀ entry ∈ retention.all, entry = Contime.keyed entry.2
  events : history.events = retention.kept
  checkpoints
    : history.checkpoints.entries
      = marks replayStep history.checkpointInterval 0 history.baseSnapshot retention.all

omit [Event E] [Snapshot S E] [ApplyEvent E S] in
/-- Checkpoints that lie behind the lost events pick a replay up among the stored ones. -/
theorem resume_of_lost_before {checkpoints : List (ContimeKey × S)} (base : S)
    {lost events : List (ContimeKey × E)} (some : checkpoints ≠ [])
    (before : ∀ checkpoint ∈ checkpoints, ∀ entry ∈ lost, entry.1 < checkpoint.1)
    : resume checkpoints base (lost ++ events) = resume checkpoints base events := by
  obtain ⟨front, last, shape⟩ := (List.eq_nil_or_concat checkpoints).resolve_left some
  rw [List.concat_eq_append] at shape
  have member : last ∈ checkpoints := by simp [shape]
  have none : above last.1 lost = [] :=
    above_eq_nil (fun entry old => (before last member entry old).le)
  rw [shape, resume_append_singleton, resume_append_singleton, above_append, none,
    List.nil_append]

/-- Every checkpoint lies at a stored event. -/
theorem Follows.checkpoint_stored (follows : history.Follows retention)
    : ∀ checkpoint ∈ history.checkpoints.entries,
        ∃ entry ∈ retention.kept.entries, entry.1 = checkpoint.1 := by
  intro checkpoint member
  rw [follows.checkpoints, Retention.all] at member
  exact mem_keys_of_mem_marks_append follows.formed.short member

/-- Every checkpoint lies behind all lost events. -/
theorem Follows.lost_before (follows : history.Follows retention)
    : ∀ checkpoint ∈ history.checkpoints.entries, ∀ entry ∈ retention.lost,
        entry.1 < checkpoint.1 := by
  intro checkpoint member entry old
  obtain ⟨stored, kept, same⟩ := follows.checkpoint_stored checkpoint member
  exact same ▸ (List.pairwise_append.mp follows.formed.ascending).2.2 entry old stored kept

/-- The checkpoints before a key are the marks of the events before it. -/
theorem Follows.below_checkpoints (follows : history.Follows retention) (key : ContimeKey)
    : below key history.checkpoints.entries
      = marks replayStep history.checkpointInterval 0 history.baseSnapshot
          (below key retention.all) := by
  rw [follows.checkpoints, below_marks follows.formed.ascending]

/-- A key is covered where a checkpoint lies before it. -/
theorem Follows.covers_iff (follows : history.Follows retention) {key : ContimeKey}
    : retention.Covers history.checkpointInterval key
      ↔ below key history.checkpoints.entries ≠ [] := by
  rw [follows.below_checkpoints, Ne, marks_eq_nil_iff history.intervalPositive, Nat.not_lt]
  exact Iff.rfl

/-- A query answers with the events that are visible at its key. -/
theorem Follows.snapshotAt (follows : history.Follows retention)
    (absent : history.queryKey time ∉ history.checkpoints.keys)
    : history.snapshotAt time
      = some
          (Snapshot.setTime
            (settledReplay history.checkpointInterval history.baseSnapshot
              (retention.visible history.checkpointInterval (history.queryKey time)))
            time) := by
  have ascending := follows.formed.ascending
  rw [snapshotAt_eq absent, answer, follows.events]
  by_cases covers : retention.Covers history.checkpointInterval (history.queryKey time)
  · have resumed
        : resume (below (history.queryKey time) history.checkpoints.entries)
            history.baseSnapshot retention.kept.entries
          = resume (below (history.queryKey time) history.checkpoints.entries)
            history.baseSnapshot retention.all :=
      (resume_of_lost_before _ (follows.covers_iff.mp covers) (fun checkpoint member =>
        follows.lost_before checkpoint (mem_below.mp member).1)).symm
    rw [resumed, follows.below_checkpoints, Retention.visible, if_pos covers,
      replay_resume_marks history.intervalPositive _ _ ascending]
  · have none : below (history.queryKey time) history.checkpoints.entries = [] := by
      by_contra some
      exact covers (follows.covers_iff.mpr some)
    have few : (below (history.queryKey time) retention.kept.entries).length
        < history.checkpointInterval := by
      have most : (below (history.queryKey time) retention.kept.entries).length
          ≤ (below (history.queryKey time) retention.all).length := by
        rw [Retention.all, below_append]
        exact (List.sublist_append_right _ _).length_le
      exact most.trans_lt (Nat.not_le.mp covers)
    rw [none, resume_nil, Retention.visible, if_neg covers, settledReplay_of_few few]

/-- A new history follows the empty retention. -/
theorem newWithInterval_follows (snapshot : S) (currentTime horizon : Time) (interval : Nat)
    (positive : 0 < interval)
    : (newWithInterval (E := E) snapshot currentTime horizon interval positive).Follows
        .empty where
  formed := Retention.empty_wellFormed positive
  keyed _ member := absurd member List.not_mem_nil
  events := rfl
  checkpoints := rfl

/-- The events behind the last checkpoint are too few for another one. -/
theorem Follows.resume_short (follows : history.Follows retention)
    : (resume history.checkpoints.entries history.baseSnapshot history.events.entries).2.length
      < history.checkpointInterval := by
  have positive := history.intervalPositive
  have whole : (resume history.checkpoints.entries history.baseSnapshot retention.all).2.length
      < history.checkpointInterval := by
    rw [follows.checkpoints, resume_marks_all positive _ follows.formed.ascending, length_pending]
    exact Nat.mod_lt _ positive
  by_cases none : history.checkpoints.entries = []
  · rw [none, resume_nil] at whole ⊢
    rw [follows.events]
    exact (List.sublist_append_right _ _).length_le.trans_lt whole
  · rw [follows.events]
    rwa [Retention.all, resume_of_lost_before _ none follows.lost_before] at whole

/-- A new event that comes last lies behind all checkpoints. -/
theorem Follows.checkpoints_before (follows : history.Follows retention)
    (fresh : ContimeKey.fromEvent event ∉ history.events.keys)
    (latest : above (ContimeKey.fromEvent event) history.events.entries = [])
    : ∀ checkpoint ∈ history.checkpoints.entries,
        checkpoint.1 < ContimeKey.fromEvent event := by
  intro checkpoint member
  obtain ⟨entry, kept, same⟩ := follows.checkpoint_stored checkpoint member
  rw [← follows.events] at kept
  refine lt_of_le_of_ne (same ▸ above_eq_nil_iff.mp latest entry kept) (fun own => fresh ?_)
  exact BTreeMap.mem_keys.mpr ⟨entry.2, own ▸ same ▸ kept⟩

/-- A new event marks all events anew from its key on. -/
theorem Follows.applyEvent_checkpoints (follows : history.Follows retention)
    (fresh : ContimeKey.fromEvent event ∉ history.events.keys)
    : (history.applyEvent event).1.checkpoints.entries
      = history.rebuilt (ContimeKey.fromEvent event)
          (history.applyEvent event).1.events.entries := by
  by_cases latest : above (ContimeKey.fromEvent event) history.events.entries = []
  · exact applyEvent_latest fresh latest (follows.checkpoints_before fresh latest)
      follows.resume_short
  · exact applyEvent_late fresh latest

/-- A delivered event is retained. -/
theorem Follows.applyEvent (follows : history.Follows retention) (event : E)
    : (history.applyEvent event).1.Follows
        (retention.deliver history.checkpointInterval (Contime.keyed event)) := by
  by_cases stored : ContimeKey.fromEvent event ∈ history.events.keys
  · have kept : (Contime.keyed event).1 ∈ retention.kept.keys := follows.events ▸ stored
    rw [(applyEvent_stored history event stored).1, Retention.deliver_stored kept]
    exact follows
  have fresh : (Contime.keyed event).1 ∉ retention.kept.keys := follows.events ▸ stored
  have formed := follows.formed.deliver (Contime.keyed event)
  have kept : (retention.deliver history.checkpointInterval (Contime.keyed event)).kept
      = retention.kept.insert (ContimeKey.fromEvent event) event :=
    Retention.deliver_kept fresh
  have lost : (retention.deliver history.checkpointInterval (Contime.keyed event)).lost
      = if retention.Covers history.checkpointInterval (Contime.keyed event).1
        then retention.lost
        else [] :=
    Retention.deliver_lost fresh
  have events : (history.applyEvent event).1.events
      = (retention.deliver history.checkpointInterval (Contime.keyed event)).kept := by
    rw [kept, ← follows.events]
    exact applyEvent_inserts stored
  refine ⟨formed, ?_, events, ?_⟩
  · intro entry member
    rcases List.mem_append.mp member with old | present
    · refine follows.keyed entry (List.mem_append_left _ ?_)
      rw [lost] at old
      split at old
      · exact old
      · cases old
    · rw [kept, BTreeMap.mem_insert] at present
      rcases present with rfl | ⟨other, _⟩
      · rfl
      · exact follows.keyed entry (List.mem_append_right _ other)
  · rw [follows.applyEvent_checkpoints stored, events]
    by_cases covers
      : retention.Covers history.checkpointInterval (Contime.keyed event).1
    · rw [if_pos covers] at lost
      have before : below (ContimeKey.fromEvent event) history.checkpoints.entries ≠ [] :=
        follows.covers_iff.mp covers
      have resumed
          : history.rebuilt (ContimeKey.fromEvent event)
              (retention.deliver history.checkpointInterval (Contime.keyed event)).kept.entries
            = history.rebuilt (ContimeKey.fromEvent event)
              (retention.deliver history.checkpointInterval (Contime.keyed event)).all := by
        rw [rebuilt, rebuilt, Retention.all, lost, resume_of_lost_before _ before]
        exact fun checkpoint member =>
          follows.lost_before checkpoint (mem_below.mp member).1
      rw [resumed]
      refine rebuilt_of_marks formed.ascending ?_
      rw [follows.below_checkpoints, Retention.all, Retention.all, lost, kept, below_append,
        below_append, retention.kept.below_insert_of_le le_rfl]
    · rw [if_neg covers] at lost
      have none : below (ContimeKey.fromEvent event) history.checkpoints.entries = [] := by
        by_contra some
        exact covers (follows.covers_iff.mpr some)
      rw [rebuilt, none, resume_nil, List.nil_append, Retention.all, lost, List.nil_append]
      rfl

/-- An advance promotes the marks of what it drops into the base and keeps those behind, which
are the marks of the rest over that base.
-/
theorem Follows.advance_checkpoints_entries (follows : history.Follows retention) (step : Time)
    {front : List (ContimeKey × E)}
    (cut : retention.lost ++ below (history.dropKey step) retention.kept.entries = front)
    : (history.advance step).1.checkpoints.entries
      = marks replayStep history.checkpointInterval 0 (history.advance step).1.baseSnapshot
          (pending history.checkpointInterval front
            ++ atLeast (history.dropKey step) retention.kept.entries) := by
  have positive := history.intervalPositive
  have short := follows.formed.short
  have whole : front ++ atLeast (history.dropKey step) retention.kept.entries = retention.all :=
    cut ▸ retention.all_eq_cut (history.dropKey step)
  have few : (pending history.checkpointInterval front).length < history.checkpointInterval := by
    rw [length_pending]
    exact Nat.mod_lt _ positive
  have split := follows.checkpoints
  rw [← whole, marks_resume positive] at split
  have dropped : ∀ mark ∈ marks replayStep history.checkpointInterval 0 history.baseSnapshot
      front, mark.1 < history.dropKey step := by
    intro mark member
    rw [← cut] at member
    obtain ⟨entry, old, same⟩ := mem_keys_of_mem_marks_append short member
    exact same ▸ (mem_below.mp old).2
  have retained : ∀ mark ∈ marks replayStep history.checkpointInterval 0
      (replay replayStep history.baseSnapshot (settled history.checkpointInterval front))
      (pending history.checkpointInterval front
        ++ atLeast (history.dropKey step) retention.kept.entries),
      history.dropKey step ≤ mark.1 := by
    intro mark member
    obtain ⟨entry, late, same⟩ := mem_keys_of_mem_marks_append few member
    exact same ▸ (mem_atLeast.mp late).2
  have base : (history.advance step).1.baseSnapshot
      = replay replayStep history.baseSnapshot (settled history.checkpointInterval front) := by
    have ascending : Ascending front := by
      have all := follows.formed.ascending
      rw [← whole] at all
      exact all.sublist (List.sublist_append_left _ _)
    rw [advance_baseSnapshot, promoted, split, below_append, below_of_forall dropped,
      below_eq_nil retained, List.append_nil, resume_fst _ _ _ front,
      resume_marks_all positive _ ascending]
  rw [advance_checkpoints, split, base, atLeast_append, atLeast_eq_nil dropped,
    atLeast_of_forall retained, List.nil_append]

/-- An advance prunes what is retained. -/
theorem Follows.advance (follows : history.Follows retention) (step : Time)
    : (history.advance step).1.Follows
        (retention.prune history.checkpointInterval (history.dropKey step)) := by
  have positive := history.intervalPositive
  obtain ⟨front, cut⟩ : ∃ front,
      retention.lost ++ below (history.dropKey step) retention.kept.entries = front := ⟨_, rfl⟩
  have whole : front ++ atLeast (history.dropKey step) retention.kept.entries = retention.all :=
    cut ▸ retention.all_eq_cut (history.dropKey step)
  have checkpoints := follows.advance_checkpoints_entries step cut
  refine ⟨follows.formed.prune _, ?_, ?_, ?_⟩
  · intro entry member
    refine follows.keyed entry ?_
    rcases List.mem_append.mp member with old | present
    · rw [Retention.prune, cut] at old
      dsimp only at old
      split at old
      · rw [← whole]
        exact List.mem_append_left _ (List.mem_of_mem_drop old)
      · cases old
    · exact List.mem_append_right _ (mem_atLeast.mp present).1
  · exact BTreeMap.ext_entries (by rw [advance_events, follows.events]; rfl)
  · rw [checkpoints]
    by_cases long
      : history.checkpointInterval
        ≤ (pending history.checkpointInterval front
            ++ atLeast (history.dropKey step) retention.kept.entries).length
    · have lost : (retention.prune history.checkpointInterval (history.dropKey step)).lost
          = pending history.checkpointInterval front := by
        rw [Retention.prune, cut]
        exact if_pos long
      rw [Retention.all, lost]
      rfl
    · have lost : (retention.prune history.checkpointInterval (history.dropKey step)).lost
          = [] := by
        rw [Retention.prune, cut]
        exact if_neg long
      have fewer := (List.sublist_append_right (pending history.checkpointInterval front)
        (atLeast (history.dropKey step) retention.kept.entries)).length_le
      rw [Retention.all, lost, List.nil_append,
        (marks_eq_nil_iff positive).mpr (Nat.not_le.mp long)]
      exact ((marks_eq_nil_iff positive).mpr (fewer.trans_lt (Nat.not_le.mp long))).symm

-----------------------------------------------------------------------------------------
-- What a delivery changes
-----------------------------------------------------------------------------------------

/-- A checkpoint at the query's own key makes the query panic. -/
theorem Follows.snapshotAt_panics (follows : history.Follows retention)
    (present : history.queryKey time ∈ history.checkpoints.keys)
    : history.snapshotAt time = none := by
  refine LocalSnapshotHistory.snapshotAt_panics (fun empty => ?_) present
  obtain ⟨value, member⟩ := BTreeMap.mem_keys.mp present
  obtain ⟨entry, kept, _⟩ := follows.checkpoint_stored _ member
  rw [← follows.events, empty] at kept
  cases kept

/-- Where an event adds no checkpoint at the query's key and nothing visible before it, the
query answers as before it.
-/
theorem Follows.snapshotAt_applyEvent (follows : history.Follows retention)
    (present
      : history.queryKey time ∈ (history.applyEvent event).1.checkpoints.keys
        ↔ history.queryKey time ∈ history.checkpoints.keys)
    (visible
      : (retention.deliver history.checkpointInterval (Contime.keyed event)).visible
            history.checkpointInterval (history.queryKey time)
        = retention.visible history.checkpointInterval (history.queryKey time))
    : (history.applyEvent event).1.snapshotAt time = history.snapshotAt time := by
  have next := follows.applyEvent event
  by_cases stops : history.queryKey time ∈ history.checkpoints.keys
  · rw [follows.snapshotAt_panics stops, next.snapshotAt_panics (present.mpr stops)]
  · rw [follows.snapshotAt stops, next.snapshotAt (present.not.mpr stops)]
    have key : (history.applyEvent event).1.queryKey time = history.queryKey time := rfl
    rw [applyEvent_checkpointInterval, applyEvent_baseSnapshot, key, visible]

/-- A query before an event does not see it. -/
theorem Follows.snapshotAt_of_before (follows : history.Follows retention)
    (before : history.queryKey time < ContimeKey.fromEvent event)
    : (history.applyEvent event).1.snapshotAt time = history.snapshotAt time := by
  by_cases stored : ContimeKey.fromEvent event ∈ history.events.keys
  · rw [(applyEvent_stored history event stored).1]
  have fresh : (Contime.keyed event).1 ∉ retention.kept.keys := follows.events ▸ stored
  have early : below (ContimeKey.fromEvent event) (history.applyEvent event).1.checkpoints.entries
      = below (ContimeKey.fromEvent event) history.checkpoints.entries := by
    rw [(follows.applyEvent event).below_checkpoints, follows.below_checkpoints]
    by_cases covers : retention.Covers history.checkpointInterval (ContimeKey.fromEvent event)
    · have same := Retention.below_all_deliver_of_covers fresh covers
      exact congrArg _ same
    · have few := Retention.below_all_deliver_lt fresh covers
      rw [(marks_eq_nil_iff history.intervalPositive).mpr (Nat.not_le.mp covers)]
      exact (marks_eq_nil_iff history.intervalPositive).mpr few
  refine follows.snapshotAt_applyEvent ?_ (Retention.visible_deliver_of_le fresh before.le)
  have at_key (value : S)
      : (history.queryKey time, value) ∈ (history.applyEvent event).1.checkpoints.entries
        ↔ (history.queryKey time, value) ∈ history.checkpoints.entries := by
    have both := congrArg ((history.queryKey time, value) ∈ ·) early
    simpa [before] using both
  rw [BTreeMap.mem_keys, BTreeMap.mem_keys]
  exact exists_congr at_key

/-- The delivery of the only lost event, where a checkpoint covers it, changes nothing. -/
theorem Follows.snapshotAt_of_sole (follows : history.Follows retention)
    (sole : retention.lost = [Contime.keyed event])
    (covers : retention.Covers history.checkpointInterval (history.queryKey time))
    : (history.applyEvent event).1.snapshotAt time = history.snapshotAt time := by
  obtain ⟨fresh, lost, kept⟩ := Retention.deliver_sole follows.formed sole
  have all : (retention.deliver history.checkpointInterval (Contime.keyed event)).all
      = retention.all := by
    rw [Retention.all, lost, kept, List.nil_append]
  have checkpoints : (history.applyEvent event).1.checkpoints.entries
      = history.checkpoints.entries := by
    rw [(follows.applyEvent event).checkpoints, follows.checkpoints, all]
    rfl
  refine follows.snapshotAt_applyEvent ?_ ?_
  · rw [BTreeMap.keys, BTreeMap.keys, checkpoints]
  · have still : (retention.deliver history.checkpointInterval (Contime.keyed event)).Covers
        history.checkpointInterval (history.queryKey time) := by
      rw [Retention.Covers, all]
      exact covers
    rw [Retention.visible, Retention.visible, if_pos covers, if_pos still, all]

end LocalSnapshotHistory

-----------------------------------------------------------------------------------------
-- Runs of events and advances
-----------------------------------------------------------------------------------------

/-- A call that feeds or prunes a history. -/
inductive Feed (E : Type v) where
  | applyEvent (event : E)
  | advance (time : Time)

namespace Feed

def operation : Feed E → Operation S E
  | .applyEvent event => .applyEvent event
  | .advance time => .advance time

omit [Snapshot S E] [ApplyEvent E S] in
/-- The clock and what is retained after one call. -/
def retain (interval : Nat) (horizon : Time) (state : Time × Retention ContimeKey E)
    : Feed E → Time × Retention ContimeKey E
  | .applyEvent event => (state.1, state.2.deliver interval (keyed event))
  | .advance time =>
      (state.1 + time, state.2.prune interval ⟨state.1 + time - horizon, 0⟩)

/-- What a run of calls retains. -/
def retained (interval : Nat) (currentTime horizon : Time) (feeds : List (Feed E))
    : Retention ContimeKey E :=
  (feeds.foldl (retain interval horizon) (currentTime, .empty)).2

end Feed

namespace LocalSnapshotHistory
variable {history : LocalSnapshotHistory S E} {retention : Retention ContimeKey E}

/-- Every run keeps a history in step with what is retained. -/
theorem Follows.run (follows : history.Follows retention) (feeds : List (Feed E))
    : (history.run (feeds.map Feed.operation)).Follows
        (feeds.foldl (Feed.retain history.checkpointInterval history.lowerTimeHorizonDelta)
          (history.currentTime, retention)).2 := by
  induction feeds generalizing history retention with
  | nil => exact follows
  | cons feed rest ih =>
      cases feed with
      | applyEvent event => exact ih (follows.applyEvent event)
      | advance time => exact ih (follows.advance time)

/-- A run of a new history retains what its calls retain. -/
theorem run_follows (snapshot : S) (currentTime horizon : Time) (interval : Nat)
    (positive : 0 < interval) (feeds : List (Feed E))
    : ((newWithInterval snapshot currentTime horizon interval positive).run
        (feeds.map Feed.operation)).Follows
        (Feed.retained interval currentTime horizon feeds) :=
  (newWithInterval_follows snapshot currentTime horizon interval positive).run feeds

/-- What calls keep was kept before them or delivered by one of them. -/
theorem mem_foldl_retain {interval : Nat} {horizon : Time} {entry : ContimeKey × E}
    (state : Time × Retention ContimeKey E) (feeds : List (Feed E))
    (member : entry ∈ (feeds.foldl (Feed.retain interval horizon) state).2.kept.entries)
    : entry ∈ state.2.kept.entries ∨ Feed.applyEvent entry.2 ∈ feeds := by
  induction feeds generalizing state with
  | nil => exact Or.inl member
  | cons feed rest ih =>
      rcases ih _ member with before | later
      · cases feed with
        | applyEvent event =>
            by_cases stored : (keyed event).1 ∈ state.2.kept.keys
            · rw [Feed.retain, Retention.deliver_stored stored] at before
              exact Or.inl before
            · rw [Feed.retain, Retention.deliver_kept stored, BTreeMap.mem_insert] at before
              rcases before with rfl | ⟨older, _⟩
              · exact Or.inr (.head _)
              · exact Or.inl older
        | advance time => exact Or.inl (mem_atLeast.mp before).1
      · exact Or.inr (.tail _ later)

/-- No checkpoint lies at a key that no delivered event has. -/
theorem Follows.absent {interval : Nat} {currentTime horizon : Time} {feeds : List (Feed E)}
    (follows : history.Follows (Feed.retained interval currentTime horizon feeds))
    {key : ContimeKey}
    (free : ∀ delivered, .applyEvent delivered ∈ feeds → ContimeKey.fromEvent delivered ≠ key)
    : key ∉ history.checkpoints.keys := by
  intro present
  obtain ⟨value, member⟩ := BTreeMap.mem_keys.mp present
  obtain ⟨entry, kept, same⟩ := follows.checkpoint_stored _ member
  have own := follows.keyed entry (List.mem_append_right _ kept)
  have delivered : Feed.applyEvent entry.2 ∈ feeds :=
    (mem_foldl_retain _ feeds kept).resolve_left List.not_mem_nil
  refine free entry.2 delivered (Eq.trans ?_ same)
  exact (congrArg Prod.fst own).symm

/-- A history that sums weights answers with the sum of what is visible. -/
theorem Follows.total_snapshotAt {weight : E → Nat}
    {history : LocalSnapshotHistory (Weighed.{u} weight) E}
    (follows : history.Follows retention)
    (absent : history.queryKey time ∉ history.checkpoints.keys)
    : (history.snapshotAt time).map Weighed.total
      = some
          (history.baseSnapshot.total
            + ((retention.visible history.checkpointInterval (history.queryKey time)).map
                (fun entry => weight entry.2)).sum) := by
  rw [follows.snapshotAt absent]
  exact congrArg some (Weighed.total_answer ..)

/-- An unchanged answer has an unchanged sum of weights. -/
theorem Follows.same_weights {weight : E → Nat}
    {history : LocalSnapshotHistory (Weighed.{u} weight) E}
    (follows : history.Follows retention)
    (absent : history.queryKey time ∉ history.checkpoints.keys)
    (absentNext : history.queryKey time ∉ (history.applyEvent event).1.checkpoints.keys)
    (unchanged : (history.applyEvent event).1.snapshotAt time = history.snapshotAt time)
    : (((retention.deliver history.checkpointInterval (Contime.keyed event)).visible
            history.checkpointInterval (history.queryKey time)).map
          (fun other => weight other.2)).sum
      = ((retention.visible history.checkpointInterval (history.queryKey time)).map
          (fun other => weight other.2)).sum := by
  have before := follows.total_snapshotAt absent
  have after := (follows.applyEvent event).total_snapshotAt absentNext
  rw [unchanged, before] at after
  exact (Nat.add_left_cancel (Option.some.inj after)).symm

/-- In every model of snapshots, a delivery of the event leaves the answer as it is. -/
def Harmless (snapshotId : SnapshotId) (currentTime horizon : Time) (interval : Nat)
    (positive : 0 < interval) (feeds : List (Feed E)) (event : E) (time : Time)
    : Prop :=
  ∀ (S : Type u) [Snapshot S E] [ApplyEvent E S] (snapshot : S),
    Snapshot.id snapshot = snapshotId
    → let history :=
        (newWithInterval snapshot currentTime horizon interval positive).run
          (feeds.map Feed.operation)
      (history.applyEvent event).1.snapshotAt time = history.snapshotAt time

/-- A harmless delivery changes no sum of weights over what a query sees. -/
theorem Harmless.same_weights {snapshotId : SnapshotId} {currentTime horizon : Time}
    {interval : Nat} {positive : 0 < interval} {feeds : List (Feed E)}
    (harmless : Harmless.{u} snapshotId currentTime horizon interval positive feeds event time)
    (free : ∀ delivered, .applyEvent delivered ∈ feeds ++ [.applyEvent event]
      → ContimeKey.fromEvent delivered ≠ ⟨time, snapshotId⟩)
    (weight : E → Nat)
    : let retention := Feed.retained interval currentTime horizon feeds
      (((retention.deliver interval (Contime.keyed event)).visible interval
            ⟨time, snapshotId⟩).map (fun other => weight other.2)).sum
        = ((retention.visible interval ⟨time, snapshotId⟩).map
            (fun other => weight other.2)).sum := by
  obtain ⟨start, id⟩ : ∃ start : Weighed.{u} weight, Snapshot.id start = snapshotId :=
    ⟨⟨snapshotId, 0, 0⟩, rfl⟩
  have unchanged := harmless (Weighed.{u} weight) start id
  have follows := run_follows start currentTime horizon interval positive feeds
  have next := run_follows start currentTime horizon interval positive
    (feeds ++ [.applyEvent event])
  have steady := run_checkpointInterval
    (newWithInterval start currentTime horizon interval positive) (feeds.map Feed.operation)
  have key
      : ((newWithInterval start currentTime horizon interval positive).run
          (feeds.map Feed.operation)).queryKey time
        = ⟨time, snapshotId⟩ :=
    congrArg (ContimeKey.mk time) ((run_snapshotId _ _).trans id)
  rw [List.map_append, LocalSnapshotHistory.run, Transducer.final_append] at next
  have same := follows.same_weights ?_ ?_ unchanged
  · rw [steady, key] at same
    exact same
  · rw [key]
    exact follows.absent (fun delivered member => free delivered (by simp [member]))
  · rw [key]
    exact next.absent free

/-- After any run, a delivery of an event changes no answer if the event is still stored, if the
query lies before it, or if it is the only lost event and a checkpoint before the query covers it.
Where no event lies at the query's key, it changes the answer of some model in every other case.
Witness for those cases: the model that weighs its events. By induction over the run, a history
follows what is kept and lost.
-/
theorem redelivery_harmless_iff (snapshotId : SnapshotId) (currentTime horizon : Time)
    (interval : Nat) (positive : 0 < interval) (feeds : List (Feed E)) (event : E) (time : Time)
    : let retention := Feed.retained interval currentTime horizon feeds
      let query : ContimeKey := ⟨time, snapshotId⟩
      let safe :=
        ContimeKey.fromEvent event ∈ retention.kept.keys
        ∨ query < ContimeKey.fromEvent event
        ∨ (retention.lost = [keyed event] ∧ retention.Covers interval query)
      (safe → Harmless.{u} snapshotId currentTime horizon interval positive feeds event time)
      ∧ ((∀ delivered, .applyEvent delivered ∈ feeds ++ [.applyEvent event]
            → ContimeKey.fromEvent delivered ≠ query)
        → Harmless.{u} snapshotId currentTime horizon interval positive feeds event time
        → safe) := by
  intro retention query safe
  constructor
  · intro holds S _ _ snapshot id history
    have follows : history.Follows retention :=
      run_follows snapshot currentTime horizon interval positive feeds
    have steady : history.checkpointInterval = interval := run_checkpointInterval ..
    have key : history.queryKey time = query :=
      congrArg (ContimeKey.mk time) ((run_snapshotId _ _).trans id)
    rcases holds with stored | before | ⟨sole, covers⟩
    · rw [← follows.events] at stored
      rw [(applyEvent_stored history event stored).1]
    · exact follows.snapshotAt_of_before (key ▸ before)
    · exact follows.snapshotAt_of_sole sole (by rw [steady, key]; exact covers)
  · intro free harmless
    by_contra harmful
    obtain ⟨fresh, reached, several⟩ : (keyed event).1 ∉ retention.kept.keys
        ∧ ¬ query < ContimeKey.fromEvent event
        ∧ ¬ (retention.lost = [keyed event] ∧ retention.Covers interval query) := by
      exact ⟨fun stored => harmful (Or.inl stored), fun behind => harmful (Or.inr (Or.inl behind)),
        fun sole => harmful (Or.inr (Or.inr sole))⟩
    have before : (keyed event).1 < query :=
      lt_of_le_of_ne (not_lt.mp reached) (free event (by simp))
    have follows := run_follows (S := Weighed.{u} (fun _ : E => 0)) ⟨snapshotId, 0, 0⟩ currentTime
      horizon interval positive feeds
    have formed := follows.formed
    rw [run_checkpointInterval] at formed
    obtain ⟨covers, old, sole⟩ :=
      Retention.sole_of_same_weights formed fresh before (harmless.same_weights free)
    have listed : (old, event) ∈ retention.lost := by
      rw [sole]
      exact List.mem_singleton_self _
    have own : (old, event) = keyed event :=
      follows.keyed (old, event) (List.mem_append_left retention.kept.entries listed)
    exact several ⟨sole.trans (congrArg (fun entry => [entry]) own), covers⟩

/-- An event that is still stored when it comes again. -/
theorem redelivery_harmless_iff_stored
    : let feeds : List (Feed TestEvent) :=
        [.applyEvent (.positive 1 10 1 3), .applyEvent (.positive 1 30 2 5), .advance 20]
      let history : LocalSnapshotHistory TestSnapshot TestEvent :=
        (newWithInterval ⟨1, 0, [], 0⟩ 0 0 2 (by decide)).run (feeds.map Feed.operation)
      (history.applyEvent (.positive 1 30 2 5)).1.snapshotAt 40 = history.snapshotAt 40 := by
  intro feeds history
  have stored : ContimeKey.fromEvent (TestEvent.positive 1 30 2 5)
      ∈ (Feed.retained 2 0 0 feeds).kept.keys := by decide
  have harmless : Harmless 1 0 0 2 (by decide) feeds (.positive 1 30 2 5) 40 :=
    (redelivery_harmless_iff 1 0 0 2 (by decide) feeds (.positive 1 30 2 5) 40).1
      (Or.inl stored)
  exact harmless TestSnapshot ⟨1, 0, [], 0⟩ rfl

/-- A pruned event that comes again is restored where it was lost, and counted twice where the
base covers it.
-/
theorem redelivery_of_pruned_counts
    : let event : TestEvent := .positive 1 10 1 3
      let history (interval : Nat) (positive : 0 < interval)
          : LocalSnapshotHistory TestSnapshot TestEvent :=
        (newWithInterval ⟨1, 0, [], 0⟩ 0 0 interval positive).run [.applyEvent event, .advance 100]
      let lost := history CHECKPOINT_INTERVAL (by decide)
      let covered := history 1 (by decide)
      lost.dropTime 0 = 100 ∧ covered.dropTime 0 = 100
      ∧ lost.snapshotAt 200 = some ⟨1, 200, [], 0⟩
      ∧ (lost.applyEvent event).1.snapshotAt 200 = some ⟨1, 200, [3], 3⟩
      ∧ covered.snapshotAt 200 = some ⟨1, 200, [3], 3⟩
      ∧ (covered.applyEvent event).1.snapshotAt 200 = some ⟨1, 200, [3, 3], 6⟩ := by
  decide

end LocalSnapshotHistory

end Contime
