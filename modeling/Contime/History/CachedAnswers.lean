import Contime.History.Notifications
import Contime.History.Pruning
import Contime.History.ReconciliationRanges
import Mathlib.Data.List.Infix

/-! Answers that a client keeps. An answer for a time earlier than the latest stored event changes
with no operation that is not announced at or before its time, so that a reader whose queue is empty
knows whether what it keeps still holds.
-/

open SortedEntries

namespace Contime

universe u v
variable {S : Type u} {E : Type v} [Event E] [Snapshot S E] [ApplyEvent E S]

namespace LocalSnapshotHistory
variable {history : LocalSnapshotHistory S E} {operation : Operation S E} {time : Time}

/-- Some stored event is later than the time. -/
def Passed (history : LocalSnapshotHistory S E) (time : Time) : Prop :=
  ∃ stored ∈ history.events.entries, time < stored.1.time

/-- An advance leaves a checkpoint before the query at the time. -/
def Retains (time : Time) (history : LocalSnapshotHistory S E) : Operation S E → Prop
  | .advance step =>
      ∃ checkpoint ∈ history.checkpoints.entries,
        checkpoint.1 < history.queryKey time
        ∧ history.dropTime step ≤ checkpoint.1.time
  | .applyEvent _ | .applySnapshot _ => True

/-- A history in which the answer at the time changes only with an announcement: no query panics
there and some event is later.
-/
structure Watched (history : LocalSnapshotHistory S E) (time : Time) : Prop where
  dense : history.Dense
  absent : history.queryKey time ∉ history.checkpoints.keys
  passed : history.Passed time

omit [Event E] in
/-- An update behind the query leaves the answer, and the history watched. -/
theorem Watched.of_localFrom {after : LocalSnapshotHistory S E} {key : ContimeKey}
    (watched : history.Watched time) (frame : LocalFrom key history after) (dense : after.Dense)
    (later : time < key.time)
    : after.Watched time ∧ after.snapshotAt time = history.snapshotAt time := by
  obtain ⟨entry, member, behind⟩ := watched.passed
  have kept : entry ∈ after.events.entries := frame.stored entry member
  have alike : after.events.isEmpty = history.events.isEmpty := by
    rw [Bool.eq_iff_iff, BTreeMap.isEmpty_iff, BTreeMap.isEmpty_iff]
    exact iff_of_false (List.ne_nil_of_mem kept) (List.ne_nil_of_mem member)
  have before : history.queryKey time < key := ContimeKey.lt_of_time_lt later
  have query : after.queryKey time = history.queryKey time :=
    congrArg (ContimeKey.mk time) frame.settings.snapshotId
  refine ⟨⟨dense, fun present => watched.absent ?_, entry, kept, behind⟩,
    frame.snapshotAt_eq alike before⟩
  rw [query] at present
  obtain ⟨checkpoint, found⟩ := BTreeMap.mem_keys.mp present
  have inside := mem_below.mpr ⟨found, before⟩
  rw [frame.checkpoints] at inside
  exact BTreeMap.mem_keys.mpr ⟨checkpoint, (mem_below.mp inside).1⟩

/-- An advance that retains a checkpoint before the query leaves the answer. -/
theorem Watched.advance (watched : history.Watched time) {step : Time}
    (retains : history.Retains time (.advance step))
    : (history.advance step).1.Watched time
      ∧ (history.advance step).1.snapshotAt time = history.snapshotAt time := by
  obtain ⟨checkpoint, member, before, kept⟩ := retains
  obtain ⟨entry, stored, behind⟩ := watched.passed
  have dropped : history.dropKey step ≤ checkpoint.1 :=
    dropKey_le_iff.mpr (Int64.le_iff_toInt_le.mp kept)
  have reached : history.dropKey step ≤ history.queryKey time := dropped.trans before.le
  have latest : history.queryKey time < entry.1 := ContimeKey.lt_of_time_lt behind
  have remains : entry ∈ (history.advance step).1.events.entries := by
    rw [advance_events]
    exact mem_atLeast.mpr ⟨stored, reached.trans latest.le⟩
  have covered : below (history.queryKey time)
      (atLeast (history.dropKey step) history.checkpoints.entries) ≠ [] :=
    List.ne_nil_of_mem (mem_below.mpr ⟨mem_atLeast.mpr ⟨member, dropped⟩, before⟩)
  constructor
  · exact ⟨watched.dense.advance step, advance_checkpoint_absent watched.absent, entry, remains,
      behind⟩
  · exact advance_snapshotAt_of_covered watched.absent reached covered

/-- An operation that announces nothing at or before the time leaves the answer there. -/
theorem Watched.perform (watched : history.Watched time)
    (retains : history.Retains time operation)
    (quiet
      : ∀ message, (history.perform operation).2.reconciliation = some message
        → time < message.fromTime)
    : (history.perform operation).1.Watched time
      ∧ (history.perform operation).1.snapshotAt time = history.snapshotAt time := by
  cases operation with
  | advance step => exact watched.advance retains
  | applyEvent event =>
      have frame := watched.dense.applyEvent_localFrom event
      refine watched.of_localFrom frame (watched.dense.applyEvent event) ?_
      by_contra early
      -- An event at or before the time is before the latest one, and so it is announced.
      obtain ⟨entry, member, behind⟩ := watched.passed
      have late : history.BehindLatest (.applyEvent event) :=
        ⟨entry, member, Int64.lt_of_le_of_lt (Int64.not_lt.mp early) behind⟩
      obtain ⟨latest, _, _, announced⟩ := announces_of_behindLatest late
      exact early (quiet _ announced)
  | applySnapshot snapshot =>
      by_cases matching : Snapshot.id snapshot = history.snapshotId
      · refine watched.of_localFrom (applySnapshot_localFrom history snapshot)
          (watched.dense.applySnapshot snapshot) ?_
        exact quiet _ (applySnapshot_reconciliation matching)
      · rw [LocalSnapshotHistory.perform, applySnapshot_other matching]
        exact ⟨watched, rfl⟩

end LocalSnapshotHistory

-----------------------------------------------------------------------------------------
-- Readers
-----------------------------------------------------------------------------------------

namespace ObservedHistory
variable {state : ObservedHistory S E} {observation : Observation S E} {time : Time}
  {steps : List (Observation S E)}

/-- An advance of the worker leaves a checkpoint before the query at the time. -/
def Retains (time : Time) (state : ObservedHistory S E) : Observation S E → Prop
  | .perform operation => state.history.Retains time operation
  | .query _ | .tryRecv _ => True

/-- The reader of an index has received, or can still take from the queue, all that was attempted
since its query, in order, and nothing else.
-/
def Follows (index : Nat) (since : Nat) (state : ObservedHistory S E) : Prop :=
  since ≤ state.attempted.length
  ∧ ∃ received,
      state.readers[index]? = some { since, received }
      ∧ received ++ state.channel.queue = state.attempted.drop since

theorem history_perform (operation : Operation S E)
    : (state.step (.perform operation)).1.history = (state.history.perform operation).1 := by
  rw [step]
  dsimp only
  split <;> rfl

/-- Readers leave the history alone. -/
theorem history_query (time : Time)
    : (state.step (.query time)).1.history = state.history := by
  rcases state.step_query time with ⟨_, same⟩ | ⟨_, added⟩
  · rw [same]
  · rw [added]

theorem history_tryRecv (index : Nat)
    : (state.step (.tryRecv index)).1.history = state.history := by
  rw [step]
  split
  next =>
    dsimp only
    split <;> rfl
  next => rfl

theorem dense_run (dense : state.history.Dense) (steps : List (Observation S E))
    : (state.run steps).history.Dense := by
  have kept (state : ObservedHistory S E) (observation : Observation S E)
      (dense : state.history.Dense)
      : (state.step observation).1.history.Dense := by
    cases observation with
    | perform operation =>
        rw [history_perform]
        exact dense.perform operation
    | query time =>
        rw [history_query]
        exact dense
    | tryRecv index =>
        rw [history_tryRecv]
        exact dense
  exact Transducer.final_invariant kept dense steps

/-- Attempts are never taken back. -/
theorem attempted_prefix_step (state : ObservedHistory S E) (observation : Observation S E)
    : state.attempted <+: (state.step observation).1.attempted := by
  cases observation with
  | perform operation =>
      obtain ⟨_, ⟨_, same⟩ | ⟨reconciliation, _, added⟩⟩ := state.step_perform operation
      · exact same ▸ List.prefix_rfl
      · exact added ▸ List.prefix_append state.attempted [reconciliation]
  | query time =>
      rcases state.step_query time with ⟨_, same⟩ | ⟨_, added⟩
      · exact same.symm ▸ List.prefix_rfl
      · exact added.symm ▸ List.prefix_rfl
  | tryRecv index =>
      rcases state.step_tryRecv index with ⟨_, same⟩ | ⟨_, _, _, _, _, same, _⟩
      · exact same.symm ▸ List.prefix_rfl
      · exact same.symm ▸ List.prefix_rfl

theorem attempted_prefix_run (state : ObservedHistory S E) (steps : List (Observation S E))
    : state.attempted <+: (state.run steps).attempted := by
  induction steps generalizing state with
  | nil => exact List.prefix_rfl
  | cons observation rest ih => exact (state.attempted_prefix_step observation).trans (ih _)

/-- A step that announces nothing at or before the time leaves the answer there. -/
theorem step_watched (watched : state.history.Watched time)
    (retains : state.Retains time observation)
    (quiet
      : ∀ message ∈ (state.step observation).1.attempted.drop state.attempted.length,
        time < message.fromTime)
    : (state.step observation).1.history.Watched time
      ∧ (state.step observation).1.history.snapshotAt time = state.history.snapshotAt time := by
  cases observation with
  | perform operation =>
      rw [history_perform]
      refine watched.perform retains (fun message announced => quiet message ?_)
      simp [step, announced]
  | query time =>
      rw [history_query]
      exact ⟨watched, rfl⟩
  | tryRecv index =>
      rw [history_tryRecv]
      exact ⟨watched, rfl⟩

/-- A run that announces nothing at or before the time leaves the answer there. -/
theorem run_keeps_answer (watched : state.history.Watched time)
    (retains : Transducer.Each step (Retains time) state steps)
    (quiet
      : ∀ message ∈ (state.run steps).attempted.drop state.attempted.length,
        time < message.fromTime)
    : (state.run steps).history.snapshotAt time = state.history.snapshotAt time := by
  induction steps generalizing state with
  | nil => rfl
  | cons observation rest ih =>
      have later : (state.step observation).1.attempted
          <+: (state.run (observation :: rest)).attempted :=
        attempted_prefix_run _ rest
      obtain ⟨next, same⟩ :=
        step_watched watched retains.1 (fun message new =>
          quiet message ((List.IsPrefix.drop later state.attempted.length).subset new))
      refine (ih next retains.2 (fun message new => quiet message ?_)).trans same
      have grown := (state.attempted_prefix_step observation).length_le
      exact List.drop_subset_drop_left _ grown new

/-- A reader goes on to follow the attempts while nobody else receives. -/
theorem Follows.step {index since : Nat} (follows : state.Follows index since)
    (sole : ∀ other, observation = .tryRecv other → other = index)
    (few : (state.step observation).1.attempted.length < since + RECONCILIATION_CAPACITY)
    : (state.step observation).1.Follows index since := by
  obtain ⟨inside, received, there, whole⟩ := follows
  cases observation with
  | perform operation =>
      obtain ⟨readers, ⟨channel, attempted⟩ | ⟨reconciliation, channel, attempted⟩⟩ :=
        state.step_perform operation
      · rw [Follows, readers, channel, attempted]
        exact ⟨inside, received, there, whole⟩
      · have length := congrArg List.length whole
        rw [attempted, List.length_append, List.length_singleton] at few
        rw [List.length_append, List.length_drop] at length
        have room : state.channel.queue.length < RECONCILIATION_CAPACITY := by omega
        rw [Follows, readers, channel, attempted, Channel.trySend_queue room]
        refine ⟨?_, received, there, ?_⟩
        · rw [List.length_append]
          exact inside.trans (Nat.le_add_right _ _)
        · rw [List.drop_append_of_le_length inside, ← whole, List.append_assoc]
  | query time =>
      rcases state.step_query time with ⟨_, same⟩ | ⟨_, added⟩
      · rw [same]
        exact ⟨inside, received, there, whole⟩
      · rw [added]
        have old := (List.getElem?_eq_some_iff.mp there).1
        exact ⟨inside, received, (List.getElem?_append_left old).trans there, whole⟩
  | tryRecv other =>
      obtain rfl := sole other rfl
      rcases state.step_tryRecv other with
        ⟨_, same⟩ | ⟨message, rest, _, front, queue, attempted, readers⟩
      · rw [same]
        exact ⟨inside, received, there, whole⟩
      · rw [Follows, readers, queue, attempted]
        refine ⟨inside, received ++ [message], ?_, ?_⟩
        · rw [List.getElem?_modify_eq, there]
          rfl
        · rw [← whole, front, List.append_assoc, List.singleton_append]

theorem Follows.run {index since : Nat} (follows : state.Follows index since)
    (sole : ∀ other, .tryRecv other ∈ steps → other = index)
    (few : (state.run steps).attempted.length < since + RECONCILIATION_CAPACITY)
    : (state.run steps).Follows index since := by
  induction steps generalizing state with
  | nil => exact follows
  | cons observation rest ih =>
      have next : (state.step observation).1.Follows index since := by
        refine follows.step (fun other own => sole other (own ▸ .head rest)) ?_
        have grown := (attempted_prefix_run (state.step observation).1 rest).length_le
        exact grown.trans_lt few
      exact ih next (fun other member => sole other (.tail _ member)) few

/-- An answer that a client got for a time earlier than the latest stored event holds as long as its
reader, once the queue is empty, has received no reconciliation from that time or before, whatever
was applied, pruned or queried in between, provided that nobody else receives and every advance
leaves a checkpoint before the query. By induction over the observations: what is not announced at
or before the time keeps the answer, and the reader follows the queue.
-/
theorem cached_answer_valid (base : S) (currentTime horizon : Time) (interval : Nat)
    (positive : 0 < interval) {past later : List (Observation S E)}
    {before after : ObservedHistory S E} {time : Time} {answer : S}
    (reached
      : (unobserved (.newWithInterval base currentTime horizon interval positive)).run past
        = before)
    (answered : before.history.snapshotAt time = some answer)
    (waiting : before.channel.queue = [])
    (passed : before.history.Passed time)
    (continued : before.run (.query time :: later) = after)
    (sole : ∀ other, .tryRecv other ∈ later → other = before.readers.length)
    (retains : Transducer.Each step (Retains time) before (.query time :: later))
    (few : after.attempted.length < before.attempted.length + RECONCILIATION_CAPACITY)
    (drained : after.channel.queue = [])
    (quiet
      : ∀ reader, after.readers[before.readers.length]? = some reader
        → ∀ message ∈ reader.received, time < message.fromTime)
    : after.history.snapshotAt time = some answer := by
  have dense : before.history.Dense := by
    rw [← reached]
    exact dense_run
      (LocalSnapshotHistory.newWithInterval_dense base currentTime horizon interval positive) past
  have absent : before.history.queryKey time ∉ before.history.checkpoints.keys := by
    intro present
    obtain ⟨entry, member, _⟩ := passed
    have panics := LocalSnapshotHistory.snapshotAt_panics (List.ne_nil_of_mem member) present
    rw [answered] at panics
    cases panics
  have watched : before.history.Watched time := ⟨dense, absent, passed⟩
  have opens : (before.step (.query time)).1
      = { before with readers := before.readers ++ [⟨before.attempted.length, []⟩] } := by
    rcases before.step_query time with ⟨fails, _⟩ | ⟨_, added⟩
    · rw [answered] at fails
      cases fails
    · exact added
  have follows : (before.step (.query time)).1.Follows before.readers.length
      before.attempted.length := by
    rw [opens]
    exact ⟨Nat.le_refl _, [], by simp, by simp [waiting]⟩
  have whole : after.Follows before.readers.length before.attempted.length := by
    rw [← continued] at few ⊢
    exact follows.run sole few
  obtain ⟨_, received, there, equal⟩ := whole
  rw [drained, List.append_nil] at equal
  rw [← answered, ← continued]
  refine run_keeps_answer watched retains (fun message new => quiet _ there message ?_)
  rw [continued, ← equal] at new
  exact new

/-- A late event behind the query is announced and an advance keeps the checkpoint before it. -/
theorem cached_answer_valid_late_event
    : let start : ObservedHistory TestSnapshot TestEvent :=
        unobserved (.newWithInterval ⟨1, 0, [], 0⟩ 0 0 1 (by decide))
      let before :=
        start.run [.perform (.applyEvent (.positive 1 3 10 1)),
          .perform (.applyEvent (.positive 1 8 11 1))]
      let later : List (Observation TestSnapshot TestEvent) :=
        [.perform (.applyEvent (.positive 1 7 12 1)), .perform (.advance 2), .tryRecv 0]
      (before.run (.query 6 :: later)).history.snapshotAt 6 = some ⟨1, 6, [1], 1⟩ := by
  intro start before later
  have passed : before.history.Passed 6 := ⟨(⟨8, 11⟩, .positive 1 8 11 1), by decide, by decide⟩
  have retains : Transducer.Each step (Retains 6) before (.query 6 :: later) := by
    refine ⟨trivial, trivial, ⟨(⟨3, 10⟩, ⟨1, 3, [1], 1⟩), ?_, ?_, ?_⟩, trivial, trivial⟩
    · decide
    · decide
    · decide
  have sole (other : Nat) (member : .tryRecv other ∈ later) : other = before.readers.length := by
    have first : before.readers.length = 0 := by decide
    rw [first]
    simpa [later] using member
  have received
      : (before.run (.query 6 :: later)).readers[before.readers.length]?
        = some ⟨0, [⟨1, 7, 8⟩]⟩ := by
    decide
  refine cached_answer_valid (⟨1, 0, [], 0⟩ : TestSnapshot) 0 0 1 (by decide) rfl (by decide)
    (by decide) passed rfl sole retains (by decide) (by decide) ?_
  intro reader there message member
  rw [received] at there
  obtain rfl := Option.some.inj there
  obtain rfl := List.mem_singleton.mp member
  decide

end ObservedHistory

end Contime
