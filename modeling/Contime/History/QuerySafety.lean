import Contime.History.Queries
import Contime.Model.TestFixtures

/-! When a query panics. A range call is malformed only for a checkpoint on the query's own
key, and checkpoints appear only under keys that some operation brought in.
-/

open SortedEntries PeriodicReplay

namespace Contime

universe u v
variable {S : Type u} {E : Type v} [Event E] [Snapshot S E]

/-- The key an operation may add to a history of the given id. -/
def Operation.key (snapshotId : SnapshotId) : Operation S E → Option ContimeKey
  | .applyEvent event => some (ContimeKey.fromEvent event)
  | .applySnapshot snapshot =>
      if Snapshot.id snapshot = snapshotId then some ⟨Snapshot.time snapshot, snapshotId⟩
      else none
  | .advance _ => none

/-- A run of events has no operation under a key that none of them has. -/
theorem Operation.key_ne_of_events {snapshotId : SnapshotId} {events : List E} {key : ContimeKey}
    (none : ∀ event ∈ events, ContimeKey.fromEvent event ≠ key) {operation : Operation S E}
    (member : operation ∈ events.map .applyEvent)
    : operation.key snapshotId ≠ some key := by
  obtain ⟨event, delivery, rfl⟩ := List.mem_map.mp member
  exact fun same => none event delivery (Option.some.inj same)

/-- Nor has one with a snapshot of another time in between. -/
theorem Operation.key_ne_of_snapshot {snapshotId : SnapshotId} {snapshot : S} {time : Time}
    (matching : Snapshot.id snapshot = snapshotId) (other : Snapshot.time snapshot ≠ time)
    {delivered later : List E}
    (none : ∀ event ∈ delivered ++ later, ContimeKey.fromEvent event ≠ ⟨time, snapshotId⟩)
    {operation : Operation S E}
    (member
      : operation
        ∈ delivered.map .applyEvent ++ .applySnapshot snapshot :: later.map .applyEvent)
    : operation.key snapshotId ≠ some ⟨time, snapshotId⟩ := by
  rcases List.mem_append.mp member with early | rest
  · exact key_ne_of_events (fun event found => none event (List.mem_append_left _ found)) early
  rcases List.mem_cons.mp rest with own | late
  · rw [own, Operation.key, if_pos matching]
    exact fun same => other (congrArg ContimeKey.time (Option.some.inj same))
  · exact key_ne_of_events (fun event found => none event (List.mem_append_right _ found)) late

namespace LocalSnapshotHistory
variable [ApplyEvent E S] {history : LocalSnapshotHistory S E}

/-- A key that some event or checkpoint is stored under. -/
def InUse (history : LocalSnapshotHistory S E) (key : ContimeKey) : Prop :=
  key ∈ history.events.keys ∨ key ∈ history.checkpoints.keys

/-- A key in use after an operation was in use before it or is the operation's own. -/
theorem inUse_perform {operation : Operation S E} {key : ContimeKey}
    (used : (history.perform operation).1.InUse key)
    : history.InUse key ∨ operation.key history.snapshotId = some key := by
  cases operation with
  | applyEvent event =>
      have stored : key ∈ (history.applyEvent event).1.events.keys
          ↔ key = ContimeKey.fromEvent event ∨ key ∈ history.events.keys := by
        rw [applyEvent_events, BTreeMap.mem_keys_insertNew]
      have checkpoint
          : key ∈ (history.applyEvent event).1.checkpoints.keys
            → key ∈ history.checkpoints.keys
              ∨ key ∈ (history.applyEvent event).1.events.keys :=
        applyEvent_checkpoint_keys
      simp only [perform, InUse, Operation.key, Option.some_inj, eq_comm] at used ⊢
      tauto
  | applySnapshot snapshot =>
      by_cases matching : Snapshot.id snapshot = history.snapshotId
      · simp only [perform, InUse, applySnapshot_events] at used
        refine used.elim (Or.inl ∘ Or.inl) (fun checkpoint => ?_)
        obtain ⟨value, member⟩ := BTreeMap.mem_keys.mp checkpoint
        rw [applySnapshot_checkpoints matching] at member
        rcases List.mem_append.mp member with older | newer
        · exact Or.inl (Or.inr (BTreeMap.mem_keys.mpr ⟨value, (mem_below.mp older).1⟩))
        rcases List.mem_cons.mp newer with same | marked
        · right
          rw [Operation.key, if_pos matching, (Prod.mk.inj same).1]
          rfl
        · obtain ⟨entry, replayed, same⟩ := mem_keys_of_mem_marks marked
          have found := (mem_above.mp replayed).1
          have key_eq : entry.1 = key := same
          exact Or.inl (Or.inl (BTreeMap.mem_keys.mpr ⟨entry.2, key_eq ▸ found⟩))
      · rw [perform, applySnapshot_other matching] at used
        exact Or.inl used
  | advance time =>
      refine Or.inl (used.imp (fun stored => ?_) (fun checkpoint => ?_))
      · obtain ⟨value, member⟩ := BTreeMap.mem_keys.mp stored
        exact BTreeMap.mem_keys.mpr ⟨value, (mem_atLeast.mp member).1⟩
      · obtain ⟨value, member⟩ := BTreeMap.mem_keys.mp checkpoint
        exact BTreeMap.mem_keys.mpr ⟨value, (mem_atLeast.mp member).1⟩

/-- The keys in use stem from the start or from an operation of the run so far. -/
def KeysFrom (start : LocalSnapshotHistory S E) (past : List (Operation S E))
    (history : LocalSnapshotHistory S E)
    : Prop :=
  history.snapshotId = start.snapshotId
  ∧ ∀ key, history.InUse key
    → start.InUse key ∨ ∃ operation ∈ past, operation.key start.snapshotId = some key

/-- In every run, each key in use stems from the start or from an operation. -/
theorem run_keysFrom (start : LocalSnapshotHistory S E) (operations : List (Operation S E))
    : KeysFrom start operations (start.run operations) := by
  refine Transducer.final_history ?_ ⟨rfl, fun key used => Or.inl used⟩ operations
  intro past history operation before
  obtain ⟨same, keys⟩ := before
  refine ⟨(perform_snapshotId history operation).trans same, fun key used => ?_⟩
  rcases inUse_perform used with earlier | own
  · refine (keys key earlier).imp_right ?_
    intro operated
    obtain ⟨prior, member, brought⟩ := operated
    exact ⟨prior, List.mem_append_left _ member, brought⟩
  · exact Or.inr ⟨operation, by simp, same ▸ own⟩

/-- A run leaves no checkpoint under a key that none of its operations has. -/
theorem run_checkpoint_absent (snapshot : S) (currentTime horizon : Time) (interval : Nat)
    (positive : 0 < interval) {operations : List (Operation S E)} {key : ContimeKey}
    (untouched
      : ∀ operation ∈ operations, operation.key (Snapshot.id snapshot) ≠ some key)
    : key
      ∉ ((newWithInterval snapshot currentTime horizon interval positive).run
          operations).checkpoints.keys := by
  intro present
  obtain ⟨_, keys⟩ :=
    run_keysFrom (newWithInterval snapshot currentTime horizon interval positive) operations
  rcases keys key (Or.inr present) with initial | ⟨operation, member, brought⟩
  · -- A new history uses no key.
    exact initial.elim (absurd · List.not_mem_nil) (absurd · List.not_mem_nil)
  · exact untouched operation member brought

/-- In every run of the three operations, the range call of a query is well formed if and only if
no checkpoint is stored under the query's own key; and that is so whenever no operation of the run
has that key. By induction over the run, every checkpoint has the key of an operation.
-/
theorem query_wellFormed_iff (snapshot : S) (currentTime horizon : Time) (interval : Nat)
    (positive : 0 < interval) (operations : List (Operation S E)) (time : Time)
    : let history : LocalSnapshotHistory S E :=
        (newWithInterval snapshot currentTime horizon interval positive).run operations
      let key : ContimeKey := ⟨time, Snapshot.id snapshot⟩
      let malformed := (history.queryStart time).2.malformed (.excluded key)
      (malformed = false ↔ key ∉ history.checkpoints.keys)
      ∧ ((∀ operation ∈ operations, operation.key (Snapshot.id snapshot) ≠ some key)
        → malformed = false) := by
  intro history key malformed
  have same : history.snapshotId = Snapshot.id snapshot := run_snapshotId _ operations
  have query : key = history.queryKey time := congrArg (ContimeKey.mk time) same.symm
  have well_formed : malformed = false ↔ key ∉ history.checkpoints.keys := by
    rw [← Bool.not_eq_true, not_iff_not]
    simp only [malformed, query]
    exact queryStart_malformed_iff
  refine ⟨well_formed, fun untouched => well_formed.mpr ?_⟩
  exact run_checkpoint_absent snapshot currentTime horizon interval positive untouched

/-- A run with a snapshot, queried just behind it. -/
theorem query_wellFormed_iff_behind_snapshot
    : let history : LocalSnapshotHistory TestSnapshot TestEvent :=
        (newWithInterval ⟨1, 0, [], 0⟩ 0 60 1 (by decide)).run
          [.applyEvent (.positive 1 1 0 1), .applySnapshot ⟨1, 5, [], 100⟩]
      (history.queryStart 6).2.malformed (.excluded ⟨6, 1⟩) = false := by
  obtain ⟨_, well_formed⟩ :=
    query_wellFormed_iff (⟨1, 0, [], 0⟩ : TestSnapshot) 0 60 1 (by decide)
      [.applyEvent (.positive 1 1 0 1), .applySnapshot ⟨1, 5, [], 100⟩] 6
  exact well_formed (by decide)

/-- A query at the time of an authoritative snapshot, in a history with an event, panics. -/
theorem query_malformed_at_snapshot
    : let history : LocalSnapshotHistory TestSnapshot TestEvent :=
        (newWithInterval ⟨1, 0, [], 0⟩ 0 60 CHECKPOINT_INTERVAL (by decide)).run
          [.applyEvent (.positive 1 1 0 1), .applySnapshot ⟨1, 5, [], 100⟩]
      history.events.isEmpty = false
      ∧ (history.queryStart 5).2.malformed (.excluded (history.queryKey 5)) = true
      ∧ history.snapshotAt 5 = none := by
  decide

end LocalSnapshotHistory

end Contime
