import Contime.Abstract.Seeding
import Contime.History.Chronicles

/-! Replicas of one history. Neither the checkpoint interval nor how a state was reached shows in
later answers: a replica with another interval answers alike, and so does one that was given the
answer of the original as its authoritative snapshot.
-/

open SortedEntries PeriodicReplay AnchoredReplay

namespace Contime

universe u v
variable {S : Type u} {E : Type v} [Event E] [Snapshot S E] [ApplyEvent E S]

-----------------------------------------------------------------------------------------
-- The checkpoint interval
-----------------------------------------------------------------------------------------

/-- Where nothing is lost, a call that does not prune is recorded alike for all intervals. -/
theorem Operation.record_congr (snapshotId : SnapshotId) {first second : Nat}
    {firstHorizon secondHorizon firstTime secondTime : Time}
    {recorded : Chronicle ContimeKey E S} (complete : recorded.lost = [])
    {operation : Operation S E} (unpruned : ∀ time, operation ≠ .advance time)
    : let left := operation.record snapshotId first firstHorizon (firstTime, recorded)
      let right := operation.record snapshotId second secondHorizon (secondTime, recorded)
      left.2 = right.2 ∧ left.2.lost = [] := by
  have covered (interval : Nat) (key : ContimeKey) : recorded.covered interval key = [] := by
    rw [Chronicle.covered, complete, ite_self]
  cases operation with
  | applyEvent event =>
      dsimp only [Operation.record]
      by_cases stored : (keyed event).1 ∈ recorded.kept.keys
      · rw [Chronicle.deliver_stored stored, Chronicle.deliver_stored stored]
        exact ⟨rfl, complete⟩
      · rw [Chronicle.deliver_fresh stored, Chronicle.deliver_fresh stored, covered, covered]
        exact ⟨rfl, rfl⟩
  | applySnapshot snapshot =>
      dsimp only [Operation.record]
      split
      · rw [Chronicle.authorize, Chronicle.authorize, covered, covered]
        exact ⟨rfl, rfl⟩
      · exact ⟨rfl, complete⟩
  | advance time => exact absurd rfl (unpruned time)

/-- Runs that do not prune are recorded alike for all intervals, clocks and horizons. -/
theorem chronicle_congr (snapshot : S) {firstTime secondTime firstHorizon secondHorizon : Time}
    {first second : Nat} {operations : List (Operation S E)}
    (unpruned : ∀ time, .advance time ∉ operations)
    : chronicle snapshot firstTime firstHorizon first operations
        = chronicle snapshot secondTime secondHorizon second operations
      ∧ (chronicle snapshot firstTime firstHorizon first operations).lost = [] := by
  have general (left right : Time × Chronicle ContimeKey E S) (same : left.2 = right.2)
      (complete : left.2.lost = [])
      : let final (interval : Nat) (horizon : Time) (state : Time × Chronicle ContimeKey E S) :=
          operations.foldl (Operation.record (Snapshot.id snapshot) interval horizon) state
        (final first firstHorizon left).2 = (final second secondHorizon right).2
        ∧ (final first firstHorizon left).2.lost = [] := by
    induction operations generalizing left right with
    | nil => exact ⟨same, complete⟩
    | cons operation rest ih =>
        obtain ⟨clock, recorded⟩ := left
        obtain ⟨other, again⟩ := right
        obtain rfl : recorded = again := same
        obtain ⟨next, still⟩ :=
          Operation.record_congr (Snapshot.id snapshot) complete
            (fun time own => unpruned time (own ▸ .head rest))
        exact ih (fun time member => unpruned time (.tail _ member)) _ _ next still
  exact general (firstTime, .new (Snapshot.setTime snapshot 0))
    (secondTime, .new (Snapshot.setTime snapshot 0)) rfl rfl

namespace LocalSnapshotHistory

/-- With time-blind events and overwriting time, the checkpoint interval shows in no answer of a
run of events and authoritative snapshots: any two intervals answer alike at every time whose key
no call of the run has. By equal chronicles: where events are time-blind, no replay shows where it
was settled.
-/
theorem interval_unobservable (overwrites : SetTimeOverwrites S E) (blind : TimeBlind S E)
    (snapshot : S) (currentTime horizon : Time) (first second : Nat) (firstPositive : 0 < first)
    (secondPositive : 0 < second) (operations : List (Operation S E))
    (unpruned : ∀ amount, .advance amount ∉ operations) (time : Time)
    (untouched
      : ∀ operation ∈ operations,
          operation.key (Snapshot.id snapshot) ≠ some ⟨time, Snapshot.id snapshot⟩)
    : ((newWithInterval snapshot currentTime horizon first firstPositive).run
        operations).snapshotAt time
      = ((newWithInterval snapshot currentTime horizon second secondPositive).run
          operations).snapshotAt time := by
  obtain ⟨same, complete⟩ :
      chronicle snapshot currentTime horizon first operations
          = chronicle snapshot currentTime horizon second operations
        ∧ (chronicle snapshot currentTime horizon first operations).lost = [] :=
    chronicle_congr snapshot unpruned
  have covered (interval : Nat)
      : (chronicle snapshot currentTime horizon first operations).visible interval
          ⟨time, Snapshot.id snapshot⟩
        = (chronicle snapshot currentTime horizon first operations).visible first
            ⟨time, Snapshot.id snapshot⟩ := by
    simp only [Chronicle.visible, Chronicle.covered, complete, ite_self]
  have left := run_answers_from_chronicle snapshot currentTime horizon first firstPositive
    operations time untouched
  have right := run_answers_from_chronicle snapshot currentTime horizon second secondPositive
    operations time untouched
  dsimp only at left right
  rw [← same, covered second] at right
  rw [left, right, settledReplay_of_blind overwrites blind, settledReplay_of_blind overwrites blind]

/-- A late event between an authoritative snapshot and the latest event. -/
theorem interval_unobservable_of_late
    : let operations : List (Operation TestSnapshot TestEvent) :=
        [.applyEvent (.positive 1 8 0 1), .applySnapshot ⟨1, 5, [], 100⟩,
          .applyEvent (.positive 1 6 0 2)]
      ((newWithInterval ⟨1, 0, [], 0⟩ 0 0 1 (by decide)).run operations).snapshotAt 9
        = ((newWithInterval ⟨1, 0, [], 0⟩ 0 0 100 (by decide)).run operations).snapshotAt 9 := by
  intro operations
  exact interval_unobservable testSnapshot_setTimeOverwrites testEvent_timeBlind ⟨1, 0, [], 0⟩ 0 0
    1 100 (by decide) (by decide) operations (by simp [operations]) 9 (by decide)

-----------------------------------------------------------------------------------------
-- A replica seeded with an answer
-----------------------------------------------------------------------------------------

/-- The replica holds an anchor at the bound that is the state of the original before the bound,
and both hold the same events and anchors behind it.
-/
structure SeededFrom (interval : Nat) (bound : ContimeKey) (state : S)
    (original replica : Chronicle ContimeKey E S)
    : Prop where
  settled : original.SettledAt interval bound
  agree : Chronicle.AgreeBehind bound original replica
  seed : (bound, state) ∈ replica.anchors.entries
  state
    : SameUpToTime
        (replay queryStep (original.visible interval bound).1 (original.visible interval bound).2)
        state

variable {interval other : Nat} {bound : ContimeKey} {state : S} {snapshotId : SnapshotId}
  {original replica : Chronicle ContimeKey E S}

/-- A call behind the bound keeps a replica seeded. -/
theorem SeededFrom.record (seeded : SeededFrom interval bound state original replica)
    {operation : Operation S E} {key : ContimeKey} (own : operation.key snapshotId = some key)
    (behind : bound < key) (firstHorizon secondHorizon firstTime secondTime : Time)
    : SeededFrom interval bound state
        (operation.record snapshotId interval firstHorizon (firstTime, original)).2
        (operation.record snapshotId other secondHorizon (secondTime, replica)).2 := by
  obtain ⟨settled, agree, seed, same⟩ := seeded
  cases operation with
  | applyEvent event =>
      obtain rfl : ContimeKey.fromEvent event = key := Option.some.inj own
      have unchanged
          : Chronicle.SameUpTo bound (original.deliver interval (keyed event)) original :=
        settled.deliver behind
      have kept : (bound, state) ∈ (replica.deliver other (keyed event)).anchors.entries :=
        (Chronicle.mem_iff_of_upTo (Chronicle.upTo_deliver behind) state).mpr seed
      refine ⟨settled.of_same (settled.formed.deliver _) unchanged, agree.deliver behind, kept, ?_⟩
      rw [Operation.record, unchanged.visible]
      exact same
  | applySnapshot snapshot =>
      have matching : Snapshot.id snapshot = snapshotId := by
        by_contra differ
        rw [Operation.key, if_neg differ] at own
        cases own
      rw [Operation.key, if_pos matching] at own
      obtain rfl : (⟨Snapshot.time snapshot, snapshotId⟩ : ContimeKey) = key :=
        Option.some.inj own
      have unchanged
          : Chronicle.SameUpTo bound
              (original.authorize interval ⟨Snapshot.time snapshot, snapshotId⟩ snapshot)
              original :=
        settled.authorize behind snapshot
      have kept
          : (bound, state)
            ∈ (replica.authorize other ⟨Snapshot.time snapshot, snapshotId⟩
                snapshot).anchors.entries :=
        (Chronicle.mem_iff_of_upTo (Chronicle.upTo_authorize behind) state).mpr seed
      rw [Operation.record, Operation.record, if_pos matching, if_pos matching]
      refine ⟨settled.of_same (settled.formed.authorize _ _) unchanged,
        agree.authorize behind snapshot, kept, ?_⟩
      rw [unchanged.visible]
      exact same
  | advance amount => cases own

/-- Calls behind the bound keep a replica seeded. -/
theorem SeededFrom.run (seeded : SeededFrom interval bound state original replica)
    {later : List (Operation S E)}
    (future : ∀ operation ∈ later, ∃ key ∈ operation.key snapshotId, bound < key)
    (other : Nat) (firstHorizon secondHorizon firstTime secondTime : Time)
    : SeededFrom interval bound state
        (later.foldl (Operation.record snapshotId interval firstHorizon) (firstTime, original)).2
        (later.foldl (Operation.record snapshotId other secondHorizon)
          (secondTime, replica)).2 := by
  have general (left right : Time × Chronicle ContimeKey E S)
      (seeded : SeededFrom interval bound state left.2 right.2)
      : SeededFrom interval bound state
          (later.foldl (Operation.record snapshotId interval firstHorizon) left).2
          (later.foldl (Operation.record snapshotId other secondHorizon) right).2 := by
    induction later generalizing left right with
    | nil => exact seeded
    | cons operation rest ih =>
        obtain ⟨key, own, behind⟩ := future operation (.head rest)
        refine ih (fun operation member => future operation (.tail _ member)) _ _ ?_
        exact seeded.record own behind firstHorizon secondHorizon left.1 right.1
  exact general (firstTime, original) (secondTime, replica) seeded

omit [Event E] in
/-- A replay continued from states that differ in their time only ends in such states. -/
theorem sameUpToTime_continued (blind : TimeBlind S E) (recorded : Chronicle ContimeKey E S)
    (bound key : ContimeKey) {start next : S} (same : SameUpToTime start next)
    : let left := recorded.continued bound start key
      let right := recorded.continued bound next key
      SameUpToTime (replay queryStep left.1 left.2) (replay queryStep right.1 right.2) := by
  intro left right
  rcases List.eq_nil_or_concat (below key (above bound recorded.anchors.entries))
    with none | ⟨front, last, some⟩
  · have left_eq : left = _ := Chronicle.continued_of_none none
    have right_eq : right = _ := Chronicle.continued_of_none none
    rw [left_eq, right_eq]
    exact same.queries blind _
  · rw [List.concat_eq_append] at some
    have left_eq : recorded.visible 0 key = left :=
      Chronicle.visible_eq_continued some start
    have right_eq : recorded.visible 0 key = right :=
      Chronicle.visible_eq_continued some next
    rw [← left_eq, ← right_eq]
    exact .refl _

/-- A seeded replica shows the same state before every key behind the bound. -/
theorem SeededFrom.alike (overwrites : SetTimeOverwrites S E) (blind : TimeBlind S E)
    (seeded : SeededFrom interval bound state original replica) {key : ContimeKey}
    (behind : bound < key)
    : let left := original.visible interval key
      let right := replica.visible other key
      SameUpToTime (settledReplay interval left.1 left.2)
        (settledReplay other right.1 right.2) := by
  intro left right time
  have agree (start : S)
      : original.continued bound start key = replica.continued bound start key := by
    rw [Chronicle.continued, Chronicle.continued, seeded.agree.kept, seeded.agree.anchors]
  have factored := seeded.settled.replay_visible behind queryStep
  have shown : right = replica.continued bound state key :=
    Chronicle.visible_of_seed seeded.seed behind
  have continued := sameUpToTime_continued blind replica bound key seeded.state
  dsimp only at factored continued
  rw [settledReplay_of_blind overwrites blind, settledReplay_of_blind overwrites blind, shown,
    factored, agree]
  exact continued time

/-- A run of calls before a key stores nothing from the key on. -/
theorem run_keys_lt (snapshot : S) (currentTime horizon : Time) (positive : 0 < interval)
    {operations : List (Operation S E)} {key : ContimeKey}
    (past : ∀ operation ∈ operations, ∀ own ∈ operation.key (Snapshot.id snapshot), own < key)
    {used : ContimeKey}
    (stored
      : ((newWithInterval snapshot currentTime horizon interval positive).run
          operations).InUse used)
    : used < key := by
  obtain ⟨_, keys⟩ :=
    run_keysFrom (newWithInterval snapshot currentTime horizon interval positive) operations
  rcases keys used stored with initial | ⟨operation, member, own⟩
  · exact initial.elim (absurd · List.not_mem_nil) (absurd · List.not_mem_nil)
  · exact past operation member used own

/-- A chronicle of calls before a key is settled at the key. -/
theorem Records.settledAt {history : LocalSnapshotHistory S E} (records : history.Records original)
    {key : ContimeKey} (past : ∀ used, history.InUse used → used < key)
    : original.SettledAt history.checkpointInterval key where
  formed := records.formed
  kept present := (past key (Or.inl (records.events ▸ present))).false
  anchors present := by
    obtain ⟨value, member⟩ := BTreeMap.mem_keys.mp present
    exact (past key
      (Or.inr (BTreeMap.mem_keys.mpr ⟨value, records.anchor_stored member⟩))).false
  lost := by
    rw [Chronicle.covered]
    split
    next => rfl
    next uncovered =>
      by_contra some
      have formed := records.formed
      have many := formed.marked (Ne.symm some)
      have kept : ∀ entry ∈ original.kept.entries, entry.1 < key := by
        intro entry member
        exact past entry.1
          (Or.inl (BTreeMap.mem_keys.mpr ⟨entry.2, records.events.symm ▸ member⟩))
      have all := formed.all_lt kept
      refine uncovered ?_
      rw [Chronicle.Covers, below_of_forall (fun entry member =>
        all entry (leading_sublist.subset member))]
      exact many

/-- A replica is seeded by the answer of an original that has nothing from the query on, where it
has nothing from there on itself.
-/
theorem Records.seeded (overwrites : SetTimeOverwrites S E) (blind : TimeBlind S E)
    {left right : LocalSnapshotHistory S E} (first : left.Records original)
    (second : right.Records replica) (sameId : right.snapshotId = left.snapshotId) {time : Time}
    (pastLeft : ∀ used, left.InUse used → used < left.queryKey time)
    (pastRight : ∀ used, right.InUse used → used < left.queryKey time)
    (asked : left.snapshotAt time = some state) (stamped : Snapshot.time state = time)
    : SeededFrom left.checkpointInterval (left.queryKey time) state original
        (replica.authorize right.checkpointInterval (right.authorityKey state) state) := by
  have settled := first.settledAt pastLeft
  have key : right.authorityKey state = left.queryKey time := by
    rw [authorityKey, queryKey, stamped, sameId]
  have absent : left.queryKey time ∉ left.checkpoints.keys :=
    fun present => (pastLeft _ (Or.inr present)).false
  rw [key]
  refine ⟨settled, ⟨?_, ?_⟩, BTreeMap.mem_insert.mpr (Or.inl rfl), fun later => ?_⟩
  · have lowLeft : above (left.queryKey time) original.kept.entries = [] := by
      refine above_eq_nil (fun entry member => (pastLeft entry.1 (Or.inl ?_)).le)
      exact BTreeMap.mem_keys.mpr ⟨entry.2, first.events.symm ▸ member⟩
    have lowRight : above (left.queryKey time) replica.kept.entries = [] := by
      refine above_eq_nil (fun entry member => (pastRight entry.1 (Or.inl ?_)).le)
      exact BTreeMap.mem_keys.mpr ⟨entry.2, second.events.symm ▸ member⟩
    exact lowLeft.trans lowRight.symm
  · have lowLeft : above (left.queryKey time) original.anchors.entries = [] := by
      refine above_eq_nil (fun anchor member => (pastLeft anchor.1 (Or.inr ?_)).le)
      exact BTreeMap.mem_keys.mpr ⟨anchor.2, first.anchor_stored member⟩
    have lowRight
        : above (left.queryKey time)
            (replica.authorize right.checkpointInterval (left.queryKey time)
              state).anchors.entries
          = [] := by
      refine above_eq_nil (fun anchor member => ?_)
      rcases BTreeMap.mem_insert.mp member with rfl | ⟨known, _⟩
      · exact le_rfl
      · exact (mem_below.mp known).2.le
    exact lowLeft.trans lowRight.symm
  · have answered := first.snapshotAt absent
    dsimp only at answered
    rw [asked] at answered
    rw [Option.some.inj answered, overwrites]
    exact (settledReplay_of_blind overwrites blind _ _ _ later).symm

/-- Histories of a seeded replica and its original answer alike after the same calls behind the
bound.
-/
theorem SeededFrom.snapshotAt (overwrites : SetTimeOverwrites S E) (blind : TimeBlind S E)
    {left right : LocalSnapshotHistory S E} (first : left.Records original)
    (second : right.Records replica) (sameId : right.snapshotId = left.snapshotId)
    (seeded : SeededFrom left.checkpointInterval bound state original replica)
    {later : List (Operation S E)}
    (future : ∀ operation ∈ later, ∃ key ∈ operation.key left.snapshotId, bound < key)
    {time : Time} (behind : bound < left.queryKey time)
    (leftFree : left.queryKey time ∉ (left.run later).checkpoints.keys)
    (rightFree : left.queryKey time ∉ (right.run later).checkpoints.keys)
    : (left.run later).snapshotAt time = (right.run later).snapshotAt time := by
  have leftKey : (left.run later).queryKey time = left.queryKey time :=
    congrArg (ContimeKey.mk time) (run_snapshotId _ _)
  have rightKey : (right.run later).queryKey time = left.queryKey time :=
    congrArg (ContimeKey.mk time) ((run_snapshotId _ _).trans sameId)
  have leftRecords := first.run later
  have rightRecords := second.run later
  rw [sameId] at rightRecords
  rw [leftRecords.snapshotAt (leftKey.symm ▸ leftFree),
    rightRecords.snapshotAt (rightKey.symm ▸ rightFree), leftKey, rightKey,
    run_checkpointInterval, run_checkpointInterval]
  have kept := seeded.run future right.checkpointInterval left.lowerTimeHorizonDelta
    right.lowerTimeHorizonDelta left.currentTime right.currentTime
  exact congrArg some (kept.alike overwrites blind behind time)

/-- Two runs in a row leave no checkpoint under a key that none of their operations has. -/
theorem run_run_checkpoint_absent (snapshot : S) (currentTime horizon : Time)
    (positive : 0 < interval) {calls later : List (Operation S E)} {key : ContimeKey}
    (early : ∀ operation ∈ calls, operation.key (Snapshot.id snapshot) ≠ some key)
    (late : ∀ operation ∈ later, operation.key (Snapshot.id snapshot) ≠ some key)
    : key
      ∉ (((newWithInterval snapshot currentTime horizon interval positive).run calls).run
          later).checkpoints.keys := by
  have absent := run_checkpoint_absent snapshot currentTime horizon interval positive
    (List.forall_mem_append.mpr ⟨early, late⟩)
  rwa [run, Transducer.final_append] at absent

/-- An answer can stand in for the calls that led to it. Take the answer of any history at a time
behind all its calls and apply it as an authoritative snapshot to any other history of the same
id, with other calls before that time, another base, interval and clock. Whatever events and
authoritative snapshots both are given behind that time then, both answer alike from there on, if
events are time-blind and a later time overwrites. By induction over the later calls, which keep
the two histories alike from that time on.
-/
theorem seeded_replica_answers_alike (overwrites : SetTimeOverwrites S E) (blind : TimeBlind S E)
    (first second : S) (sameId : Snapshot.id second = Snapshot.id first)
    (firstTime firstHorizon secondTime secondHorizon : Time) (firstInterval secondInterval : Nat)
    (firstPositive : 0 < firstInterval) (secondPositive : 0 < secondInterval)
    (firstCalls secondCalls later : List (Operation S E)) (asked time : Time) (state : S)
    (past
      : ∀ operation ∈ firstCalls ++ secondCalls, ∀ key ∈ operation.key (Snapshot.id first),
          key < ⟨asked, Snapshot.id first⟩)
    (answer
      : ((newWithInterval first firstTime firstHorizon firstInterval firstPositive).run
          firstCalls).snapshotAt asked
        = some state)
    (named : Snapshot.id state = Snapshot.id first) (stamped : Snapshot.time state = asked)
    (future
      : ∀ operation ∈ later, ∃ key ∈ operation.key (Snapshot.id first),
          ⟨asked, Snapshot.id first⟩ < key)
    (behind : asked < time)
    (untouched
      : ∀ operation ∈ later,
          operation.key (Snapshot.id first) ≠ some ⟨time, Snapshot.id first⟩)
    : let original :=
        (newWithInterval first firstTime firstHorizon firstInterval firstPositive).run firstCalls
      let replica :=
        (newWithInterval second secondTime secondHorizon secondInterval secondPositive).run
          secondCalls
      (original.run later).snapshotAt time
        = ((replica.applySnapshot state).1.run later).snapshotAt time := by
  intro original replica
  let bound : ContimeKey := ⟨asked, Snapshot.id first⟩
  have originalId : original.snapshotId = Snapshot.id first := run_snapshotId _ _
  have replicaId : replica.snapshotId = Snapshot.id first := (run_snapshotId _ _).trans sameId
  have query : original.queryKey asked = bound := congrArg (ContimeKey.mk asked) originalId
  have matching : Snapshot.id state = replica.snapshotId := named.trans replicaId.symm
  have ahead : bound < ⟨time, Snapshot.id first⟩ := ContimeKey.lt_of_time_lt behind
  have firstPast : ∀ operation ∈ firstCalls, ∀ key ∈ operation.key (Snapshot.id first),
      key < bound :=
    fun operation member => past operation (List.mem_append_left _ member)
  have secondPast : ∀ operation ∈ secondCalls, ∀ key ∈ operation.key (Snapshot.id second),
      key < bound := by
    rw [sameId]
    exact fun operation member => past operation (List.mem_append_right _ member)
  have originalRecords : original.Records _ := run_records ..
  have replicaRecords : replica.Records _ := run_records ..
  have seeded := originalRecords.seeded overwrites blind replicaRecords
    (replicaId.trans originalId.symm)
    (fun used stored => query ▸ run_keys_lt first firstTime firstHorizon firstPositive firstPast
      stored)
    (fun used stored => query ▸ run_keys_lt second secondTime secondHorizon secondPositive
      secondPast stored)
    answer stamped
  rw [query] at seeded
  have steady := (applySnapshot_settings replica state).snapshotId
  have lateQuery : original.queryKey time = ⟨time, Snapshot.id first⟩ :=
    congrArg (ContimeKey.mk time) originalId
  have passed {calls : List (Operation S E)}
      (past : ∀ operation ∈ calls, ∀ key ∈ operation.key (Snapshot.id first), key < bound)
      : ∀ operation ∈ calls,
          operation.key (Snapshot.id first) ≠ some ⟨time, Snapshot.id first⟩ :=
    fun operation member own => (past operation member _ own).not_gt ahead
  refine seeded.snapshotAt overwrites blind originalRecords (replicaRecords.applySnapshot matching)
    (steady.trans (replicaId.trans originalId.symm)) (originalId.symm ▸ future)
    (lateQuery.symm ▸ ahead) ?_ ?_
  · rw [lateQuery]
    exact run_run_checkpoint_absent first firstTime firstHorizon firstPositive (passed firstPast)
      untouched
  · have shape : (replica.applySnapshot state).1
        = (newWithInterval second secondTime secondHorizon secondInterval secondPositive).run
            (secondCalls ++ [.applySnapshot state]) := by
      rw [run, Transducer.final_append]
      rfl
    have own : (Operation.applySnapshot state : Operation S E).key (Snapshot.id first)
        ≠ some ⟨time, Snapshot.id first⟩ := by
      rw [Operation.key, if_pos named, stamped]
      exact fun same => ahead.ne (Option.some.inj same)
    rw [lateQuery, shape]
    refine run_run_checkpoint_absent second secondTime secondHorizon secondPositive ?_ ?_
    · rw [sameId] at secondPast ⊢
      refine List.forall_mem_append.mpr ⟨passed secondPast, fun operation member => ?_⟩
      exact List.mem_singleton.mp member ▸ own
    · rw [sameId]
      exact untouched

/-- A new replica of another base and interval, seeded between the events, with a late event and an
authoritative snapshot behind that.
-/
theorem seeded_replica_answers_alike_three_events
    : let early : List (Operation TestSnapshot TestEvent) :=
        [.applyEvent (.positive 1 3 0 1), .applyEvent (.positive 1 2 0 2)]
      let later : List (Operation TestSnapshot TestEvent) :=
        [.applyEvent (.positive 1 9 0 4), .applySnapshot ⟨1, 7, [], 50⟩,
          .applyEvent (.positive 1 6 0 8)]
      let original := (newWithInterval ⟨1, 0, [], 0⟩ 0 0 1 (by decide)).run early
      let replica : LocalSnapshotHistory TestSnapshot TestEvent :=
        newWithInterval ⟨1, 0, [9], 9⟩ 0 0 100 (by decide)
      (original.run later).snapshotAt 8
        = ((replica.applySnapshot ⟨1, 5, [2, 1], 3⟩).1.run later).snapshotAt 8 := by
  intro early later original replica
  exact seeded_replica_answers_alike testSnapshot_setTimeOverwrites testEvent_timeBlind
    ⟨1, 0, [], 0⟩ ⟨1, 0, [9], 9⟩ rfl 0 0 0 0 1 100 (by decide) (by decide) early [] later 5 8
    ⟨1, 5, [2, 1], 3⟩ (by decide) (by decide) rfl rfl (by decide) (by decide) (by decide)

end LocalSnapshotHistory

end Contime
