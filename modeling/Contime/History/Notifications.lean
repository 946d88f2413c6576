import Contime.Model.Readers
import Contime.Model.TestFixtures

/-! What the readers of one history can obtain. All of them take from one queue, so a reader
has the reconciliations of its own time only while nobody else takes any, and while none was
waiting when it came.
-/

namespace Contime

universe u v
variable {S : Type u} {E : Type v} [Event E] [Snapshot S E] [ApplyEvent E S]

namespace ObservedHistory
variable {state : ObservedHistory S E} {observation : Observation S E} {time : Time}

/-- Every reader has received, or can still take from the queue, all reconciliations that
were attempted after its query, in order, and none from before.
-/
def Notified (state : ObservedHistory S E) : Prop :=
  ∀ reader ∈ state.readers,
    reader.received ++ state.channel.queue = state.attempted.drop reader.since

/-- A query is answered while nothing waits, and a waiting reconciliation is taken by the
only reader there is.
-/
def Undisturbed (state : ObservedHistory S E) : Observation S E → Prop
  | .perform _ => True
  | .query time => (state.history.snapshotAt time).isSome → state.channel.queue = []
  | .tryRecv index =>
      index < state.readers.length → state.channel.queue ≠ [] → state.readers.length = 1

/-- All that waits was attempted, and every reader came after a part of the attempts. -/
structure Accounted (state : ObservedHistory S E) : Prop where
  queue_le : state.channel.queue.length ≤ state.attempted.length
  since_le : ∀ reader ∈ state.readers, reader.since ≤ state.attempted.length

-- The steps by cases

/-- An operation either attempts nothing and leaves the readers' side alone, or sends one
more reconciliation.
-/
theorem step_perform (operation : Operation S E)
    : let next := (state.step (.perform operation)).1
      next.readers = state.readers
      ∧ ((next.channel = state.channel ∧ next.attempted = state.attempted)
        ∨ ∃ reconciliation,
            next.channel = (state.channel.trySend reconciliation).1
            ∧ next.attempted = state.attempted ++ [reconciliation]) := by
  cases sent : (state.history.perform operation).2.reconciliation with
  | none => simp [step, sent]
  | some reconciliation => simp [step, sent]

/-- An answered query adds a reader, a failed one changes nothing. -/
theorem step_query (time : Time)
    : (state.history.snapshotAt time = none ∧ (state.step (.query time)).1 = state)
      ∨ ((state.history.snapshotAt time).isSome
        ∧ (state.step (.query time)).1
          = { state with readers := state.readers ++ [⟨state.attempted.length, []⟩] }) := by
  cases answer : state.history.snapshotAt time with
  | none => simp [step, answer]
  | some snapshot => simp [step, answer]

/-- A receive by a reader moves the front of the queue to it, any other changes nothing. -/
theorem step_tryRecv (index : Nat)
    : (¬ (index < state.readers.length ∧ state.channel.queue ≠ [])
        ∧ (state.step (.tryRecv index)).1 = state)
      ∨ ∃ reconciliation rest,
          index < state.readers.length
          ∧ state.channel.queue = reconciliation :: rest
          ∧ (state.step (.tryRecv index)).1.channel.queue = rest
          ∧ (state.step (.tryRecv index)).1.attempted = state.attempted
          ∧ (state.step (.tryRecv index)).1.readers
            = state.readers.modify index (fun reader =>
                { reader with received := reader.received ++ [reconciliation] }) := by
  by_cases present : index < state.readers.length
  · obtain ⟨none, empty⟩ | ⟨channel, reconciliation, taken, front⟩ :=
      state.channel.tryRecv_spec
    · refine Or.inl ⟨fun waiting => waiting.2 empty, ?_⟩
      simp [step, present, none]
    · refine Or.inr ⟨reconciliation, channel.queue, present, front, ?_⟩
      simp [step, present, taken]
  · exact Or.inl ⟨fun waiting => present waiting.1, by simp [step, present]⟩

-- What the steps keep

/-- The attempts only grow. -/
theorem attempted_length_le_step (state : ObservedHistory S E) (observation : Observation S E)
    : state.attempted.length ≤ (state.step observation).1.attempted.length := by
  cases observation with
  | perform operation =>
      obtain ⟨_, ⟨_, same⟩ | ⟨reconciliation, _, longer⟩⟩ := state.step_perform operation
      · rw [same]
      · rw [longer, List.length_append]
        exact Nat.le_add_right _ _
  | query time =>
      rcases state.step_query time with ⟨_, same⟩ | ⟨_, added⟩
      · rw [same]
      · rw [added]
  | tryRecv index =>
      rcases state.step_tryRecv index with ⟨_, same⟩ | ⟨_, _, _, _, _, same, _⟩
      · rw [same]
      · rw [same]

/-- The attempts of a run include those before it. -/
theorem attempted_length_le_run (state : ObservedHistory S E) (steps : List (Observation S E))
    : state.attempted.length ≤ (state.run steps).attempted.length := by
  induction steps generalizing state with
  | nil => exact Nat.le_refl _
  | cons observation rest ih =>
      exact (state.attempted_length_le_step observation).trans (ih _)

/-- A send adds at most one message, and exactly the message sent where there is room. -/
theorem Accounted.perform (accounted : state.Accounted) (operation : Operation S E)
    : (state.step (.perform operation)).1.Accounted := by
  obtain ⟨readers, ⟨channel, attempted⟩ | ⟨reconciliation, channel, attempted⟩⟩ :=
    state.step_perform operation
  · refine ⟨?_, ?_⟩
    · rw [channel, attempted]
      exact accounted.queue_le
    · rw [readers, attempted]
      exact accounted.since_le
  · refine ⟨?_, fun reader member => ?_⟩
    · have most : (state.channel.trySend reconciliation).1.queue.length
          ≤ state.channel.queue.length + 1 := Channel.trySend_length_le
      rw [channel, attempted, List.length_append]
      exact most.trans (Nat.succ_le_succ accounted.queue_le)
    · rw [readers] at member
      rw [attempted, List.length_append]
      exact (accounted.since_le reader member).trans (Nat.le_add_right _ _)

/-- What a modified list holds comes from the list as it was. -/
theorem mem_of_mem_modify {α : Type*} {entries : List α} {index : Nat} {change : α → α}
    {entry : α} (member : entry ∈ entries.modify index change)
    : ∃ former ∈ entries, entry = former ∨ entry = change former := by
  obtain ⟨place, found⟩ := List.mem_iff_getElem?.mp member
  rw [List.getElem?_modify] at found
  obtain ⟨former, old, rfl⟩ := Option.map_eq_some_iff.mp found
  refine ⟨former, List.mem_of_getElem? old, ?_⟩
  by_cases here : index = place
  · exact Or.inr (by simp [here])
  · exact Or.inl (by simp [here])

/-- Every step keeps the accounts. -/
theorem Accounted.step (accounted : state.Accounted) (observation : Observation S E)
    : (state.step observation).1.Accounted := by
  cases observation with
  | perform operation => exact accounted.perform operation
  | query time =>
      rcases state.step_query time with ⟨_, same⟩ | ⟨_, added⟩
      · rwa [same]
      · rw [added]
        refine ⟨accounted.queue_le, fun reader member => ?_⟩
        rcases List.mem_append.mp member with old | new
        · exact accounted.since_le reader old
        · rw [List.mem_singleton.mp new]
  | tryRecv index =>
      rcases state.step_tryRecv index with
        ⟨_, same⟩ | ⟨reconciliation, rest, _, front, queue, attempted, readers⟩
      · rwa [same]
      · have shorter := accounted.queue_le
        rw [front, List.length_cons] at shorter
        refine ⟨?_, fun reader member => ?_⟩
        · rw [queue, attempted]
          exact Nat.le_of_succ_le shorter
        · rw [readers] at member
          rw [attempted]
          obtain ⟨former, old, rfl | rfl⟩ := mem_of_mem_modify member
          · exact accounted.since_le _ old
          · exact accounted.since_le former old

-- Which steps keep the readers notified

/-- An operation that finds room for its reconciliation keeps every reader notified. -/
theorem Notified.perform (notified : state.Notified) (accounted : state.Accounted)
    (room : state.channel.queue.length < RECONCILIATION_CAPACITY) (operation : Operation S E)
    : (state.step (.perform operation)).1.Notified := by
  obtain ⟨readers, ⟨channel, attempted⟩ | ⟨reconciliation, channel, attempted⟩⟩ :=
    state.step_perform operation
  · intro reader member
    rw [readers] at member
    rw [channel, attempted]
    exact notified reader member
  · intro reader member
    rw [readers] at member
    rw [channel, attempted, Channel.trySend_queue room,
      List.drop_append_of_le_length (accounted.since_le reader member),
      ← notified reader member, List.append_assoc]

/-- A query keeps the readers notified exactly when it is not answered or nothing waits. -/
theorem notified_query_iff (notified : state.Notified)
    : (state.step (.query time)).1.Notified ↔ state.Undisturbed (.query time) := by
  rcases state.step_query time with ⟨failed, same⟩ | ⟨answered, added⟩
  · rw [same]
    exact iff_of_true notified (fun found => by simp [failed] at found)
  · rw [added]
    constructor
    · intro after _
      have own := after ⟨state.attempted.length, []⟩ (by simp)
      simpa using own
    · intro empty reader member
      rcases List.mem_append.mp member with old | new
      · exact notified reader old
      · rw [List.mem_singleton.mp new]
        simp [empty answered]

/-- A receive keeps the readers notified exactly when it takes nothing or from nobody else. -/
theorem notified_tryRecv_iff (notified : state.Notified) {index : Nat}
    : (state.step (.tryRecv index)).1.Notified ↔ state.Undisturbed (.tryRecv index) := by
  rcases state.step_tryRecv index with
    ⟨none, same⟩ | ⟨reconciliation, rest, present, front, queue, attempted, readers⟩
  · rw [same]
    exact iff_of_true notified (fun inside waiting => absurd ⟨inside, waiting⟩ none)
  · constructor
    · intro after _ _
      by_contra several
      obtain ⟨other, apart, inside⟩ : ∃ other, index ≠ other ∧ other < state.readers.length := by
        by_cases first : index = 0
        · exact ⟨1, by omega, by omega⟩
        · exact ⟨0, first, by omega⟩
      have untouched : state.readers[other] ∈ (state.step (.tryRecv index)).1.readers := by
        rw [readers]
        refine List.mem_of_getElem? (i := other) ?_
        rw [List.getElem?_modify_ne _ _ apart, List.getElem?_eq_getElem inside]
      have before := notified _ (List.getElem_mem inside)
      have missed := after _ untouched
      rw [queue, attempted, ← before, front] at missed
      simp at missed
    · intro sole reader member
      have one := sole present (by simp [front])
      obtain ⟨only, alone⟩ := List.length_eq_one_iff.mp one
      obtain rfl : index = 0 := by omega
      have before := notified only (by simp [alone])
      rw [readers, alone] at member
      obtain rfl := List.mem_singleton.mp member
      rw [queue, attempted, ← before, front, List.append_assoc]
      rfl

/-- With room for one more message, a step keeps every reader notified exactly when it is
undisturbed.
-/
theorem notified_step_iff (notified : state.Notified) (accounted : state.Accounted)
    (room : state.channel.queue.length < RECONCILIATION_CAPACITY)
    : (state.step observation).1.Notified ↔ state.Undisturbed observation := by
  cases observation with
  | perform operation => exact iff_of_true (notified.perform accounted room operation) trivial
  | query time => exact notified_query_iff notified
  | tryRecv index => exact notified_tryRecv_iff notified

/-- With fewer reconciliations than the channel holds, every reader has the ones of its own time
in every state of a run exactly when each query is answered while nothing waits and each waiting
reconciliation is taken by the only reader. By the same equivalence for each step, joined over all
prefixes of the run.
-/
theorem notified_iff_undisturbed (history : LocalSnapshotHistory S E)
    (steps : List (Observation S E))
    (few : ((unobserved history).run steps).attempted.length < RECONCILIATION_CAPACITY)
    : (∀ past, past <+: steps → ((unobserved history).run past).Notified)
      ↔ Transducer.Each step Undisturbed (unobserved history) steps := by
  have step_iff (state : ObservedHistory S E) (observation : Observation S E)
      (known : state.Accounted ∧ state.channel.queue.length < RECONCILIATION_CAPACITY)
      (notified : state.Notified)
      : (state.step observation).1.Notified ↔ state.Undisturbed observation :=
    notified_step_iff notified known.1 known.2
  refine (Transducer.each_iff_on_prefixes step_iff ?_ ?_).symm
  · intro reader member
    cases member
  · intro past within
    obtain ⟨rest, rfl⟩ := within
    have accounted : ((unobserved history).run past).Accounted :=
      Transducer.final_invariant (fun _ observation so => so.step observation)
        ⟨Nat.le_refl _, fun reader member => by cases member⟩ past
    have grown := ((unobserved history).run past).attempted_length_le_run rest
    have joined : ((unobserved history).run past).run rest
        = (unobserved history).run (past ++ rest) :=
      (Transducer.final_append _ past rest).symm
    rw [joined] at grown
    exact ⟨accounted, accounted.queue_le.trans_lt (grown.trans_lt few)⟩

/-- A single reader that came before a late event takes its reconciliation. -/
theorem notified_iff_undisturbed_single
    : let history : LocalSnapshotHistory TestSnapshot TestEvent :=
        (LocalSnapshotHistory.new ⟨1, 0, [], 0⟩ 0 60).1
      let steps : List (Observation TestSnapshot TestEvent) :=
        [.perform (.applyEvent (.positive 1 8 1 1)), .query 9,
          .perform (.applyEvent (.positive 1 5 2 2)), .tryRecv 0]
      let state := (unobserved history).run steps
      state.Notified ∧ state.readers = [⟨0, [⟨1, 5, 8⟩]⟩] := by
  intro history steps state
  have always := (notified_iff_undisturbed history steps (by decide)).mpr
    ⟨trivial, fun _ => rfl, trivial, fun _ _ => rfl, trivial⟩
  exact ⟨always steps ⟨[], List.append_nil steps⟩, by decide⟩

/-- Of two readers that came before a late event, the second gets nothing once the first has
taken the reconciliation; and a reader that comes after one that nobody took gets it.
-/
theorem notified_fails_for_second_and_late
    : let history : LocalSnapshotHistory TestSnapshot TestEvent :=
        (LocalSnapshotHistory.new ⟨1, 0, [], 0⟩ 0 60).1
      let first : Observation TestSnapshot TestEvent :=
        .perform (.applyEvent (.positive 1 8 1 1))
      let behind : Observation TestSnapshot TestEvent :=
        .perform (.applyEvent (.positive 1 5 2 2))
      let shared := (unobserved history).run [first, .query 9, .query 9, behind, .tryRecv 0]
      let late := (unobserved history).run [first, behind, .query 9]
      (shared.attempted = [⟨1, 5, 8⟩] ∧ shared.channel.queue = []
        ∧ shared.readers = [⟨0, [⟨1, 5, 8⟩]⟩, ⟨0, []⟩] ∧ ¬ shared.Notified)
      ∧ (late.attempted = [⟨1, 5, 8⟩] ∧ late.readers = [⟨1, []⟩]
        ∧ late.channel.queue = [⟨1, 5, 8⟩] ∧ ¬ late.Notified) := by
  unfold Notified
  decide

end ObservedHistory

end Contime
