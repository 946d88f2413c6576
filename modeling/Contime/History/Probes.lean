import Contime.History.Queries
import Contime.Model.TestFixtures

/-! Snapshot models that make visible what a replay does. Where a law of queries fails, one
of them tells the two answers apart.
-/

open PeriodicReplay

namespace Contime

universe u v

/-- Counts the events applied to it. -/
structure Tally (E : Type v) : Type u where
  id : SnapshotId
  time : Time
  applied : Nat
  deriving DecidableEq

instance {E : Type v} [Event E] : Snapshot (Tally.{u} E) E where
  id tally := tally.id
  time tally := tally.time
  setTime tally time := { tally with time }
  conservativeSize _ := 32
  fromEvent event := { id := Event.id event, time := Event.time event, applied := 0 }

instance {E : Type v} : ApplyEvent E (Tally.{u} E) where
  snapshotId _ := 0
  applyTo _ tally := { tally with applied := tally.applied + 1 }

section
variable {E : Type v} [Event E]

theorem Tally.setTimeOverwrites : SetTimeOverwrites (Tally.{u} E) E := fun _ _ _ => rfl

theorem Tally.timeBlind : TimeBlind (Tally.{u} E) E := fun _ _ _ => rfl

omit [Event E] in
/-- A replay counts every entry. -/
theorem Tally.applied_replay (start : Tally.{u} E) (entries : List (ContimeKey × E))
    : (replay queryStep start entries).applied = start.applied + entries.length := by
  induction entries generalizing start with
  | nil => rfl
  | cons entry rest ih =>
      rw [replay_cons, ih, List.length_cons]
      simp only [queryStep, ApplyEvent.applyTo]
      omega

/-- An answer counts every replayed entry. -/
theorem Tally.applied_answer (interval : Nat) (start : Tally.{u} E)
    (entries : List (ContimeKey × E)) (time : Time)
    : (Snapshot.setTime (settledReplay interval start entries) time).applied
      = start.applied + entries.length := by
  rw [settledReplay_of_blind Tally.setTimeOverwrites Tally.timeBlind]
  exact applied_replay start entries

/-- A canonical history answers with the count of the events before the query. -/
theorem LocalSnapshotHistory.Canonical.tally_snapshotAt
    {history : LocalSnapshotHistory (Tally.{u} E) E} {time : Time}
    (canonical : history.Canonical)
    (absent : history.queryKey time ∉ history.checkpoints.keys)
    : (history.snapshotAt time).map Tally.applied
      = some (history.baseSnapshot.applied
          + (SortedEntries.below (history.queryKey time) history.events.entries).length) := by
  rw [canonical.snapshotAt absent]
  exact congrArg some (Tally.applied_answer ..)

end

/-- Sums a weight of the events applied to it. -/
structure Weighed {E : Type v} (weight : E → Nat) : Type u where
  id : SnapshotId
  time : Time
  total : Nat

section
variable {E : Type v} [Event E] {weight : E → Nat}

instance : Snapshot (Weighed.{u} weight) E where
  id weighed := weighed.id
  time weighed := weighed.time
  setTime weighed time := { weighed with time }
  conservativeSize _ := 32
  fromEvent event := { id := Event.id event, time := Event.time event, total := 0 }

omit [Event E] in
instance : ApplyEvent E (Weighed.{u} weight) where
  snapshotId _ := 0
  applyTo event weighed := { weighed with total := weighed.total + weight event }

/-- An answer sums the weights of every replayed entry. -/
theorem Weighed.total_answer (interval : Nat) (start : Weighed.{u} weight)
    (entries : List (ContimeKey × E)) (time : Time)
    : (Snapshot.setTime (settledReplay interval start entries) time).total
      = start.total + (entries.map (fun entry => weight entry.2)).sum := by
  have summed (start : Weighed.{u} weight) (entries : List (ContimeKey × E))
      : (replay queryStep start entries).total
        = start.total + (entries.map (fun entry => weight entry.2)).sum := by
    induction entries generalizing start with
    | nil => rfl
    | cons entry rest ih =>
        rw [replay_cons, ih, List.map_cons, List.sum_cons]
        simp only [queryStep, ApplyEvent.applyTo]
        omega
  have overwrites : SetTimeOverwrites (Weighed.{u} weight) E := fun _ _ _ => rfl
  have blind : TimeBlind (Weighed.{u} weight) E := fun _ _ _ => rfl
  rw [settledReplay_of_blind overwrites blind]
  exact summed start entries

end

/-- Counts how often its time is set. -/
structure MoveCount (E : Type v) : Type u where
  id : SnapshotId
  time : Time
  moves : Nat
  deriving DecidableEq

instance {E : Type v} [Event E] : Snapshot (MoveCount.{u} E) E where
  id counter := counter.id
  time counter := counter.time
  setTime counter time := { counter with time, moves := counter.moves + 1 }
  conservativeSize _ := 32
  fromEvent event := { id := Event.id event, time := Event.time event, moves := 0 }

instance {E : Type v} : ApplyEvent E (MoveCount.{u} E) where
  snapshotId _ := 0
  applyTo _ counter := counter

section
variable {E : Type v} [Event E]

/-- The answer's replay sets the time once for every settled entry. -/
theorem MoveCount.moves_settledReplay (interval : Nat) (start : MoveCount.{u} E)
    (entries : List (ContimeKey × E))
    : (settledReplay interval start entries).moves
      = start.moves + (settled interval entries).length := by
  have moving (start : MoveCount E) (entries : List (ContimeKey × E))
      : (replay replayStep start entries).moves = start.moves + entries.length := by
    induction entries generalizing start with
    | nil => rfl
    | cons entry rest ih =>
        rw [replay_cons, ih, List.length_cons]
        simp only [replayStep, ApplyEvent.applyTo, Snapshot.setTime]
        omega
  have still (start : MoveCount E) (entries : List (ContimeKey × E))
      : replay queryStep start entries = start := by
    induction entries with
    | nil => rfl
    | cons entry rest ih => exact ih
  rw [settledReplay, still, moving]

end

/-- Counts the events that find the time where an earlier event left it. -/
structure StaleCount (E : Type v) : Type u where
  id : SnapshotId
  clock : Option Time
  stale : Nat
  deriving DecidableEq

instance {E : Type v} [Event E] : Snapshot (StaleCount.{u} E) E where
  id counter := counter.id
  time counter := counter.clock.getD 0
  setTime counter time := { counter with clock := some time }
  conservativeSize _ := 32
  fromEvent event := { id := Event.id event, clock := some (Event.time event), stale := 0 }

instance {E : Type v} : ApplyEvent E (StaleCount.{u} E) where
  snapshotId _ := 0
  applyTo _ counter :=
    { counter with
      clock := none
      stale := if counter.clock.isNone then counter.stale + 1 else counter.stale }

section
variable {E : Type v} [Event E]

theorem StaleCount.setTimeOverwrites : SetTimeOverwrites (StaleCount.{u} E) E :=
  fun _ _ _ => rfl

/-- In the answer's replay every pending entry but the first finds a stale time. -/
theorem StaleCount.stale_settledReplay (interval : Nat) (id : SnapshotId) (time : Time)
    (count : Nat) (entries : List (ContimeKey × E))
    : (settledReplay interval (StaleCount.mk id (some time) count : StaleCount.{u} E)
        entries).stale
      = count + ((pending interval entries).length - 1) := by
  have moving (start : StaleCount E) (set : start.clock ≠ none)
      (entries : List (ContimeKey × E))
      : (replay replayStep start entries).clock ≠ none
        ∧ (replay replayStep start entries).stale = start.stale := by
    induction entries generalizing start with
    | nil => exact ⟨set, rfl⟩
    | cons entry rest ih =>
        obtain ⟨clock, stale⟩ := ih (replayStep start entry.2)
          (by simp [replayStep, Snapshot.setTime])
        refine ⟨clock, stale.trans ?_⟩
        simp [replayStep, Snapshot.setTime, ApplyEvent.applyTo, set]
  have unset (start : StaleCount E) (open_ : start.clock = none)
      (entries : List (ContimeKey × E))
      : (replay queryStep start entries).stale = start.stale + entries.length := by
    induction entries generalizing start with
    | nil => rfl
    | cons entry rest ih =>
        rw [replay_cons, ih _ rfl, List.length_cons]
        simp only [queryStep, ApplyEvent.applyTo, open_, Option.isNone_none, if_true]
        omega
  obtain ⟨clock, stale⟩ :=
    moving ⟨id, some time, count⟩ (Option.some_ne_none _) (settled interval entries)
  rw [settledReplay]
  generalize replay replayStep (⟨id, some time, count⟩ : StaleCount E)
    (settled interval entries) = middle at clock stale ⊢
  cases pending interval entries with
  | nil => simpa using stale
  | cons entry rest =>
      rw [replay_cons, unset _ rfl]
      simp [queryStep, ApplyEvent.applyTo, clock, stale]

end

/-- A continuous-time model: each event adds the time passed since the last change. -/
structure Elapsed where
  id : SnapshotId
  time : Time
  total : Int64
  deriving DecidableEq, Repr

instance : Snapshot Elapsed TestEvent where
  id elapsed := elapsed.id
  time elapsed := elapsed.time
  setTime elapsed time := { elapsed with time }
  conservativeSize _ := 32
  fromEvent event := { id := event.snapshotId, time := event.time, total := 0 }

instance : ApplyEvent TestEvent Elapsed where
  snapshotId := TestEvent.snapshotId
  applyTo event elapsed :=
    { elapsed with total := elapsed.total + (event.time - elapsed.time) }

end Contime
