import Contime.History.Runs
import Contime.Model.TestFixtures

/-! Repeated deliveries. A stored event changes nothing when it comes again, but a repeat
behind the latest event is announced like a late new one.
-/

open SortedEntries PeriodicReplay

namespace Contime

universe u v
variable {S : Type u} {E : Type v} [Event E] [Snapshot S E] [ApplyEvent E S]

namespace LocalSnapshotHistory
variable {history : LocalSnapshotHistory S E} {event : E} {operation : Operation S E}

/-- The operation delivers an event that is stored already. -/
def Repeats (history : LocalSnapshotHistory S E) : Operation S E → Prop
  | .applyEvent event => ContimeKey.fromEvent event ∈ history.events.keys
  | _ => False

instance (history : LocalSnapshotHistory S E) : DecidablePred history.Repeats
  | .applyEvent event =>
      decidable_of_iff (history.events.containsKey (ContimeKey.fromEvent event) = true)
        BTreeMap.containsKey_iff
  | .applySnapshot _ => inferInstanceAs (Decidable False)
  | .advance _ => inferInstanceAs (Decidable False)

/-- The operation delivers an event with a time before that of some stored event. -/
def BehindLatest (history : LocalSnapshotHistory S E) : Operation S E → Prop
  | .applyEvent event => ∃ entry ∈ history.events.entries, Event.time event < entry.1.time
  | _ => False

/-- A run with the repeated deliveries left out. -/
def withoutRepeats (history : LocalSnapshotHistory S E)
    : List (Operation S E) → List (Operation S E)
  | [] => []
  | operation :: rest =>
      let others := withoutRepeats (history.perform operation).1 rest
      if history.Repeats operation then others else operation :: others

/-- The reports of a run with those of the repeated deliveries left out. -/
def reportsWithoutRepeats (history : LocalSnapshotHistory S E)
    : List (Operation S E) → List Report
  | [] => []
  | operation :: rest =>
      let others := reportsWithoutRepeats (history.perform operation).1 rest
      if history.Repeats operation then others
      else (history.perform operation).2 :: others

omit [Event E] [Snapshot S E] [ApplyEvent E S] in
/-- The latest stored time is the largest one, as keys order by time first. -/
theorem latestEventTime_gt_iff {time : Time}
    : (∃ latest, history.latestEventTime = some latest ∧ time < latest)
      ↔ ∃ entry ∈ history.events.entries, time < entry.1.time := by
  have ascending := history.events.ascending
  rw [latestEventTime]
  rcases List.eq_nil_or_concat history.events.entries with none | ⟨front, last, shape⟩
  · simp [none]
  · rw [shape, List.concat_eq_append] at ascending ⊢
    simp only [List.getLast?_concat, Option.map_some, Option.some_inj]
    constructor
    · intro ahead
      obtain ⟨_, rfl, later⟩ := ahead
      exact ⟨last, by simp, later⟩
    · intro ahead
      obtain ⟨entry, member, later⟩ := ahead
      refine ⟨_, rfl, ?_⟩
      exact Int64.lt_of_lt_of_le later (ContimeKey.time_le_of_le (ascending.le_last member))

/-- An application announces itself exactly when its time lies before a stored one. -/
theorem applyEvent_reconciliation_eq_none_iff
    : (history.applyEvent event).2.reconciliation = none
      ↔ ¬ history.BehindLatest (.applyEvent event) := by
  rw [BehindLatest, ← latestEventTime_gt_iff, applyEvent]
  dsimp only
  split
  next latest found =>
    split
    next later => simp [found, later]
    next later => simp [found, later]
  next none => simp [none]

/-- A repeat leaves the history alone and frees or takes no memory. -/
theorem perform_repeat (again : history.Repeats operation)
    : (history.perform operation).1 = history
      ∧ (history.perform operation).2.bytesDelta = 0 := by
  cases operation with
  | applyEvent event => exact applyEvent_stored history event again
  | applySnapshot snapshot => exact again.elim
  | advance time => exact again.elim

/-- A repeat goes unnoticed exactly when it does not lie behind the latest event. -/
theorem perform_repeat_iff (again : history.Repeats operation)
    : history.perform operation = (history, { bytesDelta := 0, reconciliation := none })
      ↔ ¬ history.BehindLatest operation := by
  cases operation with
  | applyEvent event =>
      obtain ⟨same, delta⟩ := applyEvent_stored history event again
      rw [← applyEvent_reconciliation_eq_none_iff]
      constructor
      · exact fun unnoticed => congrArg (fun answer => answer.2.reconciliation) unnoticed
      · intro silent
        refine Prod.ext same ?_
        change (history.applyEvent event).2 = _
        rw [← delta, ← silent]
  | applySnapshot snapshot => exact again.elim
  | advance time => exact again.elim

/-- Repeats change neither the history nor the other reports of a run. -/
theorem run_withoutRepeats (history : LocalSnapshotHistory S E)
    (operations : List (Operation S E))
    : history.run operations = history.run (history.withoutRepeats operations)
      ∧ history.reportsWithoutRepeats operations
        = history.reports (history.withoutRepeats operations) := by
  induction operations generalizing history with
  | nil => exact ⟨rfl, rfl⟩
  | cons operation rest ih =>
      obtain ⟨same, reports_eq⟩ := ih (history.perform operation).1
      have first : history.run (operation :: rest)
          = ((history.perform operation).1).run rest := rfl
      rw [first, withoutRepeats, reportsWithoutRepeats]
      split
      next again =>
        rw [(perform_repeat again).1] at same reports_eq ⊢
        exact ⟨same, reports_eq⟩
      next => exact ⟨same, congrArg _ reports_eq⟩

/-- In every run, repeats go unnoticed (unchanged history, zero delta, no reconciliation) if and
only if none of them lies behind the latest event it meets. The run without them ends in the same
history, and its reports are those of all other operations. By cases on one repeat, and induction
over the run.
-/
theorem redelivery_unnoticed_iff (history : LocalSnapshotHistory S E)
    (operations : List (Operation S E))
    : let unnoticed (met : LocalSnapshotHistory S E) (operation : Operation S E) : Prop :=
        met.Repeats operation
        → met.perform operation = (met, { bytesDelta := 0, reconciliation := none })
      let upToDate (met : LocalSnapshotHistory S E) (operation : Operation S E) : Prop :=
        met.Repeats operation → ¬ met.BehindLatest operation
      (Transducer.Each perform unnoticed history operations
        ↔ Transducer.Each perform upToDate history operations)
      ∧ history.run operations = history.run (history.withoutRepeats operations)
      ∧ history.reportsWithoutRepeats operations
        = history.reports (history.withoutRepeats operations) := by
  intro unnoticed upToDate
  refine ⟨Transducer.each_congr (fun met operation => ?_), run_withoutRepeats history _⟩
  exact forall_congr' perform_repeat_iff

/-- A repeat of the earlier one of two events announces a reconciliation of what is stored.
-/
theorem redelivery_announced
    : let history : LocalSnapshotHistory TestSnapshot TestEvent :=
        (newWithInterval ⟨1, 0, [], 0⟩ 0 60 CHECKPOINT_INTERVAL (by decide)).applyEvents
          [.positive 1 5 0 1, .positive 1 3 0 1]
      let again : TestEvent := .positive 1 3 0 1
      ContimeKey.fromEvent again ∈ history.events.keys
      ∧ (history.applyEvent again).2 = ⟨0, some ⟨1, 3, 5⟩⟩ := by
  decide

end LocalSnapshotHistory

end Contime
