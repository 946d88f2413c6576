import Contime.Abstract.Timeline
import Contime.History.Canonical

/-! Runs of events: what they keep, what they fill, and what their deltas add up to. -/

open SortedEntries PeriodicReplay

namespace Contime

universe u v
variable {S : Type u} {E : Type v} [Event E] [Snapshot S E] [ApplyEvent E S]

/-- The sum of the returned memory deltas, in the `i64` arithmetic of the code. -/
def totalDelta (reports : List Report) : Int64 :=
  reports.foldl (fun total report => total + report.bytesDelta) 0

/-- Two histories agree on everything but the two maps. -/
structure SameSettings (left right : LocalSnapshotHistory S E) : Prop where
  snapshotId : left.snapshotId = right.snapshotId
  baseSnapshot : left.baseSnapshot = right.baseSnapshot
  eventsEmptied : left.eventsEmptied = right.eventsEmptied
  checkpointInterval : left.checkpointInterval = right.checkpointInterval
  currentTime : left.currentTime = right.currentTime
  lowerTimeHorizonDelta : left.lowerTimeHorizonDelta = right.lowerTimeHorizonDelta

omit [Event E] [Snapshot S E] [ApplyEvent E S] in
theorem SameSettings.refl (history : LocalSnapshotHistory S E)
    : SameSettings history history :=
  ⟨rfl, rfl, rfl, rfl, rfl, rfl⟩

omit [Event E] [Snapshot S E] [ApplyEvent E S] in
theorem SameSettings.trans {first second third : LocalSnapshotHistory S E}
    (hl : SameSettings first second) (hr : SameSettings second third)
    : SameSettings first third where
  snapshotId := hl.snapshotId.trans hr.snapshotId
  baseSnapshot := hl.baseSnapshot.trans hr.baseSnapshot
  eventsEmptied := hl.eventsEmptied.trans hr.eventsEmptied
  checkpointInterval := hl.checkpointInterval.trans hr.checkpointInterval
  currentTime := hl.currentTime.trans hr.currentTime
  lowerTimeHorizonDelta := hl.lowerTimeHorizonDelta.trans hr.lowerTimeHorizonDelta

omit [Event E] [Snapshot S E] [ApplyEvent E S] in
theorem SameSettings.symm {left right : LocalSnapshotHistory S E}
    (same : SameSettings left right)
    : SameSettings right left :=
  ⟨same.1.symm, same.2.symm, same.3.symm, same.4.symm, same.5.symm, same.6.symm⟩

omit [Event E] [Snapshot S E] [ApplyEvent E S] in
/-- Settings and both maps make up a history. -/
theorem SameSettings.history_eq {left right : LocalSnapshotHistory S E}
    (settings : SameSettings left right) (events : left.events = right.events)
    (checkpoints : left.checkpoints = right.checkpoints)
    : left = right :=
  LocalSnapshotHistory.ext settings.snapshotId settings.baseSnapshot checkpoints events
    settings.eventsEmptied settings.checkpointInterval settings.currentTime
    settings.lowerTimeHorizonDelta

namespace LocalSnapshotHistory

theorem applyEvent_settings (history : LocalSnapshotHistory S E) (event : E)
    : SameSettings (history.applyEvent event).1 history :=
  ⟨rfl, rfl, rfl, rfl, rfl, rfl⟩

theorem applySnapshot_settings (history : LocalSnapshotHistory S E) (snapshot : S)
    : SameSettings (history.applySnapshot snapshot).1 history := by
  unfold applySnapshot
  split <;> exact ⟨rfl, rfl, rfl, rfl, rfl, rfl⟩

@[simp] theorem applyEvents_nil (history : LocalSnapshotHistory S E)
    : history.applyEvents [] = history := rfl

@[simp] theorem applyEvents_cons (history : LocalSnapshotHistory S E) (event : E)
    (rest : List E)
    : history.applyEvents (event :: rest) = (history.applyEvent event).1.applyEvents rest :=
  rfl

theorem applyEvents_append (history : LocalSnapshotHistory S E) (first second : List E)
    : history.applyEvents (first ++ second)
      = (history.applyEvents first).applyEvents second := by
  simp [applyEvents, run]

/-- No operation changes the id. -/
@[simp] theorem perform_snapshotId (history : LocalSnapshotHistory S E)
    (operation : Operation S E)
    : (history.perform operation).1.snapshotId = history.snapshotId := by
  cases operation with
  | applyEvent event => rfl
  | applySnapshot snapshot => exact (applySnapshot_settings history snapshot).snapshotId
  | advance time => rfl

@[simp] theorem run_snapshotId (history : LocalSnapshotHistory S E)
    (operations : List (Operation S E))
    : (history.run operations).snapshotId = history.snapshotId := by
  induction operations generalizing history with
  | nil => rfl
  | cons operation rest ih => exact (ih _).trans (perform_snapshotId history operation)

/-- No operation changes the interval. -/
theorem perform_checkpointInterval (history : LocalSnapshotHistory S E)
    (operation : Operation S E)
    : (history.perform operation).1.checkpointInterval = history.checkpointInterval := by
  cases operation with
  | applyEvent event => rfl
  | applySnapshot snapshot => exact (applySnapshot_settings history snapshot).checkpointInterval
  | advance time => rfl

/-- No run changes the interval. -/
@[simp] theorem run_checkpointInterval (history : LocalSnapshotHistory S E)
    (operations : List (Operation S E))
    : (history.run operations).checkpointInterval = history.checkpointInterval := by
  induction operations generalizing history with
  | nil => rfl
  | cons operation rest ih => exact (ih _).trans (perform_checkpointInterval history operation)

/-- A run of events applies them one after the other. -/
theorem applyEvents_eq_final (history : LocalSnapshotHistory S E) (events : List E)
    : history.applyEvents events = Transducer.final applyEvent history events := by
  induction events generalizing history with
  | nil => rfl
  | cons event rest ih => exact ih _

/-- Every delivery of a run meets a condition on the history it meets. -/
abbrev EachDelivery (condition : LocalSnapshotHistory S E → E → Prop)
    (history : LocalSnapshotHistory S E) (events : List E)
    : Prop :=
  Transducer.Each applyEvent condition history events

/-- An invariant of every delivery that meets the condition holds after a run of them. -/
theorem applyEvents_invariant {condition : LocalSnapshotHistory S E → E → Prop}
    {holds : LocalSnapshotHistory S E → Prop}
    (kept : ∀ history event, condition history event → holds history
      → holds (history.applyEvent event).1)
    {history : LocalSnapshotHistory S E} (initially : holds history) {events : List E}
    (each : EachDelivery condition history events)
    : holds (history.applyEvents events) := by
  rw [applyEvents_eq_final]
  exact each.invariant kept initially

/-- A run of events keeps the base, the id, the interval and the clock. -/
theorem applyEvents_settings (history : LocalSnapshotHistory S E) (events : List E)
    : SameSettings (history.applyEvents events) history := by
  induction events generalizing history with
  | nil => exact .refl history
  | cons event rest ih => exact (ih _).trans (applyEvent_settings history event)

@[simp] theorem applyEvents_snapshotId (history : LocalSnapshotHistory S E) (events : List E)
    : (history.applyEvents events).snapshotId = history.snapshotId :=
  (applyEvents_settings history events).snapshotId

@[simp] theorem applyEvents_baseSnapshot (history : LocalSnapshotHistory S E)
    (events : List E)
    : (history.applyEvents events).baseSnapshot = history.baseSnapshot :=
  (applyEvents_settings history events).baseSnapshot

/-- A run of events fills the event map in delivery order, the first of a key first. -/
theorem applyEvents_events (history : LocalSnapshotHistory S E) (events : List E)
    : (history.applyEvents events).events
      = (events.map keyed).foldl (fun map entry => map.insertNew entry.1 entry.2)
          history.events := by
  induction events generalizing history with
  | nil => rfl
  | cons event rest ih =>
      rw [applyEvents_cons, ih, applyEvent_events]
      rfl

/-- The timeline that a history stores, checkpoints apart. -/
def timeline (history : LocalSnapshotHistory S E) : Timeline ContimeKey E S :=
  ⟨history.baseSnapshot, history.events⟩

/-- A run of events delivers them to the stored timeline. -/
theorem applyEvents_timeline (history : LocalSnapshotHistory S E) (events : List E)
    : (history.applyEvents events).timeline
      = (events.map keyed).foldl Timeline.deliver history.timeline := by
  rw [Timeline.foldl_deliver, timeline, applyEvents_baseSnapshot, applyEvents_events]
  rfl

/-- Runs of events stay canonical. -/
theorem Canonical.applyEvents {history : LocalSnapshotHistory S E}
    (canonical : history.Canonical) (events : List E)
    : (history.applyEvents events).Canonical := by
  induction events generalizing history with
  | nil => exact canonical
  | cons event rest ih => exact ih (canonical.applyEvent event)

/-- Deltas that each say what a measure grew by add up to its growth over the run. -/
theorem totalDelta_reports {measure : LocalSnapshotHistory S E → Int64}
    {history : LocalSnapshotHistory S E} {operations : List (Operation S E)}
    (exact
      : Transducer.Each perform
          (fun met operation =>
            (met.perform operation).2.bytesDelta
              = measure (met.perform operation).1 - measure met)
          history operations)
    : totalDelta (history.reports operations)
      = measure (history.run operations) - measure history := by
  have general (operations : List (Operation S E)) (history : LocalSnapshotHistory S E)
      (total : Int64)
      (exact
        : Transducer.Each perform
            (fun met operation =>
              (met.perform operation).2.bytesDelta
                = measure (met.perform operation).1 - measure met)
            history operations)
      : (history.reports operations).foldl (fun total report => total + report.bytesDelta) total
        = total + (measure (history.run operations) - measure history) := by
    induction operations generalizing history total with
    | nil =>
        simp only [reports, run, Transducer.outputs_nil, Transducer.final_nil, List.foldl_nil]
        grind
    | cons operation rest ih =>
        obtain ⟨first, later⟩ := exact
        simp only [reports, run, Transducer.outputs_cons, Transducer.final_cons, List.foldl_cons]
        rw [← reports, ← run, ih _ _ later, first]
        grind
  rw [totalDelta, general operations history 0 exact]
  grind

/-- In a canonical history, each of a run of events reports what the stored size grew by. -/
theorem Canonical.each_exact {history : LocalSnapshotHistory S E}
    (canonical : history.Canonical) (events : List E)
    : Transducer.Each perform
        (fun met operation =>
          (met.perform operation).2.bytesDelta
            = Int64.ofNat (met.perform operation).1.storedSize - Int64.ofNat met.storedSize)
        history (events.map .applyEvent) := by
  induction events generalizing history with
  | nil => trivial
  | cons event rest ih =>
      refine ⟨?_, ih (canonical.applyEvent event)⟩
      refine applyEvent_bytesDelta (fun _ fresh shared => ?_)
      obtain ⟨checkpoint, member⟩ := BTreeMap.mem_keys.mp shared
      exact fresh (canonical.keys_subset member)

/-- The deltas of a run of events add up to the growth of the stored size. -/
theorem Canonical.totalDelta {history : LocalSnapshotHistory S E}
    (canonical : history.Canonical) (events : List E)
    : totalDelta (history.reports (events.map .applyEvent))
      = Int64.ofNat (history.applyEvents events).storedSize
        - Int64.ofNat history.storedSize :=
  totalDelta_reports (canonical.each_exact events)

variable (snapshot : S) (currentTime horizon : Time) (interval : Nat)
  (positive : 0 < interval)

omit [Event E] [ApplyEvent E S] in
@[simp] theorem newWithInterval_baseSnapshot
    : (newWithInterval snapshot currentTime horizon interval positive).baseSnapshot
      = Snapshot.setTime snapshot 0 := rfl

omit [Event E] [ApplyEvent E S] in
@[simp] theorem newWithInterval_snapshotId
    : (newWithInterval snapshot currentTime horizon interval positive).snapshotId
      = Snapshot.id snapshot := rfl

omit [Event E] [ApplyEvent E S] in
@[simp] theorem newWithInterval_checkpointInterval
    : (newWithInterval snapshot currentTime horizon interval positive).checkpointInterval
      = interval := rfl

theorem newWithInterval_canonical
    : (newWithInterval (E := E) snapshot currentTime horizon interval positive).Canonical :=
  rfl

/-- A new history stores what was delivered, the first event of a key. -/
theorem newWithInterval_events (delivered : List E)
    : ((newWithInterval snapshot currentTime horizon interval positive).applyEvents
        delivered).events
      = BTreeMap.ofList (delivered.map keyed) :=
  applyEvents_events _ _

/-- The timeline of a new history: its base, and the delivered events. -/
theorem newWithInterval_timeline (delivered : List E)
    : ((newWithInterval snapshot currentTime horizon interval positive).applyEvents
        delivered).timeline
      = ⟨Snapshot.setTime snapshot 0, BTreeMap.ofList (delivered.map keyed)⟩ := by
  rw [applyEvents_timeline, Timeline.foldl_deliver]
  rfl

/-- A new history uses the keys of the delivered events. -/
theorem newWithInterval_mem_keys {delivered : List E} {key : ContimeKey}
    : key
        ∈ ((newWithInterval snapshot currentTime horizon interval positive).applyEvents
            delivered).events.keys
      ↔ ∃ event ∈ delivered, ContimeKey.fromEvent event = key := by
  rw [newWithInterval_events, BTreeMap.mem_keys_ofList]
  simp [keyed]

end LocalSnapshotHistory

end Contime
