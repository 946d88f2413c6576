import Contime.Library.BTreeMap
import Contime.Library.PeriodicReplay

/-! What a history is for, apart from how it is stored: a base state, a log of events in
key order, and the state before any key. Checkpoints do not occur here.
-/

open SortedEntries PeriodicReplay

universe u v w

/-- A base state and the log of events to apply to it in key order. -/
structure Timeline (κ : Type u) (ε : Type v) (σ : Type w) [LinearOrder κ] where
  base : σ
  log : BTreeMap κ ε

namespace Timeline
variable {κ : Type u} {ε : Type v} {σ : Type w} [LinearOrder κ]

/-- Log an event under its key; a key in use keeps its event. -/
def deliver (timeline : Timeline κ ε σ) (entry : κ × ε) : Timeline κ ε σ :=
  { timeline with log := timeline.log.insertNew entry.1 entry.2 }

/-- The state just before a key: all earlier events applied once each, in key order. -/
def stateBefore (step : σ → ε → σ) (timeline : Timeline κ ε σ) (key : κ) : σ :=
  replay step timeline.base (below key timeline.log.entries)

/-- Deliveries fill the log and leave the base alone. -/
theorem foldl_deliver (timeline : Timeline κ ε σ) (deliveries : List (κ × ε))
    : deliveries.foldl deliver timeline
      = { timeline with
          log := deliveries.foldl (fun log entry => log.insertNew entry.1 entry.2)
            timeline.log } := by
  induction deliveries generalizing timeline with
  | nil => rfl
  | cons first rest ih => exact ih _

/-- The order and the repetition of consistent deliveries leave no trace in a timeline. -/
theorem foldl_deliver_eq_of_same_members (base : σ) {left right : List (κ × ε)}
    (consistent : BTreeMap.Consistent left) (same : ∀ entry, entry ∈ left ↔ entry ∈ right)
    : left.foldl deliver ⟨base, .empty⟩ = right.foldl deliver ⟨base, .empty⟩ := by
  rw [foldl_deliver, foldl_deliver]
  exact congrArg (Timeline.mk base) (BTreeMap.ofList_eq_of_same_members consistent same)

end Timeline
