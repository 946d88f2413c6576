import Contime.Worker.Projection
import Contime.History.Lasting

/-! The inputs of one id, apart from the reply channels of their messages. The history of the id is
what they make of it, one after the other.
-/

namespace Contime

universe u v
variable {SL : Type u} {EL : Type v} [Event EL] [Snapshot SL EL] [ApplyEvent EL SL]

/-- What one message brings to the history of an id. -/
inductive Input (SL : Type u) (EL : Type v) where
  | event (lane : EL) (initial : SL)
  | snapshot (lane : SL)
  | advance (time : Time)

omit [Event EL] [ApplyEvent EL SL] in
/-- What a message brings to the history of this id, if anything. -/
def WorkerInbound.inputFor (snapshotId : SnapshotId) : WorkerInbound SL EL → Option (Input SL EL)
  | .event target lane initial _ => if target = snapshotId then some (.event lane initial) else none
  | .snapshot lane _ => if Snapshot.id lane = snapshotId then some (.snapshot lane) else none
  | .advanceTime time _ => some (.advance time)
  | .snapshotAt _ _ _ | .shutdown => none

/-- The history of an id after an input. -/
def Input.take (lowerTimeHorizonDelta : Time) (current : Option (LocalSnapshotHistory SL EL))
    : Input SL EL → Option (LocalSnapshotHistory SL EL)
  | .event lane initial =>
      let history := current.getD (LocalSnapshotHistory.new initial 0 lowerTimeHorizonDelta).1
      some (history.applyEvent lane).1
  | .snapshot lane =>
      match current with
      | some history => some (history.applySnapshot lane).1
      | none => some (LocalSnapshotHistory.new lane 0 lowerTimeHorizonDelta).1
  | .advance time => current.map (fun history => (history.advance time).1)

/-- A message changes the history of an id by its input alone. -/
theorem ownHistory_eq_take (delta : Time) (snapshotId : SnapshotId)
    (current : Option (LocalSnapshotHistory SL EL)) (message : WorkerInbound SL EL)
    : ownHistory delta snapshotId current message
      = (message.inputFor snapshotId).toList.foldl (Input.take delta) current := by
  cases message with
  | event target event initial reply =>
      simp only [ownHistory, WorkerInbound.inputFor]
      split <;> rfl
  | snapshot snapshot reply =>
      simp only [ownHistory, WorkerInbound.inputFor]
      split <;> rfl
  | advanceTime time reply => rfl
  | snapshotAt target time reply => rfl
  | shutdown => rfl

namespace Input
variable {delta : Time} {history : LocalSnapshotHistory SL EL}

omit [Event EL] [Snapshot SL EL] [ApplyEvent EL SL] in
/-- The snapshot that an input may start a history from. -/
def origin : Input SL EL → Option SL
  | .event _ initial => some initial
  | .snapshot lane => some lane
  | .advance _ => none

omit [Event EL] [Snapshot SL EL] [ApplyEvent EL SL] in
/-- What an input does to a history that is there already. -/
def operation : Input SL EL → Operation SL EL
  | .event lane _ => .applyEvent lane
  | .snapshot lane => .applySnapshot lane
  | .advance time => .advance time

theorem take_some (input : Input SL EL)
    : input.take delta (some history) = some (history.perform input.operation).1 := by
  cases input with
  | event | snapshot | advance => rfl

/-- A history that inputs make stores only what all their snapshots are, as long as it lasts. -/
theorem foldl_take_storesOnly {kept : SL → Prop} (lasting : Lasting EL kept)
    {inputs : List (Input SL EL)}
    (origins : ∀ input ∈ inputs, ∀ snapshot, input.origin = some snapshot → kept snapshot)
    {current : Option (LocalSnapshotHistory SL EL)}
    (before : ∀ history, current = some history → history.StoresOnly kept)
    (made : inputs.foldl (take delta) current = some history)
    : history.StoresOnly kept := by
  induction inputs generalizing current with
  | nil => exact before history made
  | cons input rest ih =>
      have first := origins input (.head _)
      refine ih (fun other member => origins other (.tail _ member)) ?_ made
      intro next taken
      cases input with
      | event lane initial =>
          obtain rfl := Option.some.inj taken
          refine LocalSnapshotHistory.StoresOnly.applyEvent ?_ lasting lane
          cases current with
          | none => exact .new lasting (first initial rfl) 0 delta
          | some history => exact before history rfl
      | snapshot lane =>
          cases current with
          | none =>
              obtain rfl := Option.some.inj taken
              exact .new lasting (first lane rfl) 0 delta
          | some history =>
              obtain rfl := Option.some.inj taken
              exact (before history rfl).applySnapshot lasting (first lane rfl)
      | advance time =>
          obtain ⟨history, rfl, rfl⟩ := Option.map_eq_some_iff.mp taken
          exact (before history rfl).advance time

/-- A history that inputs make stores only events of these inputs, under their keys. -/
theorem mem_events_of_foldl_take {inputs : List (Input SL EL)}
    {current : Option (LocalSnapshotHistory SL EL)}
    (made : inputs.foldl (take delta) current = some history) {entry : ContimeKey × EL}
    (member : entry ∈ history.events.entries)
    : (∃ earlier, current = some earlier ∧ entry ∈ earlier.events.entries)
      ∨ (entry = keyed entry.2 ∧ ∃ initial, .event entry.2 initial ∈ inputs) := by
  induction inputs generalizing current with
  | nil => exact Or.inl ⟨history, made, member⟩
  | cons input rest ih =>
      rcases ih made with ⟨next, taken, stored⟩ | ⟨key, initial, later⟩
      · cases input with
        | event lane initial =>
            obtain rfl := Option.some.inj taken
            rw [LocalSnapshotHistory.applyEvent_events] at stored
            rcases BTreeMap.mem_insertNew_imp stored with rfl | earlier
            · exact Or.inr ⟨rfl, initial, .head _⟩
            · cases current with
              | none => exact absurd earlier List.not_mem_nil
              | some history => exact Or.inl ⟨history, rfl, earlier⟩
        | snapshot lane =>
            cases current with
            | none =>
                obtain rfl := Option.some.inj taken
                exact absurd stored List.not_mem_nil
            | some earlier =>
                obtain rfl := Option.some.inj taken
                rw [LocalSnapshotHistory.applySnapshot_events] at stored
                exact Or.inl ⟨earlier, rfl, stored⟩
        | advance time =>
            obtain ⟨earlier, rfl, rfl⟩ := Option.map_eq_some_iff.mp taken
            exact Or.inl ⟨earlier, rfl, (SortedEntries.mem_atLeast.mp stored).1⟩
      · exact Or.inr ⟨key, initial, .tail _ later⟩

end Input

end Contime
