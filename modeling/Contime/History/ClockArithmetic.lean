import Contime.History.QuerySafety
import Contime.History.Ticks

/-! Clocks that overflow. A history prunes before the residue of the exact boundary, which lies
behind the boundary only where that is below all machine integers.
-/

open SortedEntries SignedArithmetic

namespace Contime

universe u v
variable {S : Type u} {E : Type v}

/-- The amount by which an operation advances the clock, if it does. -/
def Operation.amount : Operation S E → Option Time
  | .advance amount => some amount
  | .applyEvent _ | .applySnapshot _ => none

/-- The amounts of the advances in a run. -/
def amounts (operations : List (Operation S E)) : List Time :=
  operations.filterMap Operation.amount

/-- The exact time of a clock after the advances of a run. -/
def exactTime (currentTime : Time) (operations : List (Operation S E)) : Int :=
  currentTime.toInt + ((amounts operations).map Int64.toInt).sum

/-- The exact boundaries of the advances in a run, in order: the sum of the amounts up to each
one, less the horizon.
-/
def exactBoundaries (currentTime horizon : Time) (operations : List (Operation S E))
    : List Int :=
  (runningSums currentTime.toInt (amounts operations)).map (· - horizon.toInt)

theorem amounts_append (first second : List (Operation S E))
    : amounts (first ++ second) = amounts first ++ amounts second :=
  List.filterMap_append

@[simp] theorem amounts_advance (amount : Time) (rest : List (Operation S E))
    : amounts (.advance amount :: rest) = amount :: amounts rest := rfl

theorem exactTime_concat (currentTime : Time) (past : List (Operation S E)) (amount : Time)
    : exactTime currentTime (past ++ [.advance amount])
      = exactTime currentTime past + amount.toInt := by
  simp [exactTime, amounts, Operation.amount, Int.add_assoc]

/-- The exact times of the advances in a run are its running sums. -/
theorem exactTime_mem_runningSums (currentTime : Time) (past rest : List (Operation S E))
    (amount : Time)
    : exactTime currentTime (past ++ [.advance amount])
      ∈ runningSums currentTime.toInt (amounts (past ++ .advance amount :: rest)) := by
  rw [amounts_append, runningSums_append, amounts_advance, runningSums, exactTime_concat]
  exact List.mem_append_right _ (.head _)

namespace LocalSnapshotHistory
variable [Event E] [Snapshot S E] [ApplyEvent E S] {history : LocalSnapshotHistory S E}
  {boundaries : List Int} {amount : Time} {operations : List (Operation S E)}

/-- Every event and checkpoint at or behind all of the boundaries is still there. -/
structure KeepsFrom (boundaries : List Int) (before after : LocalSnapshotHistory S E) : Prop where
  events
    : ∀ entry ∈ before.events.entries,
      (∀ boundary ∈ boundaries, boundary ≤ entry.1.time.toInt) → entry ∈ after.events.entries
  checkpoints
    : ∀ entry ∈ before.checkpoints.entries,
      (∀ boundary ∈ boundaries, boundary ≤ entry.1.time.toInt)
      → entry ∈ after.checkpoints.entries

/-- If the operation advances the clock, neither its sum nor its difference overflows. -/
def Unwrapped (history : LocalSnapshotHistory S E) (operation : Operation S E) : Prop :=
  ∀ amount ∈ operation.amount, history.AdvanceFits amount

-----------------------------------------------------------------------------------------
-- The machine clock
-----------------------------------------------------------------------------------------

/-- A run adds the amounts of its advances to the clock and leaves the horizon alone. -/
theorem run_clock (history : LocalSnapshotHistory S E) (operations : List (Operation S E))
    : (history.run operations).currentTime
        = (amounts operations).foldl (· + ·) history.currentTime
      ∧ (history.run operations).lowerTimeHorizonDelta = history.lowerTimeHorizonDelta := by
  induction operations generalizing history with
  | nil => exact ⟨rfl, rfl⟩
  | cons operation rest ih =>
      obtain ⟨clock, horizon⟩ := ih (history.perform operation).1
      cases operation with
      | applyEvent event => exact ⟨clock, horizon⟩
      | applySnapshot snapshot =>
          have settings := applySnapshot_settings history snapshot
          rw [perform, settings.currentTime] at clock
          rw [perform, settings.lowerTimeHorizonDelta] at horizon
          exact ⟨clock, horizon⟩
      | advance amount => exact ⟨clock, horizon⟩

/-- In a run, the time before which an advance drops is the residue of its exact boundary. -/
theorem run_dropTime (base : S) (currentTime horizon : Time) (interval : Nat)
    (positive : 0 < interval) (past : List (Operation S E)) (amount : Time)
    : (((newWithInterval base currentTime horizon interval positive).run past).dropTime
        amount).toInt
      = (exactTime currentTime (past ++ [.advance amount]) - horizon.toInt).bmod (2 ^ 64) := by
  obtain ⟨clock, delta⟩ :=
    run_clock (newWithInterval base currentTime horizon interval positive) past
  rw [dropTime, clock, delta, exactTime_concat]
  exact toInt_sub_of_residue (toInt_add_of_residue (toInt_foldl_add currentTime (amounts past)))

-----------------------------------------------------------------------------------------
-- What an advance keeps
-----------------------------------------------------------------------------------------

omit [ApplyEvent E S] in
/-- An advance that drops before the residue of a boundary keeps what lies behind all of them,
unless that boundary is below all machine integers and some of it lies before the residue.
-/
theorem keepsFrom_advance_iff {boundary : Int} (last : boundary ∈ boundaries)
    (residue : (history.dropTime amount).toInt = boundary.bmod (2 ^ 64))
    : KeepsFrom boundaries history (history.advance amount).1
      ↔ (boundary < -2 ^ 63
        → ∀ key, history.InUse key
          → (∀ reached ∈ boundaries, reached ≤ key.time.toInt)
          → boundary.bmod (2 ^ 64) ≤ key.time.toInt) := by
  constructor
  · intro keeps _ key used unreached
    rw [← residue]
    rcases used with stored | checkpoint
    · obtain ⟨event, member⟩ := BTreeMap.mem_keys.mp stored
      exact (mem_advance_events.mp (keeps.events _ member unreached)).2
    · obtain ⟨snapshot, member⟩ := BTreeMap.mem_keys.mp checkpoint
      exact (mem_advance_checkpoints.mp (keeps.checkpoints _ member unreached)).2
  · intro spared
    have kept (key : ContimeKey) (used : history.InUse key)
        (unreached : ∀ reached ∈ boundaries, reached ≤ key.time.toInt)
        : (history.dropTime amount).toInt ≤ key.time.toInt := by
      rw [residue]
      rcases lt_or_ge boundary (-2 ^ 63) with below | within
      · exact spared below key used unreached
      · exact Int.le_trans (residue_le within) (unreached boundary last)
    refine ⟨fun entry member unreached => ?_, fun entry member unreached => ?_⟩
    · have used : history.InUse entry.1 := Or.inl (BTreeMap.mem_keys.mpr ⟨entry.2, member⟩)
      exact mem_advance_events.mpr ⟨member, kept entry.1 used unreached⟩
    · have used : history.InUse entry.1 := Or.inr (BTreeMap.mem_keys.mpr ⟨entry.2, member⟩)
      exact mem_advance_checkpoints.mpr ⟨member, kept entry.1 used unreached⟩

/-- Nothing overflows in a run exactly when all its exact sums and differences are machine
integers: as long as nothing has overflowed, the machine clock is the exact one.
-/
theorem each_unwrapped_iff
    : Transducer.Each perform Unwrapped history operations
      ↔ ∀ sum ∈ runningSums history.currentTime.toInt (amounts operations),
          Fits sum ∧ Fits (sum - history.lowerTimeHorizonDelta.toInt) := by
  induction operations generalizing history with
  | nil => exact iff_of_true trivial (fun _ member => absurd member List.not_mem_nil)
  | cons operation rest ih =>
      rw [Transducer.each_cons, ih]
      cases operation with
      | applyEvent event =>
          exact and_iff_right (fun _ none => absurd none (Option.not_mem_none _))
      | applySnapshot snapshot =>
          have settings := applySnapshot_settings history snapshot
          rw [perform, settings.currentTime, settings.lowerTimeHorizonDelta]
          exact and_iff_right (fun _ none => absurd none (Option.not_mem_none _))
      | advance amount =>
          have own : history.Unwrapped (.advance amount) ↔ history.AdvanceFits amount := by
            simp [Unwrapped, Operation.amount]
          have sums : amounts (.advance amount :: rest : List (Operation S E))
              = amount :: amounts rest := rfl
          rw [own, sums, runningSums, List.forall_mem_cons]
          refine and_congr_right (fun fits => ?_)
          have clock : (history.perform (.advance amount)).1.currentTime.toInt
              = history.currentTime.toInt + amount.toInt := toInt_add_of_fits fits.1
          rw [clock]
          exact .rfl

-----------------------------------------------------------------------------------------
-- Runs
-----------------------------------------------------------------------------------------

/-- Every advance of the run keeps what lies at or behind all exact boundaries up to its own.
-/
def KeepsUnreached (start : LocalSnapshotHistory S E) (operations : List (Operation S E))
    : Prop :=
  ∀ past amount rest, operations = past ++ .advance amount :: rest
    → KeepsFrom
        (exactBoundaries start.currentTime start.lowerTimeHorizonDelta
          (past ++ [.advance amount]))
        (start.run past) ((start.run past).advance amount).1

/-- In a run, one advance keeps what it should unless its exact boundary is too low. -/
theorem run_keepsFrom_iff (base : S) (currentTime horizon : Time) (interval : Nat)
    (positive : 0 < interval) (past : List (Operation S E)) (amount : Time)
    : let history := (newWithInterval base currentTime horizon interval positive).run past
      let boundaries := exactBoundaries currentTime horizon (past ++ [.advance amount])
      let boundary := exactTime currentTime (past ++ [.advance amount]) - horizon.toInt
      KeepsFrom boundaries history (history.advance amount).1
      ↔ (boundary < -2 ^ 63
        → ∀ key, history.InUse key
          → (∀ reached ∈ boundaries, reached ≤ key.time.toInt)
          → boundary.bmod (2 ^ 64) ≤ key.time.toInt) := by
  intro history boundaries boundary
  refine keepsFrom_advance_iff ?_ (run_dropTime base currentTime horizon interval positive past
    amount)
  exact List.mem_map_of_mem (exactTime_mem_runningSums currentTime past [] amount)

/-- In a run whose clock starts at no negative time and never goes back, every advance keeps
what it should, even where the clock overflows.
-/
theorem forward_keepsUnreached (base : S) (currentTime horizon : Time) (interval : Nat)
    (positive : 0 < interval) (operations : List (Operation S E))
    (started : 0 ≤ currentTime.toInt)
    (forward : ∀ amount ∈ amounts operations, 0 ≤ amount.toInt)
    : (newWithInterval base currentTime horizon interval positive).KeepsUnreached operations := by
  intro past amount rest split
  refine (run_keepsFrom_iff base currentTime horizon interval positive past amount).mpr ?_
  intro below
  have sum := exactTime_mem_runningSums currentTime past rest amount
  rw [← split] at sum
  have reached := le_of_mem_runningSums forward sum
  have range := Int64.toInt_lt horizon
  omega

/-- In every run, each advance keeps the events and checkpoints whose time is at or behind all
exact boundaries so far if and only if, wherever an exact boundary is below all machine integers,
nothing is stored between the largest boundary so far and the residue of that one. The sums and
differences of a run do not overflow if and only if the exact ones are machine integers, and then
each advance keeps what it should. By induction over the run, the clock is the residue of the
exact sum.
-/
theorem advances_keep_unreached_iff (base : S) (currentTime horizon : Time) (interval : Nat)
    (positive : 0 < interval) (operations : List (Operation S E))
    : let start := newWithInterval base currentTime horizon interval positive
      (start.KeepsUnreached operations
        ↔ ∀ past amount rest, operations = past ++ .advance amount :: rest
          → let boundary := exactTime currentTime (past ++ [.advance amount]) - horizon.toInt
            boundary < -2 ^ 63
            → ∀ key, (start.run past).InUse key
              → (∀ reached ∈ exactBoundaries currentTime horizon (past ++ [.advance amount]),
                  reached ≤ key.time.toInt)
              → boundary.bmod (2 ^ 64) ≤ key.time.toInt)
      ∧ (Transducer.Each perform Unwrapped start operations
        ↔ ∀ sum ∈ runningSums currentTime.toInt (amounts operations),
            Fits sum ∧ Fits (sum - horizon.toInt))
      ∧ (Transducer.Each perform Unwrapped start operations
        → start.KeepsUnreached operations) := by
  intro start
  have keeps_iff := run_keepsFrom_iff (E := E) base currentTime horizon interval positive
  refine ⟨?_, each_unwrapped_iff, ?_⟩
  · exact forall_congr' fun past => forall_congr' fun amount => forall_congr' fun rest =>
      imp_congr_right fun _ => keeps_iff past amount
  · intro unwrapped past amount rest split
    refine (keeps_iff past amount).mpr (fun below => ?_)
    have sum := exactTime_mem_runningSums currentTime past rest amount
    rw [← split] at sum
    have fits := each_unwrapped_iff.mp unwrapped _ sum
    exact absurd fits.2.1 (Int.not_le.mpr below)

/-- A clock that goes forward and back within its range. -/
theorem advances_keep_unreached_iff_within_range
    : let start : LocalSnapshotHistory TestSnapshot TestEvent :=
        newWithInterval ⟨1, 0, [], 0⟩ 0 5 2 (by decide)
      start.KeepsUnreached
        [.applyEvent (.positive 1 1 0 1), .applyEvent (.positive 1 9 0 1), .advance 8,
          .applySnapshot ⟨1, 4, [], 100⟩, .advance (-6), .advance 7] := by
  intro start
  obtain ⟨_, unwrapped_iff, keeps⟩ :=
    advances_keep_unreached_iff (⟨1, 0, [], 0⟩ : TestSnapshot) 0 5 2 (by decide)
      [.applyEvent (TestEvent.positive 1 1 0 1), .applyEvent (.positive 1 9 0 1), .advance 8,
        .applySnapshot ⟨1, 4, [], 100⟩, .advance (-6), .advance 7]
  exact keeps (unwrapped_iff.mpr (by decide))

/-- Under the largest horizon, a step back by two drops an event that lies behind the only
exact boundary, since the difference overflows.
-/
theorem advance_back_drops_everything
    : let largest : Time := 9223372036854775807
      let event : TestEvent := .positive 1 1 0 1
      let start : LocalSnapshotHistory TestSnapshot TestEvent :=
        newWithInterval ⟨1, 0, [], 0⟩ 0 largest CHECKPOINT_INTERVAL (by decide)
      let history := start.run [.applyEvent event]
      exactBoundaries 0 largest
          ([.applyEvent event, .advance (-2)] : List (Operation TestSnapshot TestEvent))
        = [-2 ^ 63 - 1]
      ∧ history.events.entries = [(⟨1, 0⟩, event)]
      ∧ (history.advance (-2)).1.events.entries = []
      ∧ ¬ start.KeepsUnreached [.applyEvent event, .advance (-2)]
      ∧ ¬ Transducer.Each perform Unwrapped start [.applyEvent event, .advance (-2)] := by
  intro largest event start history
  have boundaries
      : exactBoundaries 0 largest
          ([.applyEvent event, .advance (-2)] : List (Operation TestSnapshot TestEvent))
        = [-2 ^ 63 - 1] := by
    decide
  have dropped : (history.advance (-2)).1.events.entries = [] := by decide
  refine ⟨boundaries, by decide, dropped, ?_, ?_⟩
  · intro keeps
    have kept := (keeps [.applyEvent event] (-2) [] rfl).events (⟨1, 0⟩, event) (by decide)
      (by decide)
    exact absurd (dropped ▸ kept) List.not_mem_nil
  · intro unwrapped
    exact absurd (unwrapped.2.1 (-2) rfl).2 (by decide)

end LocalSnapshotHistory

end Contime
