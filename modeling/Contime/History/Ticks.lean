import Contime.History.Accounting

/-! Time that passes in two steps or in one. The first cut of two is part of the second, and
what it promotes is where the second one starts, so nobody can tell how often a history was
advanced.
-/

open SortedEntries PeriodicReplay SignedArithmetic

namespace Contime

universe u v
variable {S : Type u} {E : Type v} [Event E] [Snapshot S E] [ApplyEvent E S]

namespace LocalSnapshotHistory
variable {history : LocalSnapshotHistory S E} {first second : Time}

/-- Neither sum of an advance overflows. -/
def AdvanceFits (history : LocalSnapshotHistory S E) (time : Time) : Prop :=
  Fits (history.currentTime.toInt + time.toInt)
  ∧ Fits (history.currentTime.toInt + time.toInt - history.lowerTimeHorizonDelta.toInt)

omit [Event E] [Snapshot S E] [ApplyEvent E S] in
/-- Where nothing overflows, the drop time is the exact one. -/
theorem AdvanceFits.dropTime {time : Time} (fits : history.AdvanceFits time)
    : (history.dropTime time).toInt
      = history.currentTime.toInt + time.toInt - history.lowerTimeHorizonDelta.toInt := by
  have sum := toInt_add_of_fits fits.1
  rw [LocalSnapshotHistory.dropTime, toInt_sub_of_fits (by rw [sum]; exact fits.2), sum]

omit [ApplyEvent E S] in
/-- The second of two advances drops before the same key as their sum at once. -/
theorem advance_dropKey
    : (history.advance first).1.dropKey second = history.dropKey (first + second) := by
  have sum : history.currentTime + first + second = history.currentTime + (first + second) :=
    Int64.add_assoc ..
  have time : (history.advance first).1.dropTime second = history.dropTime (first + second) :=
    congrArg (· - history.lowerTimeHorizonDelta) sum
  exact congrArg (fun time => ContimeKey.mk time 0) time

omit [ApplyEvent E S] in
/-- Advancing by a time that is not negative drops no less. -/
theorem dropKey_le_of_nonneg (nonneg : 0 ≤ second) (before : history.AdvanceFits first)
    (after : (history.advance first).1.AdvanceFits second)
    : history.dropKey first ≤ history.dropKey (first + second) := by
  have clock : (history.advance first).1.currentTime.toInt
      = history.currentTime.toInt + first.toInt := toInt_add_of_fits before.1
  have horizon : (history.advance first).1.lowerTimeHorizonDelta
      = history.lowerTimeHorizonDelta := rfl
  have one : (history.dropKey first).time.toInt = _ := before.dropTime
  have both : ((history.advance first).1.dropKey second).time.toInt = _ := after.dropTime
  rw [clock, horizon] at both
  have positive : 0 ≤ second.toInt := by simpa using Int64.le_iff_toInt_le.mp nonneg
  rw [← advance_dropKey, ContimeKey.le_iff_toInt]
  rcases Int.lt_or_eq_of_le positive with later | same
  · left
    omega
  · exact Or.inr ⟨by omega, le_rfl⟩

omit [Event E] [Snapshot S E] [ApplyEvent E S] in
/-- All of a history but whether an events map without events has a root. -/
def contents (history : LocalSnapshotHistory S E) : LocalSnapshotHistory S E :=
  { history with eventsEmptied := false }

omit [ApplyEvent E S] in
@[simp] theorem storedSize_contents (history : LocalSnapshotHistory S E)
    : history.contents.storedSize = history.storedSize := rfl

omit [ApplyEvent E S] in
/-- Two cuts in a row come to the second one alone, when that reaches as far as the first. -/
theorem advance_advance (ordered : history.dropKey first ≤ history.dropKey (first + second))
    : ((history.advance first).1.advance second).1.contents
      = (history.advance (first + second)).1.contents := by
  refine LocalSnapshotHistory.ext rfl ?_ (BTreeMap.ext_entries ?_) (BTreeMap.ext_entries ?_) rfl
    rfl (Int64.add_assoc ..) rfl
  · have cut := history.checkpoints.ascending.below_eq_append ordered
    rw [contents, contents, advance_baseSnapshot, advance_baseSnapshot, promoted, promoted,
      advance_dropKey, advance_checkpoints, advance_baseSnapshot, promoted, cut]
    exact (resume_append_fst _ _ _ _ _ _).symm
  · rw [contents, contents, advance_checkpoints, advance_checkpoints, advance_dropKey,
      advance_checkpoints, atLeast_atLeast_of_le ordered]
  · rw [contents, contents, advance_events, advance_events, advance_dropKey, advance_events,
      atLeast_atLeast_of_le ordered]

/-- After every run, advancing in two steps gives the base, the events, the checkpoints and
the clock of one step by their sum, and the two deltas add up to the one: the cuts compose, as the
second reaches as far as the first where nothing overflows.
-/
theorem ticks_unobservable (base : S) (currentTime horizon : Time) (interval : Nat)
    (positive : 0 < interval) (operations : List (Operation S E)) (first second : Time)
    (nonneg : 0 ≤ second)
    : let history :=
        (newWithInterval base currentTime horizon interval positive).run operations
      let between := (history.advance first).1
      history.AdvanceFits first
      → between.AdvanceFits second
      → (between.advance second).1.contents = (history.advance (first + second)).1.contents
        ∧ (history.advance first).2.bytesDelta + (between.advance second).2.bytesDelta
          = (history.advance (first + second)).2.bytesDelta := by
  intro history between before after
  have same := advance_advance (dropKey_le_of_nonneg nonneg before after)
  have size := congrArg storedSize same
  rw [storedSize_contents, storedSize_contents] at size
  refine ⟨same, ?_⟩
  rw [advance_bytesDelta, advance_bytesDelta, advance_bytesDelta, size]
  grind

/-- A first cut that promotes a checkpoint and a second one that does not. -/
theorem ticks_unobservable_promoting_first
    : let history : LocalSnapshotHistory TestSnapshot TestEvent :=
        (newWithInterval ⟨1, 0, [], 0⟩ 0 5 2 (by decide)).run
          [.applyEvent (.positive 1 1 0 1), .applyEvent (.positive 1 2 0 1),
            .applyEvent (.positive 1 6 0 1), .applySnapshot ⟨1, 9, [], 100⟩]
      ((history.advance 8).1.advance 4).1.contents = (history.advance 12).1.contents
      ∧ ((history.advance 8).1.advance 4).1.baseSnapshot = ⟨1, 2, [1, 1], 2⟩ := by
  intro history
  have ticks :=
    ticks_unobservable (⟨1, 0, [], 0⟩ : TestSnapshot) 0 5 2 (by decide)
      [.applyEvent (TestEvent.positive 1 1 0 1), .applyEvent (.positive 1 2 0 1),
        .applyEvent (.positive 1 6 0 1), .applySnapshot ⟨1, 9, [], 100⟩]
      8 4 (by decide) ⟨by decide, by decide⟩ ⟨by decide, by decide⟩
  exact ⟨ticks.1, by decide⟩

end LocalSnapshotHistory

end Contime
