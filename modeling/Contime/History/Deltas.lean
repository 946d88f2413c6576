import Contime.History.Accounting
import Contime.Model.TestFixtures

/-! When the deltas are exact. A snapshot's always is. An event's is unless the event replaces
a checkpoint that was stored under its own key, whose size stays counted. That of pruning is
unless it promotes a checkpoint of another size than the base, which it counts as freed.
-/

open SortedEntries PeriodicReplay

namespace Contime

universe u v
variable {S : Type u} {E : Type v} [Event E] [Snapshot S E] [ApplyEvent E S]

namespace LocalSnapshotHistory
variable {history : LocalSnapshotHistory S E} {event : E} {step : Time}

-----------------------------------------------------------------------------------------
-- Events and snapshots
-----------------------------------------------------------------------------------------

/-- The event is new and the latest, and a checkpoint lies under its own key. -/
def OverwritesCheckpoint (history : LocalSnapshotHistory S E) (event : E) : Prop :=
  ContimeKey.fromEvent event ∉ history.events.keys
  ∧ above (ContimeKey.fromEvent event) history.events.entries = []
  ∧ ∃ overwritten,
      (ContimeKey.fromEvent event, overwritten) ∈ history.checkpoints.entries
      ∧ Snapshot.conservativeSize overwritten ≠ 0

/-- No event follows the last checkpoint when one lies at or behind the latest event. -/
theorem resume_latest_eq_nil (fresh : ContimeKey.fromEvent event ∉ history.events.keys)
    (latest : above (ContimeKey.fromEvent event) history.events.entries = [])
    (reached : ∃ checkpoint ∈ history.checkpoints.entries,
      ContimeKey.fromEvent event ≤ checkpoint.1)
    : (resume history.checkpoints.entries history.baseSnapshot
        (history.applyEvent event).1.events.entries).2
      = [] := by
  obtain ⟨checkpoint, member, behind⟩ := reached
  have ascending := history.checkpoints.ascending
  obtain ⟨front, last, shape⟩ :=
    (List.eq_nil_or_concat history.checkpoints.entries).resolve_left (List.ne_nil_of_mem member)
  rw [List.concat_eq_append] at shape
  rw [shape] at member ascending
  rw [shape, resume_append_singleton, insert_latest_entries fresh latest]
  refine above_eq_nil (fun entry stored => ?_)
  refine le_trans ?_ (behind.trans (ascending.le_last member))
  rcases List.mem_append.mp stored with earlier | own
  · exact above_eq_nil_iff.mp latest entry earlier
  · exact (List.mem_singleton.mp own ▸ le_rfl)

/-- The latest event on a stored checkpoint replaces it. The delta counts the new checkpoint
and leaves the old one counted too.
-/
theorem applyEvent_replaces (fresh : ContimeKey.fromEvent event ∉ history.events.keys)
    (latest : above (ContimeKey.fromEvent event) history.events.entries = []) {overwritten : S}
    (present : (ContimeKey.fromEvent event, overwritten) ∈ history.checkpoints.entries)
    : (history.applyEvent event).2.bytesDelta
      = Int64.ofNat (history.applyEvent event).1.storedSize
        - Int64.ofNat history.storedSize
        + bytes (Snapshot.conservativeSize overwritten) := by
  have events := applyEvent_eventsSize fresh
  have none := resume_latest_eq_nil fresh latest ⟨_, present, le_rfl⟩
  obtain ⟨_, checkpoint, _, kept, grown⟩ := (applyEvent_latest_cases fresh latest).resolve_right
    (fun early => early.1 (by rw [none, List.length_nil, Nat.zero_mod]))
  obtain ⟨others, before, after⟩ := history.checkpoints.weigh_insert
    (fun checkpoint => (Snapshot.conservativeSize checkpoint).toNat)
    (ContimeKey.fromEvent event)
  rw [BTreeMap.get?_eq_some.mpr present, Option.map_some, Option.getD_some] at before
  have old : checkpointsSize history.checkpoints.entries = _ := before
  have new (checkpoint : S)
      : checkpointsSize
          (history.checkpoints.insert (ContimeKey.fromEvent event) checkpoint).entries
        = _ :=
    after checkpoint
  rw [grown, storedSize, storedSize, events, kept, new, old, bytes_eq, bytes_eq]
  simp only [Int64.ofNat_add]
  grind

/-- The delta of an event is what the stored size grew by, unless it overwrites. -/
theorem applyEvent_bytesDelta_iff
    : (history.applyEvent event).2.bytesDelta
        = Int64.ofNat (history.applyEvent event).1.storedSize
          - Int64.ofNat history.storedSize
      ↔ ¬ history.OverwritesCheckpoint event := by
  by_cases shared
    : ContimeKey.fromEvent event ∉ history.events.keys
      ∧ above (ContimeKey.fromEvent event) history.events.entries = []
      ∧ ContimeKey.fromEvent event ∈ history.checkpoints.keys
  · obtain ⟨fresh, latest, present⟩ := shared
    obtain ⟨overwritten, member⟩ := BTreeMap.mem_keys.mp present
    have weightless : bytes (Snapshot.conservativeSize overwritten) = 0
        ↔ Snapshot.conservativeSize overwritten = 0 := @bytes_inj _ 0
    rw [applyEvent_replaces fresh latest member]
    constructor
    · intro exact overwrites
      obtain ⟨_, _, other, found, heavy⟩ := overwrites
      obtain rfl : other = overwritten :=
        congrArg Prod.snd (history.checkpoints.ascending.entry_unique found member rfl)
      exact heavy (weightless.mp (by grind))
    · intro spared
      have light : Snapshot.conservativeSize overwritten = 0 := by
        by_contra heavy
        exact spared ⟨fresh, latest, overwritten, member, heavy⟩
      rw [weightless.mpr light]
      grind
  · refine iff_of_true (applyEvent_bytesDelta ?_) ?_
    · exact fun latest fresh present => shared ⟨fresh, latest, present⟩
    · intro overwrites
      obtain ⟨fresh, latest, overwritten, member, _⟩ := overwrites
      exact shared ⟨fresh, latest, BTreeMap.mem_keys.mpr ⟨overwritten, member⟩⟩

/-- The operation overwrites no checkpoint of its own key. -/
def SparesCheckpoint (history : LocalSnapshotHistory S E) : Operation S E → Prop
  | .applyEvent event => ¬ history.OverwritesCheckpoint event
  | .applySnapshot _ => True
  | .advance _ => True

/-- An operation reports what the stored size grew by exactly when it overwrites nothing. -/
theorem perform_bytesDelta_iff (operation : Operation S E)
    : (history.perform operation).2.bytesDelta
        = Int64.ofNat (history.perform operation).1.storedSize - Int64.ofNat history.storedSize
      ↔ history.SparesCheckpoint operation := by
  cases operation with
  | applyEvent event => exact applyEvent_bytesDelta_iff
  | applySnapshot snapshot => exact iff_of_true applySnapshot_bytesDelta trivial
  | advance time => exact iff_of_true advance_bytesDelta trivial

/-- After every run, a further operation reports exactly what the stored events and checkpoints
grew by if and only if it overwrites no checkpoint; in integers too while the sizes fit. The
deltas of a run that overwrites none add up to what is stored. By the exact amount of one
operation, summed over the run.
-/
theorem stored_delta_exact_iff (base : S) (currentTime horizon : Time) (interval : Nat)
    (positive : 0 < interval) (operations : List (Operation S E)) (operation : Operation S E)
    : let fresh : LocalSnapshotHistory S E :=
        newWithInterval base currentTime horizon interval positive
      let history := fresh.run operations
      let next := (history.perform operation).1
      let delta := (history.perform operation).2.bytesDelta
      (delta = Int64.ofNat next.storedSize - Int64.ofNat history.storedSize
        ↔ history.SparesCheckpoint operation)
      ∧ (history.storedSize < 2 ^ 63
        → next.storedSize < 2 ^ 63
        → (delta.toInt = next.storedSize - history.storedSize
          ↔ history.SparesCheckpoint operation))
      ∧ (Transducer.Each perform SparesCheckpoint fresh operations
        → totalDelta (fresh.reports operations) = Int64.ofNat history.storedSize) := by
  intro fresh history next delta
  have step : delta = Int64.ofNat next.storedSize - Int64.ofNat history.storedSize ↔ _ :=
    perform_bytesDelta_iff operation
  refine ⟨step, fun before after => ?_, fun spared => ?_⟩
  · rw [← step, SignedArithmetic.eq_ofNat_sub_iff before after]
  · have exact :=
      (Transducer.each_congr (fun met operation => met.perform_bytesDelta_iff operation)).mpr
        spared
    have nothing : Int64.ofNat fresh.storedSize = 0 := rfl
    rw [totalDelta_reports exact, nothing]
    grind

/-- A late event that drops a snapshot of its own key, in integers. -/
theorem stored_delta_exact_iff_late
    : let history : LocalSnapshotHistory TestSnapshot TestEvent :=
        (newWithInterval ⟨1, 0, [], 0⟩ 0 0 2 (by decide)).run
          [.applyEvent (.positive 1 8 0 1), .applySnapshot ⟨1, 5, [7], 100⟩]
      let late : TestEvent := .positive 1 5 1 3
      let next := (history.applyEvent late).1
      (history.applyEvent late).2.bytesDelta.toInt = next.storedSize - history.storedSize := by
  intro history late next
  have exact :=
    stored_delta_exact_iff (⟨1, 0, [], 0⟩ : TestSnapshot) 0 0 2 (by decide)
      [.applyEvent (TestEvent.positive 1 8 0 1), .applySnapshot ⟨1, 5, [7], 100⟩]
      (.applyEvent late)
  have spared : history.SparesCheckpoint (.applyEvent late) :=
    fun overwrites => absurd overwrites.2.1 (by decide)
  exact (exact.2.1 (by decide) (by decide)).mpr spared

/-- An event on the key of a snapshot: the stored size grows by 42, the delta says 70. -/
theorem event_overwrites_snapshot
    : let history : LocalSnapshotHistory TestSnapshot TestEvent :=
        (newWithInterval ⟨1, 0, [], 0⟩ 0 0 CHECKPOINT_INTERVAL (by decide)).run
          [.applySnapshot ⟨1, 5, [], 100⟩]
      let event : TestEvent := .positive 1 5 1 3
      let next := (history.applyEvent event).1
      (history.applyEvent event).2.bytesDelta = 70
      ∧ next.storedSize = history.storedSize + 42
      ∧ (history.applyEvent event).2.bytesDelta
        ≠ Int64.ofNat next.storedSize - Int64.ofNat history.storedSize := by
  decide

-----------------------------------------------------------------------------------------
-- Pruning
-----------------------------------------------------------------------------------------

/-- The last checkpoint before the drop key, if there is one, is as large as the base. -/
def KeepsBaseSize (history : LocalSnapshotHistory S E) (step : Time) : Prop :=
  ∀ last ∈ (below (history.dropKey step) history.checkpoints.entries).getLast?,
    Snapshot.conservativeSize last.2 = Snapshot.conservativeSize history.baseSnapshot

omit [Event E] [ApplyEvent E S] in
/-- The promoted state is as large as the base exactly when the last dropped checkpoint is. -/
theorem promoted_size_iff
    : Snapshot.conservativeSize (history.promoted step).1
        = Snapshot.conservativeSize history.baseSnapshot
      ↔ history.KeepsBaseSize step := by
  rw [promoted, resume, KeepsBaseSize]
  cases (below (history.dropKey step) history.checkpoints.entries).getLast? with
  | none => simp
  | some last => simp

omit [ApplyEvent E S] in
/-- The delta of pruning is what all that is held grew by, as long as the base keeps its
size.
-/
theorem advance_bytesDelta_iff
    : (history.advance step).2.bytesDelta
        = Int64.ofNat (history.advance step).1.heldSize - Int64.ofNat history.heldSize
      ↔ history.KeepsBaseSize step := by
  have base : Int64.ofNat (Snapshot.conservativeSize (history.promoted step).1).toNat
        = Int64.ofNat (Snapshot.conservativeSize history.baseSnapshot).toNat
      ↔ history.KeepsBaseSize step := by
    rw [← bytes_eq, ← bytes_eq, bytes_inj]
    exact promoted_size_iff
  rw [← base, advance_bytesDelta, heldSize, heldSize, advance_baseSnapshot]
  simp only [Int64.ofNat_add]
  constructor
  · intro exact
    grind
  · intro same
    rw [same]
    grind

/-- The delta of the operation is what all that is held grows by. -/
def Accounted (history : LocalSnapshotHistory S E) : Operation S E → Prop
  | .applyEvent event => ¬ history.OverwritesCheckpoint event
  | .applySnapshot _ => True
  | .advance step => history.KeepsBaseSize step

/-- An operation reports what all that is held grew by exactly when it is accounted for. -/
theorem perform_heldSize_iff (operation : Operation S E)
    : (history.perform operation).2.bytesDelta
        = Int64.ofNat (history.perform operation).1.heldSize - Int64.ofNat history.heldSize
      ↔ history.Accounted operation := by
  have unpruned (base : (history.perform operation).1.baseSnapshot = history.baseSnapshot)
      : Int64.ofNat (history.perform operation).1.heldSize - Int64.ofNat history.heldSize
        = Int64.ofNat (history.perform operation).1.storedSize
          - Int64.ofNat history.storedSize := by
    rw [heldSize, heldSize, base]
    simp only [Int64.ofNat_add]
    grind
  cases operation with
  | applyEvent event =>
      rw [unpruned rfl]
      exact applyEvent_bytesDelta_iff
  | applySnapshot snapshot =>
      rw [unpruned (applySnapshot_settings history snapshot).baseSnapshot]
      exact iff_of_true applySnapshot_bytesDelta trivial
  | advance step => exact advance_bytesDelta_iff

/-- After every run, a further advance reports exactly what base, events and checkpoints grew by
if and only if the base keeps its size; in integers too while the sizes fit. In a run that is
accounted for throughout, the initial cost and all deltas add up to what is held. By the exact
amount of one advance, summed over the run.
-/
theorem advance_delta_exact_iff (base : S) (currentTime horizon : Time) (interval : Nat)
    (positive : 0 < interval) (operations : List (Operation S E)) (step : Time)
    : let fresh : LocalSnapshotHistory S E :=
        newWithInterval base currentTime horizon interval positive
      let history := fresh.run operations
      let next := (history.advance step).1
      let delta := (history.advance step).2.bytesDelta
      (delta = Int64.ofNat next.heldSize - Int64.ofNat history.heldSize
        ↔ history.KeepsBaseSize step)
      ∧ (history.heldSize < 2 ^ 63
        → next.heldSize < 2 ^ 63
        → (delta.toInt = next.heldSize - history.heldSize ↔ history.KeepsBaseSize step))
      ∧ (Transducer.Each perform Accounted fresh operations
        → Int64.ofNat fresh.heldSize + totalDelta (fresh.reports operations)
          = Int64.ofNat history.heldSize) := by
  intro fresh history next delta
  have exactly : delta = Int64.ofNat next.heldSize - Int64.ofNat history.heldSize ↔ _ :=
    advance_bytesDelta_iff
  refine ⟨exactly, fun before after => ?_, fun accounted => ?_⟩
  · rw [← exactly, SignedArithmetic.eq_ofNat_sub_iff before after]
  · have exact :=
      (Transducer.each_congr (fun met operation => met.perform_heldSize_iff operation)).mpr
        accounted
    rw [totalDelta_reports exact]
    grind

/-- Pruning that promotes a checkpoint of the size of the base. -/
theorem advance_delta_exact_iff_same_size
    : let history : LocalSnapshotHistory TestSnapshot TestEvent :=
        (newWithInterval ⟨1, 0, [], 0⟩ 0 0 2 (by decide)).run
          [.applyEvent (.positive 1 8 0 1), .applySnapshot ⟨1, 5, [], 100⟩]
      let next := (history.advance 9).1
      (history.advance 9).2.bytesDelta.toInt = next.heldSize - history.heldSize := by
  intro history next
  have exact :=
    advance_delta_exact_iff (⟨1, 0, [], 0⟩ : TestSnapshot) 0 0 2 (by decide)
      [.applyEvent (TestEvent.positive 1 8 0 1), .applySnapshot ⟨1, 5, [], 100⟩] 9
  have same : history.KeepsBaseSize 9 := by
    rw [KeepsBaseSize]
    decide
  exact (exact.2.1 (by decide) (by decide)).mpr same

/-- A promoted snapshot of 30 bytes is counted as freed: from 58 bytes 30 remain, and the
delta says that 30 are gone.
-/
theorem advance_counts_promoted_as_freed
    : let history : LocalSnapshotHistory TestSnapshot TestEvent :=
        (newWithInterval ⟨1, 0, [], 0⟩ 0 0 CHECKPOINT_INTERVAL (by decide)).run
          [.applySnapshot ⟨1, 5, [7], 7⟩]
      let next := (history.advance 10).1
      history.heldSize = 58
      ∧ next.heldSize = 30
      ∧ (history.advance 10).2.bytesDelta = -30
      ∧ (history.advance 10).2.bytesDelta
        ≠ Int64.ofNat next.heldSize - Int64.ofNat history.heldSize := by
  decide

end LocalSnapshotHistory

end Contime
