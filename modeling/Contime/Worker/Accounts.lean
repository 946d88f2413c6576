import Contime.History.Accounting
import Contime.Worker.Projection
import Contime.Library.Ledger

/-! The deltas of one message. Whatever a worker has added to the memory counter before, as long
as it covers what its histories store, it covers them after the message as well, and at no
point in between is it negative.
-/

open SortedEntries

namespace Contime

universe u v
variable {SL : Type u} {EL : Type v} [Event EL] [Snapshot SL EL] [ApplyEvent EL SL]

/-- What the histories of a worker store. -/
def historiesSize (historyById : HistoryById SL EL) : Nat :=
  historyById.weigh LocalSnapshotHistory.storedSize

/-- No history holds as much as a signed size cannot express. -/
def HistoriesFit (historyById : HistoryById SL EL) : Prop :=
  ∀ entry ∈ historyById.entries, entry.2.heldSize < 2 ^ 63

variable {historyById : HistoryById SL EL} {snapshotId : SnapshotId}
  {history : LocalSnapshotHistory SL EL}

omit [ApplyEvent EL SL] in
/-- A history found among some that fit stores no more. -/
theorem HistoriesFit.found (fits : HistoriesFit historyById)
    (found : historyById.get? snapshotId = some history)
    : history.storedSize < 2 ^ 63 :=
  LocalSnapshotHistory.storedSize_le_heldSize.trans_lt
    (fits _ (BTreeMap.get?_eq_some.mp found))

omit [ApplyEvent EL SL] in
/-- A history put into some that fit holds no more. -/
theorem HistoriesFit.inserted (fits : HistoriesFit (historyById.insert snapshotId history))
    : history.heldSize < 2 ^ 63 :=
  fits (snapshotId, history) (BTreeMap.mem_insert.mpr (Or.inl rfl))

/-- The deltas as exact integers. -/
def exactly (deltas : List Int64) : List Int := deltas.map Int64.toInt

namespace LocalSnapshotHistory

/-- An event pays for what its history stores. -/
theorem pays_applyEvent (event : EL) (before : history.storedSize < 2 ^ 63)
    (after : (history.applyEvent event).1.heldSize < 2 ^ 63)
    : Ledger.Pays history.storedSize (history.applyEvent event).1.storedSize
        (exactly [(history.applyEvent event).2.bytesDelta]) :=
  Ledger.pays_singleton
    (storedSize_applyEvent_le before (storedSize_le_heldSize.trans_lt after))

/-- Where a delta is the growth of the stored size, it pays for it. -/
theorem pays_of_growth {before after : Nat} {delta : Int64}
    (growth : delta = Int64.ofNat after - Int64.ofNat before) (start : before < 2 ^ 63)
    (stop : after < 2 ^ 63)
    : Ledger.Pays before after (exactly [delta]) := by
  refine Ledger.pays_singleton ?_
  rw [growth, SignedArithmetic.toInt_ofNat_sub start stop]
  omega

omit [ApplyEvent EL SL] in
/-- The delta of advancing is what the stored size grew by. -/
theorem advance_cost (time : Time) (before : history.heldSize < 2 ^ 63)
    (after : (history.advance time).1.heldSize < 2 ^ 63)
    : (history.advance time).2.bytesDelta.toInt
      = (history.advance time).1.storedSize - history.storedSize := by
  rw [advance_bytesDelta]
  exact SignedArithmetic.toInt_ofNat_sub (storedSize_le_heldSize.trans_lt before)
    (storedSize_le_heldSize.trans_lt after)

variable (EL) in
omit [Event EL] [ApplyEvent EL SL] in
/-- The delta of a new history is the size of its base. -/
theorem new_cost (initial : SL) (delta : Time)
    (fits : (Snapshot.conservativeSize (Snapshot.setTime initial 0)).toNat < 2 ^ 63)
    : (LocalSnapshotHistory.new (E := EL) initial 0 delta).2.toInt
      = (Snapshot.conservativeSize (Snapshot.setTime initial 0)).toNat := by
  have size : (LocalSnapshotHistory.new (E := EL) initial 0 delta).2
      = Int64.ofNat (Snapshot.conservativeSize (Snapshot.setTime initial 0)).toNat := bytes_eq _
  rw [size, Int64.toInt_ofNat_of_lt fits]

variable (EL) in
omit [ApplyEvent EL SL] in
/-- The size of its base pays for a new history, which stores nothing yet. -/
theorem pays_new (initial : SL) (delta : Time)
    (fits : (Snapshot.conservativeSize (Snapshot.setTime initial 0)).toNat < 2 ^ 63)
    : Ledger.Pays 0 (LocalSnapshotHistory.new (E := EL) initial 0 delta).1.storedSize
        (exactly [(LocalSnapshotHistory.new (E := EL) initial 0 delta).2]) := by
  refine Ledger.pays_singleton ?_
  have nothing : (LocalSnapshotHistory.new (E := EL) initial 0 delta).1.storedSize = 0 := rfl
  rw [nothing, new_cost EL initial delta fits]
  omega

end LocalSnapshotHistory

omit [ApplyEvent EL SL] in
/-- What a change of one history of a worker pays, the worker pays. -/
theorem pays_insert {deltas : List Int64}
    (pays : Ledger.Pays
      (((historyById.get? snapshotId).map LocalSnapshotHistory.storedSize).getD 0)
      history.storedSize (exactly deltas))
    : Ledger.Pays (historiesSize historyById)
        (historiesSize (historyById.insert snapshotId history)) (exactly deltas) := by
  obtain ⟨others, before, after⟩ :=
    historyById.weigh_insert LocalSnapshotHistory.storedSize snapshotId
  have framed := pays.frame others
  rwa [← before, ← after] at framed

omit [ApplyEvent EL SL] in
/-- Advancing every history pays for what they store. -/
theorem pays_advance (time : Time) (entries : List (SnapshotId × LocalSnapshotHistory SL EL))
    (before : ∀ entry ∈ entries, entry.2.heldSize < 2 ^ 63)
    (after : ∀ entry ∈ entries, (entry.2.advance time).1.heldSize < 2 ^ 63)
    : Ledger.Pays (entries.map (fun entry => entry.2.storedSize)).sum
        (entries.map (fun entry => (entry.2.advance time).1.storedSize)).sum
        (exactly (entries.map (fun entry => (entry.2.advance time).2.bytesDelta))) := by
  induction entries with
  | nil => exact Ledger.Pays.nil 0
  | cons entry rest ih =>
      have cost := LocalSnapshotHistory.advance_cost time (before entry (.head _))
        (after entry (.head _))
      have first : Ledger.Pays entry.2.storedSize (entry.2.advance time).1.storedSize
          (exactly [(entry.2.advance time).2.bytesDelta]) :=
        Ledger.pays_singleton (by omega)
      have later := ih (fun other member => before other (.tail _ member))
        (fun other member => after other (.tail _ member))
      have own := first.frame (rest.map (fun entry => entry.2.storedSize)).sum
      have others := later.frame (entry.2.advance time).1.storedSize
      rw [Nat.add_comm _ (entry.2.advance time).1.storedSize,
        Nat.add_comm _ (entry.2.advance time).1.storedSize] at others
      exact own.append others

/-- Handling a message pays for what the worker stores, in whatever order it visits the histories.
-/
theorem handleWorker_pays {delta : Time} {message : WorkerInbound SL EL}
    {visits : List SnapshotId} {handled : Handled SL EL}
    (shape : handleWorker delta historyById message visits = some handled)
    (before : HistoriesFit historyById) (after : HistoriesFit handled.historyById)
    : Ledger.Pays (historiesSize historyById) (historiesSize handled.historyById)
        (exactly handled.deltas) := by
  cases message with
  | shutdown => cases shape
  | snapshotAt snapshotId time reply =>
      cases found : historyById.get? snapshotId with
      | none =>
          simp only [handleWorker, found, Option.some.injEq] at shape
          subst shape
          exact Ledger.Pays.nil _
      | some history =>
          simp only [handleWorker, found] at shape
          obtain ⟨answer, _, rfl⟩ := Option.map_eq_some_iff.mp shape
          exact Ledger.Pays.nil _
  | advanceTime time reply =>
      simp only [handleWorker, Option.some.injEq] at shape
      subst shape
      have same := historyById.inOrder_perm visits
      have advanced := pays_advance time (historyById.inOrder visits)
        (fun entry member => before entry (same.subset member))
        (fun entry member => after (entry.1, (entry.2.advance time).1)
          (List.mem_map_of_mem (same.subset member)))
      rw [historyById.weigh_inOrder LocalSnapshotHistory.storedSize visits,
        historyById.weigh_inOrder (fun history => (history.advance time).1.storedSize) visits]
        at advanced
      rw [historiesSize, historiesSize, BTreeMap.weigh_mapValues]
      exact advanced
  | event snapshotId lane initial reply =>
      cases found : historyById.get? snapshotId with
      | none =>
          simp only [handleWorker, found, Option.some.injEq] at shape
          subst shape
          have fits := after.inserted
          have base := LocalSnapshotHistory.pays_new EL initial delta
            (Nat.lt_of_le_of_lt (Nat.le_add_right _ _) fits)
          have empty : (LocalSnapshotHistory.new (E := EL) initial 0 delta).1.storedSize < 2 ^ 63 :=
            Nat.two_pow_pos 63
          have applied := LocalSnapshotHistory.pays_applyEvent lane empty fits
          refine pays_insert ?_
          rw [found]
          exact base.append applied
      | some history =>
          simp only [handleWorker, found, Option.some.injEq] at shape
          subst shape
          refine pays_insert ?_
          rw [found]
          exact LocalSnapshotHistory.pays_applyEvent lane (before.found found) after.inserted
  | snapshot lane reply =>
      cases found : historyById.get? (Snapshot.id lane) with
      | none =>
          simp only [handleWorker, found, Option.some.injEq] at shape
          subst shape
          refine pays_insert ?_
          rw [found]
          exact LocalSnapshotHistory.pays_new EL lane delta
            (Nat.lt_of_le_of_lt (Nat.le_add_right _ _) after.inserted)
      | some history =>
          simp only [handleWorker, found, Option.some.injEq] at shape
          subst shape
          refine pays_insert ?_
          rw [found]
          exact LocalSnapshotHistory.pays_of_growth LocalSnapshotHistory.applySnapshot_bytesDelta
            (before.found found)
            (LocalSnapshotHistory.storedSize_le_heldSize.trans_lt after.inserted)

end Contime
