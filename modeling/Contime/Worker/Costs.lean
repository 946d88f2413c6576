import Contime.History.Costs
import Contime.Worker.Accounts

/-! What a message costs a worker, read off its histories before the message is handled. -/

open SortedEntries

namespace Contime

universe u v
variable {SL : Type u} {EL : Type v} [Event EL] [Snapshot SL EL] [ApplyEvent EL SL]

/-- A message that can change histories, and that no worker ends on. -/
def WorkerInbound.Mutates : WorkerInbound SL EL → Prop
  | .event _ _ _ _ | .snapshot _ _ | .advanceTime _ _ => True
  | .snapshotAt _ _ _ | .shutdown => False

variable (EL) in
/-- What a new history costs: its base, whose time is set to zero. -/
def baseCost (initial : SL) : Int :=
  (Snapshot.conservativeSize (Snapshot.setTime initial 0)).toNat

/-- What an event costs at one of its targets, where the target may have no history yet. -/
def targetCost (lowerTimeHorizonDelta : Time) (held : Option (LocalSnapshotHistory SL EL))
    (event : EL) (initial : SL)
    : Int :=
  match held with
  | some history => history.eventCost event
  | none =>
      baseCost EL initial
        + (LocalSnapshotHistory.new (E := EL) initial 0 lowerTimeHorizonDelta).1.eventCost event

/-- What a snapshot costs; the first one of an id becomes the base of its history. -/
def authorityCost (held : Option (LocalSnapshotHistory SL EL)) (snapshot : SL) : Int :=
  match held with
  | some history => history.snapshotCost snapshot
  | none => baseCost EL snapshot

/-- What a message costs; advancing gives back what it prunes. -/
def messageCost (lowerTimeHorizonDelta : Time) (historyById : HistoryById SL EL)
    : WorkerInbound SL EL → Int
  | .event snapshotId event initial _ =>
      targetCost lowerTimeHorizonDelta (historyById.get? snapshotId) event initial
  | .snapshot snapshot _ => authorityCost (historyById.get? (Snapshot.id snapshot)) snapshot
  | .advanceTime time _ =>
      historiesSize (historyById.mapValues (fun history => (history.advance time).1))
        - historiesSize historyById
  | .snapshotAt _ _ _ | .shutdown => 0

/-- What a queue of messages costs, each after the ones before it. -/
def queueCost (lowerTimeHorizonDelta : Time)
    : HistoryById SL EL → List (WorkerInbound SL EL) → Int
  | _, [] => 0
  | historyById, message :: rest =>
      match handleWorker lowerTimeHorizonDelta historyById message with
      | some handled =>
          messageCost lowerTimeHorizonDelta historyById message
            + queueCost lowerTimeHorizonDelta handled.historyById rest
      | none => 0

variable {delta : Time} {historyById : HistoryById SL EL} {message : WorkerInbound SL EL}
  {visits : List SnapshotId} {handled : Handled SL EL}

/-- A queue costs what its first message costs and then the rest. -/
theorem queueCost_cons (shape : handleWorker delta historyById message visits = some handled)
    (rest : List (WorkerInbound SL EL))
    : queueCost delta historyById (message :: rest)
      = messageCost delta historyById message + queueCost delta handled.historyById rest := by
  obtain ⟨other, same, histories, _⟩ := handleWorker_without shape
  rw [queueCost, same, histories]

/-- Messages that mutate do not end the worker. -/
theorem handleWorker_of_mutates (delta : Time) (historyById : HistoryById SL EL)
    (mutates : message.Mutates) (visits : List SnapshotId)
    : ∃ handled, handleWorker delta historyById message visits = some handled := by
  cases message with
  | event | snapshot | advanceTime => exact ⟨_, rfl⟩
  | snapshotAt | shutdown => exact mutates.elim

omit [ApplyEvent EL SL] in
/-- The deltas of advancing are the growth of what the histories store. -/
theorem advance_costs (time : Time) (entries : List (SnapshotId × LocalSnapshotHistory SL EL))
    (before : ∀ entry ∈ entries, entry.2.heldSize < 2 ^ 63)
    (after : ∀ entry ∈ entries, (entry.2.advance time).1.heldSize < 2 ^ 63)
    : (exactly (entries.map (fun entry => (entry.2.advance time).2.bytesDelta))).sum
      = ((entries.map (fun entry => (entry.2.advance time).1.storedSize)).sum : Nat)
        - ((entries.map (fun entry => entry.2.storedSize)).sum : Nat) := by
  induction entries with
  | nil => rfl
  | cons entry rest ih =>
      have later := ih (fun other member => before other (.tail _ member))
        (fun other member => after other (.tail _ member))
      have first := LocalSnapshotHistory.advance_cost time (before entry (.head _))
        (after entry (.head _))
      simp only [exactly, List.map_cons, List.sum_cons] at later ⊢
      omega

/-- A message that mutates returns its cost, in whatever order the worker visits the histories. -/
theorem handleWorker_cost (shape : handleWorker delta historyById message visits = some handled)
    (mutates : message.Mutates) (before : HistoriesFit historyById)
    (after : HistoriesFit handled.historyById)
    : (exactly handled.deltas).sum = messageCost delta historyById message := by
  cases message with
  | snapshotAt | shutdown => exact mutates.elim
  | advanceTime time reply =>
      simp only [handleWorker, Option.some.injEq] at shape
      subst shape
      have same := historyById.inOrder_perm visits
      have advanced := advance_costs time (historyById.inOrder visits)
        (fun entry member => before entry (same.subset member))
        (fun entry member => after (entry.1, (entry.2.advance time).1)
          (List.mem_map_of_mem (same.subset member)))
      rw [historyById.weigh_inOrder LocalSnapshotHistory.storedSize visits,
        historyById.weigh_inOrder (fun history => (history.advance time).1.storedSize) visits]
        at advanced
      rw [messageCost, historiesSize, historiesSize, BTreeMap.weigh_mapValues]
      exact advanced
  | event snapshotId lane initial reply =>
      cases found : historyById.get? snapshotId with
      | none =>
          simp only [handleWorker, found, Option.some.injEq] at shape
          subst shape
          have fits := after.inserted
          have empty : (LocalSnapshotHistory.new (E := EL) initial 0 delta).1.storedSize < 2 ^ 63 :=
            Nat.two_pow_pos 63
          have applied := LocalSnapshotHistory.applyEvent_cost empty
            (LocalSnapshotHistory.storedSize_le_heldSize.trans_lt fits)
          have new := LocalSnapshotHistory.new_cost EL initial delta
            (Nat.lt_of_le_of_lt (Nat.le_add_right _ _) fits)
          simp only [messageCost, targetCost, baseCost, found, exactly, List.singleton_append,
            List.map_cons, List.map_nil, List.sum_cons, List.sum_nil, Int.add_zero]
          rw [new, applied]
      | some history =>
          simp only [handleWorker, found, Option.some.injEq] at shape
          subst shape
          have applied := LocalSnapshotHistory.applyEvent_cost (before.found found)
            (LocalSnapshotHistory.storedSize_le_heldSize.trans_lt after.inserted)
          simpa [messageCost, targetCost, found, exactly] using applied
  | snapshot lane reply =>
      cases found : historyById.get? (Snapshot.id lane) with
      | none =>
          simp only [handleWorker, found, Option.some.injEq] at shape
          subst shape
          have new := LocalSnapshotHistory.new_cost EL lane delta
            (Nat.lt_of_le_of_lt (Nat.le_add_right _ _) after.inserted)
          simpa [messageCost, authorityCost, baseCost, found, exactly] using new
      | some history =>
          simp only [handleWorker, found, Option.some.injEq] at shape
          subst shape
          have applied := LocalSnapshotHistory.applySnapshot_cost (before.found found)
            (LocalSnapshotHistory.storedSize_le_heldSize.trans_lt after.inserted)
          simpa [messageCost, authorityCost, found, exactly] using applied

end Contime
