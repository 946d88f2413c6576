import Contime.Model.History

/-! One worker thread: the histories it owns and what it does with each inbound message.
The reconciliation receiver that a query hands out is left out of its result.
-/

namespace Contime

universe u v

/-- Ids compare as unsigned integers. -/
instance : LinearOrder SnapshotId where
  le_refl := BitVec.le_refl
  le_trans _ _ _ := BitVec.le_trans
  lt_iff_le_not_ge left right := by
    simp only [BitVec.lt_def, BitVec.le_def]
    omega
  le_antisymm _ _ := BitVec.le_antisymm
  le_total left right := by
    simp only [BitVec.le_def]
    omega
  toDecidableLE := inferInstance

/-- The sending half of a reply channel: a position in the handle of a client's call. -/
structure ReplyChannel where
  call : Nat
  position : Nat
  deriving DecidableEq, Repr

inductive WorkerInbound (SL : Type u) (EL : Type v) where
  | event (snapshotId : SnapshotId) (event : EL) (initialSnapshot : SL) (reply : ReplyChannel)
  | snapshot (snapshot : SL) (reply : ReplyChannel)
  | snapshotAt (snapshotId : SnapshotId) (time : Time) (reply : ReplyChannel)
  | advanceTime (time : Time) (reply : ReplyChannel)
  | shutdown

/-- Result returned by a query. -/
inductive QueryResult (SL : Type u) where
  | found (snapshot : SL)
  | notFound
  deriving DecidableEq, Repr

inductive Reply (SL : Type u) where
  | done
  | queried (result : QueryResult SL)
  deriving DecidableEq, Repr

abbrev HistoryById (SL : Type u) (EL : Type v) :=
  BTreeMap SnapshotId (LocalSnapshotHistory SL EL)

/-- What one message leads to: the histories after it, the deltas added to the shared
memory counter one after the other, and the reply sent at the end.
-/
structure Handled (SL : Type u) (EL : Type v) where
  historyById : HistoryById SL EL
  deltas : List Int64
  reply : ReplyChannel × Reply SL

/-- One successful exchange on the shared memory counter. -/
def saturatingAddSigned (current : UInt64) (delta : Int64) : UInt64 :=
  if 0 ≤ delta then
    let sum := current.toNat + delta.toUInt64.toNat
    if sum < UInt64.size then UInt64.ofNat sum else UInt64.ofNat (UInt64.size - 1)
  else UInt64.ofNat (current.toNat - (-delta).toUInt64.toNat)

variable {SL : Type u} {EL : Type v} [Event EL] [Snapshot SL EL] [ApplyEvent EL SL]

/-- One round of the worker loop; `none` when the thread ends, on `Shutdown` or in the
panic of a query. An advance visits the histories in the order of the hash map, which is arbitrary:
`visits` lists the ids that come first.
-/
def handleWorker (lowerTimeHorizonDelta : Time) (historyById : HistoryById SL EL)
    (message : WorkerInbound SL EL) (visits : List SnapshotId := [])
    : Option (Handled SL EL) :=
  match message with
  | .advanceTime newTime reply =>
      some {
        historyById := historyById.mapValues (fun history => (history.advance newTime).1),
        deltas :=
          (historyById.inOrder visits).map
            (fun entry => (entry.2.advance newTime).2.bytesDelta),
        reply := (reply, .done)
      }
  | .event snapshotId event initialSnapshot reply =>
      let (history, baseDeltas) :=
        match historyById.get? snapshotId with
        | some history => (history, [])
        | none =>
            let (history, baseDelta) :=
              LocalSnapshotHistory.new initialSnapshot 0 lowerTimeHorizonDelta
            (history, [baseDelta])
      let (history, report) := history.applyEvent event
      some {
        historyById := historyById.insert snapshotId history,
        deltas := baseDeltas ++ [report.bytesDelta],
        reply := (reply, .done)
      }
  | .snapshot snapshot reply =>
      let snapshotId := Snapshot.id snapshot
      let (history, applyDelta) :=
        match historyById.get? snapshotId with
        | some history =>
            let (history, report) := history.applySnapshot snapshot
            (history, report.bytesDelta)
        | none => LocalSnapshotHistory.new snapshot 0 lowerTimeHorizonDelta
      some {
        historyById := historyById.insert snapshotId history,
        deltas := [applyDelta],
        reply := (reply, .done)
      }
  | .snapshotAt snapshotId time reply =>
      match historyById.get? snapshotId with
      | some history =>
          (history.snapshotAt time).map (fun snapshot =>
            { historyById, deltas := [], reply := (reply, .queried (.found snapshot)) })
      | none => some { historyById, deltas := [], reply := (reply, .queried .notFound) }
  | .shutdown => none

/-- The histories after the worker loop took the messages; `none` once the thread ended. -/
def workerRun (lowerTimeHorizonDelta : Time) (historyById : HistoryById SL EL)
    (messages : List (WorkerInbound SL EL))
    : Option (HistoryById SL EL) :=
  messages.foldlM
    (fun historyById message =>
      (handleWorker lowerTimeHorizonDelta historyById message).map Handled.historyById)
    historyById

end Contime
