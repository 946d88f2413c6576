import Contime.Model.History
import Contime.Library.Channel

/-! One history with its reconciliation channel and the clients that queried it. A query hands
out a clone of the one receiver, so all readers take from the same queue.
-/

namespace Contime

universe u v
variable {S : Type u} {E : Type v}

/-- How many reconciliations wait in a history's channel at most. -/
def RECONCILIATION_CAPACITY : Nat := 1000

/-- The client of an answered query: how many reconciliations were attempted before the
query, and those it has received since.
-/
structure Reader where
  since : Nat
  received : List Reconciliation
  deriving DecidableEq

structure ObservedHistory (S : Type u) (E : Type v) where
  history : LocalSnapshotHistory S E
  channel : Channel Reconciliation RECONCILIATION_CAPACITY
  /-- All reconciliations attempted so far, in order. -/
  attempted : List Reconciliation
  readers : List Reader

/-- One atomic step of the worker or of a reader. -/
inductive Observation (S : Type u) (E : Type v) where
  | perform (operation : Operation S E)
  | query (time : Time)
  | tryRecv (reader : Nat)

/-- What the caller of a step gets. -/
inductive Observed (S : Type u) where
  | report (bytesDelta : Int64)
  | answer (snapshot : Option S)
  | received (reconciliation : Option Reconciliation)

namespace ObservedHistory
variable [Event E] [Snapshot S E] [ApplyEvent E S]

/-- A history that nobody has queried yet. -/
def unobserved (history : LocalSnapshotHistory S E) : ObservedHistory S E where
  history
  channel := .empty
  attempted := []
  readers := []

/-- One step. The result of `try_send` is ignored; a query that panics returns no receiver. -/
def step (state : ObservedHistory S E) : Observation S E → ObservedHistory S E × Observed S
  | .perform operation =>
      let (history, report) := state.history.perform operation
      match report.reconciliation with
      | some reconciliation =>
          ({ state with
              history,
              channel := (state.channel.trySend reconciliation).1,
              attempted := state.attempted ++ [reconciliation] },
            .report report.bytesDelta)
      | none => ({ state with history }, .report report.bytesDelta)
  | .query time =>
      match state.history.snapshotAt time with
      | some snapshot =>
          let reader : Reader := { since := state.attempted.length, received := [] }
          ({ state with readers := state.readers ++ [reader] }, .answer (some snapshot))
      | none => (state, .answer none)
  | .tryRecv index =>
      if index < state.readers.length then
        match state.channel.tryRecv with
        | (channel, some reconciliation) =>
            let take (reader : Reader) :=
              { reader with received := reader.received ++ [reconciliation] }
            ({ state with channel, readers := state.readers.modify index take },
              .received (some reconciliation))
        | (_, none) => (state, .received none)
      else (state, .received none)

/-- The state after a sequence of steps of the worker and the readers. -/
def run (state : ObservedHistory S E) (steps : List (Observation S E)) : ObservedHistory S E :=
  Transducer.final step state steps

end ObservedHistory

end Contime
