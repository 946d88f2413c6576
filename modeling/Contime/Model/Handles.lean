import Contime.Model.Worker
import Contime.Library.OneShot
import Contime.Library.SwapRemove
import Contime.Library.Transducer
import Mathlib.Logic.Function.Basic

/-! The handles of requests under way. Every message of a request comes with a reply channel
for one reply; its worker holds the sender and the handle the receiver. A call of `try_recv`
is one atomic step, a call of `wait` one step for each of its blocking receives.
-/

namespace Contime

universe u

/-- Errors returned by handle-based APIs. -/
inductive HandleError where
  /-- A worker stopped before it could send its reply. -/
  | workerDropped
  deriving DecidableEq, Repr

-----------------------------------------------------------------------------------------
-- Completion of events, snapshots and advances
-----------------------------------------------------------------------------------------

/-- Completion handle of an event or a snapshot. -/
structure ApplyHandle (replyCount : Nat) where
  rxs : List (Fin replyCount)
  deriving DecidableEq, Repr

/-- Completion handle of an advance. -/
structure AdvanceHandle (replyCount : Nat) where
  rxs : List (Fin replyCount)
  deriving DecidableEq, Repr

/-- The channels and the receivers that a poll leaves behind, and its result. -/
structure Polled (replyCount : Nat) where
  channels : Fin replyCount → OneShot Unit
  rxs : List (Fin replyCount)
  result : Except HandleError (Option Unit)

/-- The client of a request: it holds the handle, or it is in `wait` and has still to receive
from some of the receivers, or `wait` has returned.
-/
inductive HandleClient (replyCount : Nat) where
  | holdsApply (handle : ApplyHandle replyCount)
  | holdsAdvance (handle : AdvanceHandle replyCount)
  | receiving (rxs : List (Fin replyCount))
  | returned (result : Except HandleError Unit)

variable {replyCount : Nat}

/-- The loop of `try_recv` from index `i` on. Every iteration removes a receiver or leaves one
behind, so that it ends.
-/
def tryRecvLoop (channels : Fin replyCount → OneShot Unit) (rxs : List (Fin replyCount))
    (i : Nat)
    : Polled replyCount :=
  if _ : i < rxs.length then
    match (channels rxs[i]).tryRecv with
    | (.ok (), taken) =>
        -- The index stays: the receiver moved into the gap was not looked at yet.
        tryRecvLoop (Function.update channels rxs[i] taken) (swapRemove rxs i) i
    | (.error .empty, _) => tryRecvLoop channels rxs (i + 1)
    | (.error .disconnected, _) => { channels, rxs, result := .error .workerDropped }
  else if rxs.isEmpty then { channels, rxs, result := .ok (some ()) }
  else { channels, rxs, result := .ok none }
  termination_by rxs.length - i
  decreasing_by
    · rw [length_swapRemove]
      omega
    · omega

/-- One iteration of the loop of `wait`, or its return behind the last one. Without a reply
the call waits as long as the sender is there.
-/
def waitLoop (channels : Fin replyCount → OneShot Unit)
    : List (Fin replyCount) → (Fin replyCount → OneShot Unit) × HandleClient replyCount
  | [] => (channels, .returned (.ok ()))
  | rx :: rxs =>
      match (channels rx).recv with
      | some (.ok (), taken) => (Function.update channels rx taken, .receiving rxs)
      | some (.error .disconnected, _) => (channels, .returned (.error .workerDropped))
      | none => (channels, .receiving (rx :: rxs))

namespace ApplyHandle

def new (rxs : List (Fin replyCount)) : ApplyHandle replyCount := { rxs }

def wait (handle : ApplyHandle replyCount) : HandleClient replyCount := .receiving handle.rxs

def tryRecv (handle : ApplyHandle replyCount) (channels : Fin replyCount → OneShot Unit)
    : Polled replyCount :=
  tryRecvLoop channels handle.rxs 0

end ApplyHandle

namespace AdvanceHandle

def new (rxs : List (Fin replyCount)) : AdvanceHandle replyCount := { rxs }

def wait (handle : AdvanceHandle replyCount) : HandleClient replyCount :=
  .receiving handle.rxs

def tryRecv (handle : AdvanceHandle replyCount) (channels : Fin replyCount → OneShot Unit)
    : Polled replyCount :=
  tryRecvLoop channels handle.rxs 0

end AdvanceHandle

/-- A request under way: the reply channels and what the client does with the handle. -/
structure HandleState (replyCount : Nat) where
  channels : Fin replyCount → OneShot Unit
  client : HandleClient replyCount

/-- One atomic step of a worker or the client. -/
inductive HandleAction (replyCount : Nat) where
  | reply (rx : Fin replyCount)
  | dropSender (rx : Fin replyCount)
  | tryRecv
  | wait
  | recv
  deriving DecidableEq, Repr

namespace HandleState

/-- The handle that `send_event` and `send_snapshot` return. -/
def ofApply (replyCount : Nat) : HandleState replyCount where
  channels _ := .new
  client := .holdsApply (.new (List.finRange replyCount))

/-- The handle that `send_advance` returns. -/
def ofAdvance (replyCount : Nat) : HandleState replyCount where
  channels _ := .new
  client := .holdsAdvance (.new (List.finRange replyCount))

/-- A poll of the client's handle, with its result. -/
def tryRecv (state : HandleState replyCount)
    : HandleState replyCount × Option (Except HandleError (Option Unit)) :=
  match state.client with
  | .holdsApply handle =>
      let { channels, rxs, result } := handle.tryRecv state.channels
      ({ channels, client := .holdsApply { rxs } }, some result)
  | .holdsAdvance handle =>
      let { channels, rxs, result } := handle.tryRecv state.channels
      ({ channels, client := .holdsAdvance { rxs } }, some result)
  | .receiving _ | .returned _ => (state, none)

/-- The client calls `wait`, which consumes the handle. -/
def wait (state : HandleState replyCount) : HandleState replyCount :=
  match state.client with
  | .holdsApply handle => { state with client := handle.wait }
  | .holdsAdvance handle => { state with client := handle.wait }
  | .receiving _ | .returned _ => state

/-- The call of `wait` goes on. -/
def recv (state : HandleState replyCount) : HandleState replyCount :=
  match state.client with
  | .receiving rxs =>
      let (channels, client) := waitLoop state.channels rxs
      { channels, client }
  | .holdsApply _ | .holdsAdvance _ | .returned _ => state

/-- One step, with the result of a poll. -/
def step (state : HandleState replyCount)
    : HandleAction replyCount
      → HandleState replyCount × Option (Except HandleError (Option Unit))
  | .reply rx =>
      ({ state with
          channels := Function.update state.channels rx ((state.channels rx).send ()) },
        none)
  | .dropSender rx =>
      ({ state with
          channels := Function.update state.channels rx (state.channels rx).dropSender },
        none)
  | .tryRecv => state.tryRecv
  | .wait => (state.wait, none)
  | .recv => (state.recv, none)

/-- The request after steps of its workers and the client in any order. -/
def run (state : HandleState replyCount) (actions : List (HandleAction replyCount))
    : HandleState replyCount :=
  Transducer.final step state actions

end HandleState

-----------------------------------------------------------------------------------------
-- Results of queries
-----------------------------------------------------------------------------------------

/-- Handle of a query. -/
structure QueryHandle (SL : Type u) where
  rx : OneShot (QueryResult SL)

/-- The client of a query: it holds the handle, or it is in `wait`, or `wait` has returned. -/
inductive QueryClient where
  | holding
  | receiving
  | returned
  deriving DecidableEq, Repr

/-- A query under way. -/
structure QueryState (SL : Type u) where
  handle : QueryHandle SL
  client : QueryClient

/-- One atomic step of the worker or the client. -/
inductive QueryAction (SL : Type u) where
  | reply (result : QueryResult SL)
  | dropSender
  | tryRecv
  | wait
  | recv
  deriving DecidableEq, Repr

variable {SL : Type u}

namespace QueryHandle

def new (rx : OneShot (QueryResult SL)) : QueryHandle SL := { rx }

def tryRecv (handle : QueryHandle SL)
    : QueryHandle SL × Except HandleError (Option (QueryResult SL)) :=
  match handle.rx.tryRecv with
  | (.ok result, rx) => ({ rx }, .ok (some result))
  | (.error .empty, rx) => ({ rx }, .ok none)
  | (.error .disconnected, rx) => ({ rx }, .error .workerDropped)

/-- The result of `wait`; `none` as long as it blocks. -/
def wait (handle : QueryHandle SL)
    : Option (QueryHandle SL × Except HandleError (QueryResult SL)) :=
  match handle.rx.recv with
  | some (.ok result, rx) => some ({ rx }, .ok result)
  | some (.error .disconnected, rx) => some ({ rx }, .error .workerDropped)
  | none => none

end QueryHandle

namespace QueryState

/-- The handle that `query_at` returns. -/
def new : QueryState SL where
  handle := .new .new
  client := .holding

/-- One step, with what a call on the handle returns: a query's result, or `none` as long as
there is none.
-/
def step (state : QueryState SL)
    : QueryAction SL → QueryState SL × Option (Except HandleError (Option (QueryResult SL)))
  | .reply result => ({ state with handle := { rx := state.handle.rx.send result } }, none)
  | .dropSender => ({ state with handle := { rx := state.handle.rx.dropSender } }, none)
  | .tryRecv =>
      match state.client with
      | .holding =>
          let (handle, result) := state.handle.tryRecv
          ({ state with handle }, some result)
      | .receiving | .returned => (state, none)
  | .wait =>
      match state.client with
      | .holding => ({ state with client := .receiving }, none)
      | .receiving | .returned => (state, none)
  | .recv =>
      match state.client with
      | .receiving =>
          match state.handle.wait with
          | some (handle, result) => ({ handle, client := .returned }, some (result.map some))
          | none => (state, none)
      | .holding | .returned => (state, none)

/-- The query after steps of its worker and the client in any order. -/
def run (state : QueryState SL) (actions : List (QueryAction SL)) : QueryState SL :=
  Transducer.final step state actions

/-- What the calls of a run have returned, in order. -/
def outputs (state : QueryState SL) (actions : List (QueryAction SL))
    : List (Option (Except HandleError (Option (QueryResult SL)))) :=
  Transducer.outputs step state actions

end QueryState

end Contime
