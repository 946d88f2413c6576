import Contime.Model.Worker
import Contime.Library.Transducer
import Mathlib.Logic.Function.Basic

/-! The router with its workers and the clients' calls, one atomic step at a time. A call
sends its messages one by one into the workers' bounded queues, so other clients' messages
may fall between two of them.
-/

namespace Contime

universe u v

inductive RouterError where
  | memoryFull
  | error
  deriving DecidableEq, Repr

/-- The fixed parts of a router. There is a worker, as the code takes a remainder by their
number.
-/
structure Router where
  workerCount : Nat
  workersPositive : 0 < workerCount
  hashOne : SnapshotId → UInt64
  memoryBudget : UInt64
  lowerTimeHorizonDelta : Time

def Router.workerIndex (router : Router) (snapshotId : SnapshotId) : Fin router.workerCount where
  val := (router.hashOne snapshotId).toNat % router.workerCount
  isLt := Nat.mod_lt _ router.workersPositive

/-- How many messages a worker's inbound queue holds. -/
def INBOUND_CAPACITY : Nat := 1000

/-- A worker thread between two of its atomic steps. -/
structure WorkerState (SL : Type u) (EL : Type v) where
  inbound : List (WorkerInbound SL EL)
  historyById : HistoryById SL EL
  /-- What the message in hand still adds to the memory counter. -/
  deltas : List Int64
  /-- The reply to the message in hand. -/
  reply : Option (ReplyChannel × Reply SL)
  stopped : Bool

/-- A client's call: its messages, how many of them are sent, and the replies its handle
has received.
-/
structure Call (router : Router) (SL : Type u) (EL : Type v) where
  messages : List (Fin router.workerCount × WorkerInbound SL EL)
  sent : Nat
  replies : List (Option (Reply SL))
  error : Option RouterError

structure System (router : Router) (SL : Type u) (EL : Type v) where
  workers : Fin router.workerCount → WorkerState SL EL
  memoryUsage : UInt64
  calls : List (Call router SL EL)

/-- One atomic step of a client or a worker. A worker that handles an advance visits its histories
in any order.
-/
inductive Action (router : Router) (SL : Type u) (EL : Type v) where
  | sendEvent (eventLane : EL)
  | sendSnapshot (snapshotLane : SL)
  | queryAt (time : Time) (snapshotId : SnapshotId)
  | sendAdvance (time : Time)
  | enqueue (call : Nat)
  | handle (worker : Fin router.workerCount) (visits : List SnapshotId := [])
  | commit (worker : Fin router.workerCount)
  | respond (worker : Fin router.workerCount)

variable {router : Router} {SL : Type u} {EL : Type v}

/-- A call that is about to send its messages. -/
def Call.open (messages : List (Fin router.workerCount × WorkerInbound SL EL))
    : Call router SL EL where
  messages
  sent := 0
  replies := messages.map (fun _ => none)
  error := none

/-- A call that was turned away. -/
def Call.rejected (reason : RouterError) : Call router SL EL where
  messages := []
  sent := 0
  replies := []
  error := some reason

/-- `wait` on the call's handle returns `Ok`. -/
def Call.Completed (call : Call router SL EL) : Prop :=
  call.error = none ∧ call.sent = call.messages.length ∧ ∀ reply ∈ call.replies, reply ≠ none

instance [DecidableEq SL] (call : Call router SL EL) : Decidable call.Completed :=
  inferInstanceAs (Decidable (_ ∧ _ ∧ _))

/-- A step that starts no call. -/
def Action.Serves : Action router SL EL → Prop
  | .enqueue _ | .handle _ _ | .commit _ | .respond _ => True
  | .sendEvent _ | .sendSnapshot _ | .queryAt _ _ | .sendAdvance _ => False

namespace System

/-- A router that was just built. -/
def new : System router SL EL where
  workers _ :=
    { inbound := [], historyById := .empty, deltas := [], reply := none, stopped := false }
  memoryUsage := 0
  calls := []

/-- Every handle has completed. -/
def Completed (system : System router SL EL) : Prop :=
  ∀ call ∈ system.calls, call.Completed

instance [DecidableEq SL] (system : System router SL EL) : Decidable system.Completed :=
  inferInstanceAs (Decidable (∀ call ∈ system.calls, call.Completed))

/-- The reply that a handle has received on a channel. -/
def replyAt (system : System router SL EL) (channel : ReplyChannel) : Option (Reply SL) :=
  (system.calls[channel.call]?.map Call.replies).bind (fun replies =>
    replies[channel.position]?.join)

def setWorker (system : System router SL EL) (worker : Fin router.workerCount)
    (state : WorkerState SL EL)
    : System router SL EL :=
  { system with workers := Function.update system.workers worker state }

/-- Start a call unless it would exceed the memory budget. The sum wraps as in release
builds.
-/
def accept (system : System router SL EL) (size : UInt64) (call : Call router SL EL)
    : System router SL EL × Bool :=
  let accepted :=
    if system.memoryUsage + size ≥ router.memoryBudget then .rejected .memoryFull else call
  ({ system with calls := system.calls ++ [accepted] }, true)

/-- The client of a call sends its next message, once there is room for it. -/
def enqueue (system : System router SL EL) (index : Nat) : System router SL EL × Bool :=
  match system.calls[index]? with
  | none => (system, false)
  | some call =>
      match call.error, call.messages[call.sent]? with
      | none, some (worker, message) =>
          let state := system.workers worker
          if state.stopped then
            let failed (call : Call router SL EL) := { call with error := some .error }
            ({ system with calls := system.calls.modify index failed }, true)
          else if state.inbound.length < INBOUND_CAPACITY then
            let state := { state with inbound := state.inbound ++ [message] }
            let advanced (call : Call router SL EL) := { call with sent := call.sent + 1 }
            ({ system.setWorker worker state with
                calls := system.calls.modify index advanced },
              true)
          else (system, false)
      | _, _ => (system, false)

/-- The worker adds the next delta of the message in hand to the memory counter. -/
def commit (system : System router SL EL) (worker : Fin router.workerCount)
    : System router SL EL × Bool :=
  let state := system.workers worker
  match state.deltas with
  | [] => (system, false)
  | delta :: deltas =>
      ({ system.setWorker worker { state with deltas } with
          memoryUsage := saturatingAddSigned system.memoryUsage delta },
        true)

/-- The worker sends its reply, after which it takes the next message. -/
def respond (system : System router SL EL) (worker : Fin router.workerCount)
    : System router SL EL × Bool :=
  let state := system.workers worker
  match state.deltas, state.reply with
  | [], some (channel, reply) =>
      let answered (call : Call router SL EL) :=
        { call with replies := call.replies.set channel.position (some reply) }
      ({ system.setWorker worker { state with reply := none } with
          calls := system.calls.modify channel.call answered },
        true)
  | _, _ => (system, false)

variable [Event EL] [Snapshot SL EL] [ApplyEvent EL SL]

/-- The worker takes the next message, once it has replied to the one before. -/
def handle (system : System router SL EL) (worker : Fin router.workerCount)
    (visits : List SnapshotId := [])
    : System router SL EL × Bool :=
  let state := system.workers worker
  match state.stopped, state.deltas, state.reply, state.inbound with
  | false, [], none, message :: inbound =>
      match handleWorker router.lowerTimeHorizonDelta state.historyById message visits with
      | some { historyById, deltas, reply } =>
          (system.setWorker worker
              { inbound, historyById, deltas, reply := some reply, stopped := false },
            true)
      | none => (system.setWorker worker { state with inbound := [], stopped := true }, true)
  | _, _, _, _ => (system, false)

/-- The messages of an event, one for each of its target snapshots. -/
def eventMessages [EventLanes EL SL] (router : Router) (call : Nat) (eventLane : EL)
    : List (Fin router.workerCount × WorkerInbound SL EL) :=
  (EventLanes.snapshots eventLane).mapIdx (fun position (snapshot : SL) =>
    let snapshotId := Snapshot.id snapshot
    (router.workerIndex snapshotId,
      .event snapshotId eventLane snapshot { call, position }))

/-- One step; an action that is not possible leaves the system as it is. -/
def step [EventLanes EL SL] (system : System router SL EL)
    : Action router SL EL → System router SL EL × Bool
  | .sendEvent eventLane =>
      system.accept (Event.conservativeSize eventLane)
        (.open (eventMessages router system.calls.length eventLane))
  | .sendSnapshot snapshotLane =>
      let channel : ReplyChannel := { call := system.calls.length, position := 0 }
      system.accept (Snapshot.conservativeSize snapshotLane)
        (.open [(router.workerIndex (Snapshot.id snapshotLane), .snapshot snapshotLane channel)])
  | .queryAt time snapshotId =>
      let channel : ReplyChannel := { call := system.calls.length, position := 0 }
      let call : Call router SL EL :=
        .open [(router.workerIndex snapshotId, .snapshotAt snapshotId time channel)]
      ({ system with calls := system.calls ++ [call] }, true)
  | .sendAdvance time =>
      let message (worker : Fin router.workerCount)
          : Fin router.workerCount × WorkerInbound SL EL :=
        (worker, .advanceTime time { call := system.calls.length, position := worker.val })
      let call := .open ((List.finRange router.workerCount).map message)
      ({ system with calls := system.calls ++ [call] }, true)
  | .enqueue call => system.enqueue call
  | .handle worker visits => system.handle worker visits
  | .commit worker => system.commit worker
  | .respond worker => system.respond worker

/-- The system after a sequence of steps of any clients and workers. -/
def run [EventLanes EL SL] (system : System router SL EL)
    (actions : List (Action router SL EL))
    : System router SL EL :=
  Transducer.final step system actions

/-- What a query's handle may see when nobody starts another call: this result and no other,
however the calls under way and the workers are scheduled.
-/
structure Returns [EventLanes EL SL] (system : System router SL EL) (time : Time)
    (snapshotId : SnapshotId) (result : QueryResult SL)
    : Prop where
  only
    : ∀ steps : List (Action router SL EL), (∀ action ∈ steps, action.Serves) → ∀ reply,
      (system.run (.queryAt time snapshotId :: steps)).replyAt ⟨system.calls.length, 0⟩
        = some reply
      → reply = .queried result
  reached
    : ∃ steps : List (Action router SL EL), (∀ action ∈ steps, action.Serves)
      ∧ (system.run (.queryAt time snapshotId :: steps)).replyAt ⟨system.calls.length, 0⟩
        = some (.queried result)

end System

end Contime
