import Contime.Model.Router

/-! A router that is dropped, one atomic step at a time. Its owner drops the workers one after the
other while their threads go on; no client is in a call any more, though clients may still hold
handles.
-/

namespace Contime

universe u v

/-- Where the drop of a worker is. -/
inductive DropPhase where
  | store
  | send
  | join
  deriving DecidableEq, Repr

structure Teardown (router : Router) (SL : Type u) (EL : Type v) where
  system : System router SL EL
  isRunning : Fin router.workerCount → Bool
  /-- The worker has read `is_running` and is in `recv`. -/
  receiving : Fin router.workerCount → Bool
  /-- How many workers are dropped. -/
  dropped : Nat
  phase : DropPhase

/-- One atomic step of the owner or a worker. A relaxed load of `is_running` may be stale, and an
advance visits the histories in any order.
-/
inductive TeardownAction (router : Router) where
  | drop
  | check (worker : Fin router.workerCount) (stale : Bool)
  | receive (worker : Fin router.workerCount) (visits : List SnapshotId := [])
  | commit (worker : Fin router.workerCount)
  | respond (worker : Fin router.workerCount)

variable {router : Router} {SL : Type u} {EL : Type v}

/-- The worker has handled a message to its end. -/
def WorkerState.Free (state : WorkerState SL EL) : Prop :=
  state.deltas = [] ∧ state.reply = none

instance (state : WorkerState SL EL) : Decidable state.Free :=
  decidable_of_iff (state.deltas.isEmpty ∧ state.reply.isNone) (by simp [WorkerState.Free])

namespace Teardown

/-- The owner starts to drop the router. -/
def start (system : System router SL EL) (receiving : Fin router.workerCount → Bool)
    : Teardown router SL EL where
  system
  isRunning _ := true
  receiving
  dropped := 0
  phase := .store

/-- The next step of the drop of a worker. The send waits for room in the queue, or fails when the
thread has ended; the channel goes with the worker once the thread is joined.
-/
def dropWorker (state : Teardown router SL EL) (worker : Fin router.workerCount)
    : Teardown router SL EL × Bool :=
  let target := state.system.workers worker
  match state.phase with
  | .store =>
      let isRunning := Function.update state.isRunning worker false
      ({ state with isRunning, phase := .send }, true)
  | .send =>
      if target.stopped then ({ state with phase := .join }, true)
      else if target.inbound.length < INBOUND_CAPACITY then
        let target := { target with inbound := target.inbound ++ [.shutdown] }
        ({ state with system := state.system.setWorker worker target, phase := .join }, true)
      else (state, false)
  | .join =>
      if target.stopped then
        let system := state.system.setWorker worker { target with inbound := [] }
        ({ state with system, dropped := state.dropped + 1, phase := .store }, true)
      else (state, false)

/-- The next step of the drop of the router. -/
def drop (state : Teardown router SL EL) : Teardown router SL EL × Bool :=
  if left : state.dropped < router.workerCount then state.dropWorker ⟨state.dropped, left⟩
  else (state, false)

/-- The worker's loop reads whether it goes on, and ends or turns to its queue. -/
def check (state : Teardown router SL EL) (worker : Fin router.workerCount) (stale : Bool)
    : Teardown router SL EL × Bool :=
  let target := state.system.workers worker
  if target.stopped = false ∧ target.Free ∧ state.receiving worker = false then
    if state.isRunning worker ∨ stale then
      ({ state with receiving := Function.update state.receiving worker true }, true)
    else
      ({ state with system := state.system.setWorker worker { target with stopped := true } },
        true)
  else (state, false)

/-- The drop of the router has returned. -/
def Returned (state : Teardown router SL EL) : Prop := router.workerCount ≤ state.dropped

instance (state : Teardown router SL EL) : Decidable state.Returned :=
  inferInstanceAs (Decidable (_ ≤ _))

variable [Event EL] [Snapshot SL EL] [ApplyEvent EL SL]

/-- The worker takes the next message from its queue, once there is one. -/
def receive (state : Teardown router SL EL) (worker : Fin router.workerCount)
    (visits : List SnapshotId := [])
    : Teardown router SL EL × Bool :=
  if state.receiving worker then
    let (system, possible) := state.system.handle worker visits
    if possible then
      ({ state with system, receiving := Function.update state.receiving worker false }, true)
    else (state, false)
  else (state, false)

/-- One step; an action that is not possible leaves the router as it is. -/
def step (state : Teardown router SL EL)
    : TeardownAction router → Teardown router SL EL × Bool
  | .drop => state.drop
  | .check worker stale => state.check worker stale
  | .receive worker visits => state.receive worker visits
  | .commit worker =>
      let (system, possible) := state.system.commit worker
      ({ state with system }, possible)
  | .respond worker =>
      let (system, possible) := state.system.respond worker
      ({ state with system }, possible)

/-- The router after a sequence of steps of its owner and the workers. -/
def run (state : Teardown router SL EL) (actions : List (TeardownAction router))
    : Teardown router SL EL :=
  Transducer.final step state actions

end Teardown

end Contime
