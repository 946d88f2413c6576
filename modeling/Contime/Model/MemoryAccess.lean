import Contime.Model.Router

/-! The router with its workers, one access to the shared memory counter at a time. A worker adds
a delta in a loop of a load and a weak exchange, with other workers' accesses in between.
-/

namespace Contime

universe u v

/-- A system whose workers may be inside the loop of `fetchSaturatingAddSigned`. -/
structure AccessSystem (router : Router) (SL : Type u) (EL : Type v) where
  system : System router SL EL
  /-- What a worker has loaded in the iteration that it is in. -/
  current : Fin router.workerCount → Option UInt64
  /-- The counter's earlier values, the latest first. A relaxed load may still return them. -/
  earlier : List UInt64

/-- One atomic step of a client or a worker. The step that commits a delta is a whole loop here. -/
inductive AccessAction (router : Router) (SL : Type u) (EL : Type v) where
  | step (action : Action router SL EL)
  | load (worker : Fin router.workerCount) (age : Nat)
  | compareExchangeWeak (worker : Fin router.workerCount) (spurious : Bool)

variable {router : Router} {SL : Type u} {EL : Type v}

/-- A step that adds a delta to the memory counter. -/
def Action.Commits : Action router SL EL → Bool
  | .commit _ => true
  | .sendEvent _ | .sendSnapshot _ | .queryAt _ _ | .sendAdvance _ | .enqueue _
  | .handle _ _ | .respond _ => false

namespace AccessSystem

/-- A router that was just built. -/
def new : AccessSystem router SL EL where
  system := .new
  current _ := none
  earlier := []

/-- The worker starts an iteration for its next delta with a load of the counter. -/
def load (state : AccessSystem router SL EL) (worker : Fin router.workerCount) (age : Nat)
    : AccessSystem router SL EL × Bool :=
  match (state.system.workers worker).deltas, state.current worker,
      (state.system.memoryUsage :: state.earlier)[age]? with
  | _ :: _, none, some value =>
      ({ state with current := Function.update state.current worker (some value) }, true)
  | _, _, _ => (state, false)

/-- The iteration ends: the exchange stores the sum and leaves the loop, if the counter still has
the loaded value and the exchange does not fail without a reason.
-/
def compareExchangeWeak (state : AccessSystem router SL EL) (worker : Fin router.workerCount)
    (spurious : Bool)
    : AccessSystem router SL EL × Bool :=
  match (state.system.workers worker).deltas, state.current worker with
  | delta :: deltas, some value =>
      let current := Function.update state.current worker none
      if state.system.memoryUsage = value ∧ spurious = false then
        let workerState := { state.system.workers worker with deltas }
        ({ system := { state.system.setWorker worker workerState with
              memoryUsage := saturatingAddSigned value delta },
           current,
           earlier := state.system.memoryUsage :: state.earlier },
          true)
      else ({ state with current }, true)
  | _, _ => (state, false)

variable [Event EL] [Snapshot SL EL] [ApplyEvent EL SL] [EventLanes EL SL]

/-- One step; an action that is not possible leaves the system as it is. -/
def step (state : AccessSystem router SL EL)
    : AccessAction router SL EL → AccessSystem router SL EL × Bool
  | .step action =>
      if action.Commits then (state, false)
      else
        let (system, possible) := state.system.step action
        ({ state with system }, possible)
  | .load worker age => state.load worker age
  | .compareExchangeWeak worker spurious => state.compareExchangeWeak worker spurious

/-- The system after a sequence of steps of any clients and workers. -/
def run (state : AccessSystem router SL EL) (actions : List (AccessAction router SL EL))
    : AccessSystem router SL EL :=
  Transducer.final step state actions

end AccessSystem

end Contime
