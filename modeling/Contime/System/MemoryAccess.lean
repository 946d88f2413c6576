import Contime.Model.MemoryAccess
import Contime.System.Memory

/-! The loops on the memory counter, with the accesses of all workers interleaved. What they do is
what whole additions do, and no worker keeps the others from theirs.
-/

namespace Contime

universe u v
variable {SL : Type u} {EL : Type v} {router : Router}

namespace AccessSystem

/-- The exchange finds the loaded value in the counter and does not fail without a reason. -/
def Stores (state : AccessSystem router SL EL) (worker : Fin router.workerCount)
    (spurious : Bool)
    : Prop :=
  (state.system.workers worker).deltas ≠ []
  ∧ state.current worker = some state.system.memoryUsage
  ∧ spurious = false

instance (state : AccessSystem router SL EL) (worker : Fin router.workerCount) (spurious : Bool)
    : Decidable (state.Stores worker spurious) :=
  inferInstanceAs (Decidable (_ ∧ _ ∧ _))

variable {state : AccessSystem router SL EL} {worker : Fin router.workerCount} {spurious : Bool}

/-- An exchange that stores commits the worker's next delta. -/
theorem compareExchangeWeak_of_stores (stores : state.Stores worker spurious)
    : state.compareExchangeWeak worker spurious
      = ({ system := (state.system.commit worker).1,
           current := Function.update state.current worker none,
           earlier := state.system.memoryUsage :: state.earlier },
          true) := by
  obtain ⟨pending, loaded, rfl⟩ := stores
  cases deltas : (state.system.workers worker).deltas with
  | nil => exact absurd deltas pending
  | cons delta rest => simp [compareExchangeWeak, deltas, loaded, System.commit_eq deltas]

/-- An exchange that does not store changes neither the counter nor a delta. -/
theorem compareExchangeWeak_of_not_stores (fails : ¬state.Stores worker spurious)
    : state.compareExchangeWeak worker spurious = (state, false)
      ∨ ∃ value,
          state.current worker = some value
          ∧ (spurious = true ∨ value ≠ state.system.memoryUsage)
          ∧ state.compareExchangeWeak worker spurious
            = ({ state with current := Function.update state.current worker none }, true) := by
  cases deltas : (state.system.workers worker).deltas with
  | nil => exact Or.inl (by simp only [compareExchangeWeak, deltas])
  | cons delta rest =>
      cases loaded : state.current worker with
      | none => exact Or.inl (by simp only [compareExchangeWeak, deltas, loaded])
      | some value =>
          have reason : ¬(state.system.memoryUsage = value ∧ spurious = false) := by
            intro both
            refine fails ⟨by simp [deltas], ?_, both.2⟩
            rw [loaded, both.1]
          refine Or.inr ⟨value, rfl, ?_, ?_⟩
          · cases spurious with
            | true => exact Or.inl rfl
            | false => exact Or.inr (fun same => reason ⟨same.symm, rfl⟩)
          · simp only [compareExchangeWeak, deltas, loaded, if_neg reason]

/-- A load only tells the worker a value, the newest one when no older one is asked for. -/
theorem load_cases (state : AccessSystem router SL EL) (worker : Fin router.workerCount) (age : Nat)
    : state.load worker age = (state, false)
      ∨ ∃ value,
          state.current worker = none
          ∧ (age = 0 → value = state.system.memoryUsage)
          ∧ state.load worker age
            = ({ state with current := Function.update state.current worker (some value) },
                true) := by
  unfold load
  split
  next value _ free read =>
    refine Or.inr ⟨_, free, ?_, rfl⟩
    intro newest
    subst newest
    exact (Option.some.inj read).symm
  next => exact Or.inl rfl

variable [Event EL] [Snapshot SL EL] [ApplyEvent EL SL] [EventLanes EL SL]

-----------------------------------------------------------------------------------------
-- Whole additions
-----------------------------------------------------------------------------------------

/-- The steps of the system that a step stands for: a loop takes effect when its exchange stores. -/
def performs (state : AccessSystem router SL EL)
    : AccessAction router SL EL → List (Action router SL EL)
  | .step action => if action.Commits then [] else [action]
  | .load _ _ => []
  | .compareExchangeWeak worker spurious =>
      if state.Stores worker spurious then [.commit worker] else []

/-- The steps of the system that a run stands for. -/
def performed (actions : List (AccessAction router SL EL)) : List (Action router SL EL) :=
  Transducer.emitted step performs new actions

/-- The system changes by the steps that a step stands for. -/
theorem step_simulates (state : AccessSystem router SL EL) (action : AccessAction router SL EL)
    : (state.step action).1.system = state.system.run (state.performs action) := by
  cases action with
  | step action =>
      cases commits : action.Commits with
      | true => simp [step, performs, commits, System.run]
      | false => simp [step, performs, commits, System.run]
  | load worker age =>
      rw [step]
      rcases state.load_cases worker age with same | ⟨value, _, _, loads⟩
      · rw [same]
        rfl
      · rw [loads]
        rfl
  | compareExchangeWeak worker spurious =>
      by_cases stores : state.Stores worker spurious
      · rw [step, compareExchangeWeak_of_stores stores, performs, if_pos stores]
        rfl
      · rw [step, performs, if_neg stores]
        rcases compareExchangeWeak_of_not_stores stores with same | ⟨value, _, _, ends⟩
        · rw [same]
          rfl
        · rw [ends]
          rfl

/-- The steps of a run outside the loops. -/
def outside (actions : List (AccessAction router SL EL)) : List (Action router SL EL) :=
  actions.filterMap (fun
    | .step action => if action.Commits then none else some action
    | .load _ _ | .compareExchangeWeak _ _ => none)

/-- The systems are the same, with the same steps outside the loops in the same order. -/
def Matches (accesses : List (AccessAction router SL EL)) (actions : List (Action router SL EL))
    : Prop :=
  (new.run accesses).system = System.new.run actions
  ∧ outside accesses = actions.filter (fun action => !action.Commits)

/-- A run performs the steps that it takes outside the loops, besides commits. -/
theorem filter_performed (start : AccessSystem router SL EL)
    (accesses : List (AccessAction router SL EL))
    : (Transducer.emitted step performs start accesses).filter (fun action => !action.Commits)
      = outside accesses := by
  induction accesses generalizing start with
  | nil => rfl
  | cons access rest ih =>
      rw [Transducer.emitted, List.filter_append, ih]
      cases access with
      | step action =>
          cases commits : action.Commits with
          | true => simp [performs, outside, commits]
          | false => simp [performs, outside, commits]
      | load worker age => rfl
      | compareExchangeWeak worker spurious =>
          have nothing : (start.performs (.compareExchangeWeak worker spurious)).filter
              (fun action => !action.Commits) = [] := by
            by_cases stores : start.Stores worker spurious
            · rw [performs, if_pos stores]
              rfl
            · rw [performs, if_neg stores]
              rfl
          rw [nothing]
          rfl

/-- A whole loop without another worker in between. -/
def loop (action : Action router SL EL) : List (AccessAction router SL EL) :=
  match action with
  | .commit worker => [.load worker 0, .compareExchangeWeak worker false]
  | _ => [.step action]

/-- Undisturbed loops take the system where the steps do. -/
theorem run_loop (state : AccessSystem router SL EL) (free : ∀ worker, state.current worker = none)
    (action : Action router SL EL)
    : (state.run (loop action)).system = (state.system.step action).1
      ∧ ∀ worker, (state.run (loop action)).current worker = none := by
  have plain (other : action.Commits = false)
      : (state.run [.step action]).system = (state.system.step action).1
        ∧ ∀ worker, (state.run [.step action]).current worker = none := by
    have shape : state.run [.step action]
        = { state with system := (state.system.step action).1 } := by
      simp [run, step, other]
    rw [shape]
    exact ⟨rfl, free⟩
  cases action with
  | sendEvent | sendSnapshot | queryAt | sendAdvance | enqueue | handle | respond =>
      exact plain rfl
  | commit worker =>
      have loads : state.run (loop (.commit worker))
          = ((state.load worker 0).1.compareExchangeWeak worker false).1 := rfl
      rw [loads, System.step]
      cases deltas : (state.system.workers worker).deltas with
      | nil =>
          have nothing : state.load worker 0 = (state, false) := by simp only [load, deltas]
          have still : state.compareExchangeWeak worker false = (state, false) := by
            simp only [compareExchangeWeak, deltas]
          have same : state.system.commit worker = (state.system, false) := by
            simp only [System.commit, deltas]
          rw [nothing, still, same]
          exact ⟨rfl, free⟩
      | cons delta rest =>
          have loaded : state.load worker 0
              = ({ state with
                    current := Function.update state.current worker
                      (some state.system.memoryUsage) },
                  true) := by
            simp [load, deltas, free]
          have stores : (state.load worker 0).1.Stores worker false := by
            rw [loaded]
            refine ⟨?_, Function.update_self .., rfl⟩
            simp [deltas]
          rw [compareExchangeWeak_of_stores stores, loaded]
          refine ⟨rfl, fun other => ?_⟩
          by_cases own : other = worker
          · subst own
            exact Function.update_self ..
          · simp [own, free]

/-- The loops of all workers, interleaved with each other and with everything else, take the
system exactly where whole additions take it: each run of accesses matches a run of whole
additions, in which a loop counts when its exchange stores, and each run of whole additions is
matched. By a refinement mapping that hides the loops under way, and by expanding each addition
into its accesses.
-/
theorem accesses_refine_additions
    : (∀ accesses : List (AccessAction router SL EL), Matches accesses (performed accesses))
      ∧ ∀ actions : List (Action router SL EL), ∃ accesses, Matches accesses actions := by
  constructor
  · intro accesses
    exact ⟨Transducer.final_simulates step_simulates new accesses,
      (filter_performed new accesses).symm⟩
  · intro actions
    refine ⟨actions.flatMap loop, ?_, ?_⟩
    · have general (state : AccessSystem router SL EL)
          (free : ∀ worker, state.current worker = none)
          : (state.run (actions.flatMap loop)).system = state.system.run actions := by
        induction actions generalizing state with
        | nil => rfl
        | cons action rest ih =>
            obtain ⟨first, still⟩ := run_loop state free action
            have joined : state.run ((action :: rest).flatMap loop)
                = (state.run (loop action)).run (rest.flatMap loop) :=
              Transducer.final_append state (loop action) (rest.flatMap loop)
            rw [joined, ih _ still, first]
            rfl
      exact general new (fun _ => rfl)
    · induction actions with
      | nil => rfl
      | cons action rest ih =>
          have joined : outside ((action :: rest).flatMap loop)
              = outside (loop action) ++ outside (rest.flatMap loop) := List.filterMap_append
          rw [joined, ih]
          cases action <;> rfl

-----------------------------------------------------------------------------------------
-- Retries
-----------------------------------------------------------------------------------------

/-- An iteration of the worker that does not store, so that the loop goes on. -/
def retries (worker : Fin router.workerCount) (state : AccessSystem router SL EL)
    (action : AccessAction router SL EL)
    : List (AccessAction router SL EL) :=
  match action with
  | .compareExchangeWeak other spurious =>
      if other = worker ∧ (state.step action).2 = true ∧ ¬state.Stores other spurious then [action]
      else []
  | .step _ | .load _ _ => []

/-- A reason for one retry of the worker: another worker's addition, an old value that it loads, or
a failure without a reason of its exchange.
-/
def setbacks (worker : Fin router.workerCount) (state : AccessSystem router SL EL)
    (action : AccessAction router SL EL)
    : List (AccessAction router SL EL) :=
  match action with
  | .compareExchangeWeak other spurious =>
      if other = worker then
        if (state.step action).2 = true ∧ spurious = true then [action] else []
      else if state.Stores other spurious then [action]
      else []
  | .load other age =>
      if other = worker ∧ (state.step action).2 = true ∧ age ≠ 0 then [action] else []
  | .step _ => []

/-- Whether the worker's exchange is bound to fail: it has loaded what the counter is not. -/
def outdated (worker : Fin router.workerCount) (state : AccessSystem router SL EL) : Nat :=
  match state.current worker with
  | some value => if value = state.system.memoryUsage then 0 else 1
  | none => 0

omit [Event EL] [Snapshot SL EL] [ApplyEvent EL SL] [EventLanes EL SL] in
theorem outdated_le_one (worker : Fin router.workerCount) (state : AccessSystem router SL EL)
    : outdated worker state ≤ 1 := by
  unfold outdated
  split
  · split <;> omega
  · omega

omit [Event EL] [Snapshot SL EL] [ApplyEvent EL SL] [EventLanes EL SL] in
theorem outdated_congr {worker : Fin router.workerCount} {before after : AccessSystem router SL EL}
    (loaded : after.current worker = before.current worker)
    (usage : after.system.memoryUsage = before.system.memoryUsage)
    : outdated worker after = outdated worker before := by
  rw [outdated, outdated, loaded, usage]

/-- Only commits change the counter. -/
theorem memoryUsage_step (system : System router SL EL) {action : Action router SL EL}
    (other : action.Commits = false)
    : (system.step action).1.memoryUsage = system.memoryUsage := by
  cases action with
  | sendEvent | sendSnapshot | queryAt | sendAdvance => rfl
  | commit => cases other
  | enqueue index => exact (System.SameAccounts.enqueue system index).usage
  | respond worker => exact (System.SameAccounts.respond system worker).usage
  | handle worker visits =>
      rw [System.step]
      rcases system.handle_cases worker visits with
        same | ⟨_, _, _, _, _, _, ⟨_, stops⟩ | ⟨_, _, takes⟩⟩
      · rw [same]
      · rw [stops]
        rfl
      · rw [takes]
        rfl

/-- A setback pays for the retry that it leads to. -/
theorem retries_step (worker : Fin router.workerCount) (state : AccessSystem router SL EL)
    (action : AccessAction router SL EL)
    : (retries worker state action).length + outdated worker (state.step action).1
      ≤ (setbacks worker state action).length + outdated worker state := by
  have most := outdated_le_one worker (state.step action).1
  cases action with
  | step action =>
      have same : outdated worker (state.step (.step action)).1 = outdated worker state := by
        cases commits : action.Commits with
        | true => simp [step, commits]
        | false =>
            have usage := memoryUsage_step state.system commits
            refine outdated_congr ?_ ?_
            · simp [step, commits]
            · simpa [step, commits] using usage
      rw [same]
      exact Nat.le_refl _
  | load other age =>
      rw [retries, List.length_nil, Nat.zero_add]
      rcases state.load_cases other age with same | ⟨value, free, newest, loads⟩
      · have still : (state.step (.load other age)).1 = state := congrArg Prod.fst same
        rw [still]
        exact Nat.le_add_left _ _
      · by_cases own : other = worker
        · subst own
          by_cases zero : age = 0
          · have fresh : outdated other (state.step (.load other age)).1 = 0 := by
              simp [step, loads, outdated, newest zero]
            omega
          · have granted : setbacks other state (.load other age) = [.load other age] := by
              simp [setbacks, step, loads, zero]
            rw [granted, List.length_singleton]
            omega
        · have same : outdated worker (state.step (.load other age)).1 = outdated worker state := by
            refine outdated_congr ?_ ?_
            · simp [step, loads, Ne.symm own]
            · simp [step, loads]
          omega
  | compareExchangeWeak other spurious =>
      by_cases stores : state.Stores other spurious
      · have none : retries worker state (.compareExchangeWeak other spurious) = [] := by
          simp [retries, stores]
        rw [none, List.length_nil, Nat.zero_add]
        by_cases own : other = worker
        · subst own
          have left : outdated other (state.step (.compareExchangeWeak other spurious)).1 = 0 := by
            simp [step, compareExchangeWeak_of_stores stores, outdated]
          omega
        · have granted : setbacks worker state (.compareExchangeWeak other spurious)
              = [.compareExchangeWeak other spurious] := by
            simp [setbacks, own, stores]
          rw [granted, List.length_singleton]
          omega
      · rcases compareExchangeWeak_of_not_stores stores with same | ⟨value, loaded, reason, ends⟩
        · have still : (state.step (.compareExchangeWeak other spurious)).1 = state :=
            congrArg Prod.fst same
          have none : retries worker state (.compareExchangeWeak other spurious) = [] := by
            simp [retries, step, same]
          rw [none, still]
          exact Nat.add_le_add_right (Nat.zero_le _) _
        · by_cases own : other = worker
          · subst own
            have retried : retries other state (.compareExchangeWeak other spurious)
                = [.compareExchangeWeak other spurious] := by
              simp [retries, step, ends, stores]
            have left
                : outdated other (state.step (.compareExchangeWeak other spurious)).1 = 0 := by
              simp [step, ends, outdated]
            rw [retried, left, List.length_singleton]
            rcases reason with rfl | moved
            · simp [setbacks, step, ends]
            · have behind : outdated other state = 1 := by simp [outdated, loaded, moved]
              omega
          · have none : retries worker state (.compareExchangeWeak other spurious) = [] := by
              simp [retries, own]
            have same : outdated worker (state.step (.compareExchangeWeak other spurious)).1
                = outdated worker state := by
              refine outdated_congr ?_ ?_
              · simp [step, ends, Ne.symm own]
              · simp [step, ends]
            rw [none, same]
            exact Nat.add_le_add_right (Nat.zero_le _) _

/-- A worker's loops go round no more often than the other workers add to the counter, old values
are loaded and exchanges fail without a reason, whatever the schedule: a loop that does not end
lets the others on. By amortization: each setback pays for the retry that it leads to.
-/
theorem retries_bounded (worker : Fin router.workerCount)
    (actions : List (AccessAction router SL EL))
    : (Transducer.emitted step (retries worker) new actions).length
      ≤ (Transducer.emitted step (setbacks worker) new actions).length := by
  have paid := Transducer.emitted_length_le (outdated worker) (retries_step worker) new actions
  exact Nat.le_of_add_right_le paid

end AccessSystem

end Contime
