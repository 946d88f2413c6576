import Contime.Model.TestFixtures
import Contime.System.Service
import Contime.Worker.Accounts
import Mathlib.Data.List.Infix

/-! The shared memory counter over whole runs: it is exactly the sum of what the workers have
added to it, and no worker has ever taken more from it than it gave.
-/

namespace Contime

universe u v
variable {SL : Type u} {EL : Type v} {router : Router}

-----------------------------------------------------------------------------------------
-- One exchange on the counter
-----------------------------------------------------------------------------------------

/-- An addition whose exact result is in the counter's range saturates in neither direction. -/
theorem saturatingAddSigned_toNat {current : UInt64} {delta : Int64}
    (low : 0 ≤ (current.toNat : Int) + delta.toInt)
    (high : (current.toNat : Int) + delta.toInt < 2 ^ 64)
    : ((saturatingAddSigned current delta).toNat : Int) = current.toNat + delta.toInt := by
  unfold saturatingAddSigned
  split
  next up =>
    have amount := SignedArithmetic.toUInt64_of_nonneg up
    have sum : current.toNat + delta.toUInt64.toNat < UInt64.size := by
      simp only [UInt64.size]
      omega
    simp only [sum, if_true]
    rw [UInt64.toNat_ofNat_of_lt' sum]
    omega
  next down =>
    have amount := SignedArithmetic.neg_toUInt64_of_neg (Int64.not_le.mp down)
    have small : current.toNat - (-delta).toUInt64.toNat < UInt64.size :=
      Nat.lt_of_le_of_lt (Nat.sub_le _ _) current.toNat_lt
    rw [UInt64.toNat_ofNat_of_lt' small]
    omega

namespace System
variable {system : System router SL EL} {postings returns : List (Fin router.workerCount × Int)}
  {worker : Fin router.workerCount}

-----------------------------------------------------------------------------------------
-- What a run posts
-----------------------------------------------------------------------------------------

/-- What a step adds to the memory counter, with the worker that adds it. -/
def posts (system : System router SL EL)
    : Action router SL EL → List (Fin router.workerCount × Int)
  | .commit worker =>
      ((system.workers worker).deltas.head?.map (fun delta => (worker, delta.toInt))).toList
  | _ => []

-----------------------------------------------------------------------------------------
-- What each step keeps
-----------------------------------------------------------------------------------------

/-- Same counter, and for every worker the same histories and the same pending deltas. -/
structure SameAccounts (before after : System router SL EL) : Prop where
  usage : after.memoryUsage = before.memoryUsage
  histories
    : ∀ worker, (after.workers worker).historyById = (before.workers worker).historyById
  deltas : ∀ worker, (after.workers worker).deltas = (before.workers worker).deltas

theorem SameAccounts.refl (system : System router SL EL) : SameAccounts system system :=
  ⟨rfl, fun _ => rfl, fun _ => rfl⟩

/-- A change of one worker that keeps its histories and deltas. -/
theorem SameAccounts.setWorker {state : WorkerState SL EL} {calls : List (Call router SL EL)}
    (histories : state.historyById = (system.workers worker).historyById)
    (deltas : state.deltas = (system.workers worker).deltas)
    : SameAccounts system { system.setWorker worker state with calls } :=
  ⟨rfl, setWorker_part WorkerState.historyById histories, setWorker_part WorkerState.deltas deltas⟩

theorem SameAccounts.enqueue (system : System router SL EL) (index : Nat)
    : SameAccounts system (system.enqueue index).1 := by
  rcases system.enqueue_cases index with
    same | ⟨_, _, _, _, _, _, ⟨_, fails⟩ | ⟨_, _, sends⟩⟩
  · rw [same]
    exact .refl system
  · rw [fails]
    exact ⟨rfl, fun _ => rfl, fun _ => rfl⟩
  · rw [sends]
    exact .setWorker rfl rfl

theorem SameAccounts.respond (system : System router SL EL) (worker : Fin router.workerCount)
    : SameAccounts system (system.respond worker).1 := by
  rcases system.respond_cases worker with same | ⟨_, _, _, _, responds⟩
  · rw [same]
    exact .refl system
  · rw [responds]
    exact .setWorker rfl rfl

-----------------------------------------------------------------------------------------
-- The books of a run
-----------------------------------------------------------------------------------------

variable [Event EL] [Snapshot SL EL]

/-- No history and no sum of postings outgrows a signed size. -/
structure TotalsFit (system : System router SL EL)
    (postings : List (Fin router.workerCount × Int))
    : Prop where
  histories : ∀ worker, HistoriesFit (system.workers worker).historyById
  counter : Ledger.total postings < 2 ^ 63

/-- A worker has posted what its messages returned up to what is pending, has paid for what
it stores, and never overdraws its balance.
-/
structure Solid (state : WorkerState SL EL) (posted returned : List Int) : Prop where
  complete : posted ++ exactly state.deltas = returned
  solvent : Ledger.Solvent posted.sum (exactly state.deltas)
  covers
    : (historiesSize state.historyById : Int) ≤ posted.sum + (exactly state.deltas).sum

/-- The counter is the sum of the postings, and every worker is solid. -/
structure Balanced (system : System router SL EL)
    (postings returns : List (Fin router.workerCount × Int))
    : Prop where
  usage : (system.memoryUsage.toNat : Int) = Ledger.total postings
  solid
    : ∀ worker,
      Solid (system.workers worker) (Ledger.amounts worker postings)
        (Ledger.amounts worker returns)

theorem Balanced.of_same (balanced : system.Balanced postings returns)
    {after : System router SL EL} (same : SameAccounts system after)
    : after.Balanced postings returns := by
  refine ⟨?_, fun worker => ?_⟩
  · rw [same.usage]
    exact balanced.usage
  · obtain ⟨complete, solvent, covers⟩ := balanced.solid worker
    rw [← same.deltas worker] at complete solvent covers
    rw [← same.histories worker] at covers
    exact ⟨complete, solvent, covers⟩

/-- A step of one worker changes the books of that worker alone. -/
theorem Balanced.update (balanced : system.Balanced postings returns)
    {after : System router SL EL} {state : WorkerState SL EL} {posted returned : List Int}
    (workers : after.workers = Function.update system.workers worker state)
    (solid : Solid state (Ledger.amounts worker postings ++ posted)
      (Ledger.amounts worker returns ++ returned))
    (usage : 0 ≤ Ledger.total (postings ++ posted.map (worker, ·))
      → (after.memoryUsage.toNat : Int) = Ledger.total (postings ++ posted.map (worker, ·)))
    : after.Balanced (postings ++ posted.map (worker, ·))
        (returns ++ returned.map (worker, ·)) := by
  have all (other : Fin router.workerCount)
      : Solid (after.workers other)
          (Ledger.amounts other (postings ++ posted.map (worker, ·)))
          (Ledger.amounts other (returns ++ returned.map (worker, ·))) := by
    rw [Ledger.amounts_append, Ledger.amounts_append]
    by_cases own : other = worker
    · subst own
      rw [Ledger.amounts_own, Ledger.amounts_own, workers, Function.update_self]
      exact solid
    · rw [Ledger.amounts_other (Ne.symm own), Ledger.amounts_other (Ne.symm own),
        List.append_nil, List.append_nil, workers, Function.update_of_ne own]
      exact balanced.solid other
  exact ⟨usage (Ledger.total_nonneg (fun other => (all other).solvent.nonneg)), all⟩

/-- Committing a delta moves it from what is pending to what is posted, without saturating. -/
theorem Balanced.commit (balanced : system.Balanced postings returns)
    (worker : Fin router.workerCount)
    (counter : Ledger.total (postings ++ system.posts (.commit worker)) < 2 ^ 63)
    : (system.commit worker).1.Balanced (postings ++ system.posts (.commit worker)) returns := by
  cases deltas : (system.workers worker).deltas with
  | nil =>
      have nothing : system.posts (.commit worker) = [] := by simp [posts, deltas]
      have same : (system.commit worker).1 = system := by simp [System.commit, deltas]
      rwa [nothing, List.append_nil, same]
  | cons delta rest =>
      have posted : system.posts (.commit worker) = [delta.toInt].map (worker, ·) := by
        simp [posts, deltas]
      have shape := commit_eq deltas
      obtain ⟨complete, solvent, covers⟩ := balanced.solid worker
      rw [deltas, exactly, List.map_cons] at complete solvent covers
      have solid : Solid { system.workers worker with deltas := rest }
          (Ledger.amounts worker postings ++ [delta.toInt])
          (Ledger.amounts worker returns ++ []) := by
        refine ⟨?_, ?_, ?_⟩
        · rw [List.append_nil, List.append_assoc]
          exact complete
        · rw [List.sum_append, List.sum_singleton]
          exact solvent.2
        · rw [List.sum_append, List.sum_singleton, Int.add_assoc]
          exact covers
      rw [posted] at counter ⊢
      have workers : (system.commit worker).1.workers
          = Function.update system.workers worker
              { system.workers worker with deltas := rest } := by
        rw [shape]
        rfl
      have updated := balanced.update workers solid (fun low => by
        rw [Ledger.total_append, List.map_singleton, Ledger.total_singleton, ← balanced.usage]
          at low counter ⊢
        rw [shape]
        exact saturatingAddSigned_toNat low (counter.trans (by decide)))
      rwa [List.map_nil, List.append_nil] at updated

variable [ApplyEvent EL SL]

/-- The deltas of the message that a step takes in hand: the base size of a new history and
what `applyEvent`, `applySnapshot` and `advance` return.
-/
def takes (system : System router SL EL)
    : Action router SL EL → List (Fin router.workerCount × Int)
  | .handle worker visits =>
      if (system.handle worker visits).2 then
        (exactly ((system.handle worker visits).1.workers worker).deltas).map (worker, ·)
      else []
  | _ => []

/-- A worker that takes a message pays for what the message makes it store. -/
theorem Balanced.handle (balanced : system.Balanced postings returns)
    (worker : Fin router.workerCount) (visits : List SnapshotId)
    (before : HistoriesFit (system.workers worker).historyById)
    (after : HistoriesFit ((system.handle worker visits).1.workers worker).historyById)
    : (system.handle worker visits).1.Balanced postings
        (returns ++ system.takes (.handle worker visits)) := by
  obtain ⟨complete, solvent, covers⟩ := balanced.solid worker
  rcases system.handle_cases worker visits with
    same | ⟨message, inbound, _, committed, _, _, ⟨_, stops⟩ | ⟨handled, shape, takes⟩⟩
  · have nothing : system.takes (.handle worker visits) = [] := by simp [System.takes, same]
    rwa [nothing, same, List.append_nil]
  · have nothing : system.takes (.handle worker visits) = [] := by
      simp [System.takes, stops, System.setWorker, committed, exactly]
    rw [nothing, stops, List.append_nil]
    exact balanced.of_same (.setWorker rfl rfl)
  · have taken
        : system.takes (.handle worker visits) = (exactly handled.deltas).map (worker, ·) := by
      simp [System.takes, takes, System.setWorker]
    have workers : (system.handle worker visits).1.workers
        = Function.update system.workers worker
            { inbound, historyById := handled.historyById, deltas := handled.deltas,
              reply := some handled.reply, stopped := false } := by
      rw [takes]
      rfl
    rw [workers, Function.update_self] at after
    have nothing : exactly (system.workers worker).deltas = [] := by rw [committed]; rfl
    rw [nothing] at complete solvent covers
    rw [List.sum_nil, Int.add_zero] at covers
    rw [List.append_nil] at complete
    obtain ⟨remains, enough⟩ := handleWorker_pays shape before after _ covers
    have solid : Solid
        { inbound, historyById := handled.historyById, deltas := handled.deltas,
          reply := some handled.reply, stopped := false }
        (Ledger.amounts worker postings ++ [])
        (Ledger.amounts worker returns ++ exactly handled.deltas) := by
      rw [List.append_nil, ← complete]
      exact ⟨rfl, remains, enough⟩
    have updated := balanced.update workers solid (fun _ => by
      rw [List.map_nil, List.append_nil, takes]
      exact balanced.usage)
    rw [taken]
    rwa [List.map_nil, List.append_nil] at updated

variable [EventLanes EL SL]

/-- All that a run has added to the memory counter. -/
def posted (actions : List (Action router SL EL)) : List (Fin router.workerCount × Int) :=
  Transducer.emitted step posts new actions

/-- All deltas of the messages that the workers have taken in a run. -/
def returned (actions : List (Action router SL EL)) : List (Fin router.workerCount × Int) :=
  Transducer.emitted step takes new actions

/-- Every step keeps the books. -/
theorem Balanced.step (balanced : system.Balanced postings returns)
    {action : Action router SL EL} (before : system.TotalsFit postings)
    (after : (system.step action).1.TotalsFit (postings ++ system.posts action))
    : (system.step action).1.Balanced (postings ++ system.posts action)
        (returns ++ system.takes action) := by
  have still (same : SameAccounts system (system.step action).1)
      (noPosts : system.posts action = []) (noTakes : system.takes action = [])
      : (system.step action).1.Balanced (postings ++ system.posts action)
          (returns ++ system.takes action) := by
    rw [noPosts, noTakes, List.append_nil, List.append_nil]
    exact balanced.of_same same
  cases action with
  | sendEvent lane => exact still ⟨rfl, fun _ => rfl, fun _ => rfl⟩ rfl rfl
  | sendSnapshot lane => exact still ⟨rfl, fun _ => rfl, fun _ => rfl⟩ rfl rfl
  | queryAt time snapshotId => exact still ⟨rfl, fun _ => rfl, fun _ => rfl⟩ rfl rfl
  | sendAdvance time => exact still ⟨rfl, fun _ => rfl, fun _ => rfl⟩ rfl rfl
  | enqueue index => exact still (.enqueue system index) rfl rfl
  | respond worker => exact still (.respond system worker) rfl rfl
  | commit worker =>
      have nothing : system.takes (.commit worker) = [] := rfl
      rw [nothing, List.append_nil]
      exact balanced.commit worker after.counter
  | handle worker visits =>
      have nothing : system.posts (.handle worker visits) = [] := rfl
      rw [nothing, List.append_nil]
      exact balanced.handle worker visits (before.histories worker) (after.histories worker)

/-- In every run whose totals fit, the books are balanced. -/
theorem run_balanced {actions : List (Action router SL EL)}
    (fit : ∀ past, past <+: actions
      → ((new : System router SL EL).run past).TotalsFit (posted past))
    : ((new : System router SL EL).run actions).Balanced (posted actions) (returned actions) := by
  induction actions using List.reverseRecOn with
  | nil =>
      refine ⟨rfl, fun worker => ⟨rfl, ?_, ?_⟩⟩
      · exact Int.le_refl 0
      · exact Int.le_refl 0
  | append_singleton past action ih =>
      have balanced := ih (fun earlier within => fit earlier (within.trans ⟨[action], rfl⟩))
      have before := fit past ⟨[action], rfl⟩
      have after := fit (past ++ [action]) ⟨[], List.append_nil _⟩
      have posts : posted (past ++ [action])
          = posted past ++ ((new : System router SL EL).run past).posts action :=
        Transducer.emitted_concat System.posts _ past action
      have takes : returned (past ++ [action])
          = returned past ++ ((new : System router SL EL).run past).takes action :=
        Transducer.emitted_concat System.takes _ past action
      rw [run_concat, posts] at after
      rw [run_concat, posts, takes]
      exact balanced.step before after

/-- In every run whose totals fit a signed size, the memory counter is exactly the sum of the
deltas posted to it, which are those that the workers' messages returned, up to the pending
ones; no worker has posted a negative sum, and no pending decrease exceeds the counter. By
induction over the steps: what a worker has posted and has pending covers what its histories weigh,
in whatever order an advance visits them.
-/
theorem memory_counter_exact {actions : List (Action router SL EL)}
    (fit : ∀ past, past <+: actions
      → ((new : System router SL EL).run past).TotalsFit (posted past))
    : let system : System router SL EL := new.run actions
      (system.memoryUsage.toNat : Int) = Ledger.total (posted actions)
      ∧ (∀ worker,
          Ledger.amounts worker (posted actions) ++ exactly (system.workers worker).deltas
            = Ledger.amounts worker (returned actions))
      ∧ (∀ worker, 0 ≤ Ledger.balance worker (posted actions))
      ∧ ∀ worker delta deltas,
          (system.workers worker).deltas = delta :: deltas
          → delta < 0
          → (-delta).toUInt64 ≤ system.memoryUsage := by
  intro system
  have balanced : system.Balanced (posted actions) (returned actions) := run_balanced fit
  refine ⟨balanced.usage, fun worker => (balanced.solid worker).complete,
    fun worker => (balanced.solid worker).solvent.nonneg, ?_⟩
  intro worker delta deltas pending decrease
  have solvent := (balanced.solid worker).solvent
  rw [pending] at solvent
  have own : 0 ≤ Ledger.balance worker (posted actions) + delta.toInt := solvent.2.nonneg
  have most := Ledger.balance_le_total worker
    (fun other => (balanced.solid other).solvent.nonneg)
  have amount := SignedArithmetic.neg_toUInt64_of_neg decrease
  have usage := balanced.usage
  refine UInt64.le_iff_toNat_le.mpr ?_
  omega

/-- Events of 42 bytes are added with their bases of 28. The advance prunes those of the id 2 before
that of the id 1, and is halfway through.
-/
theorem memory_counter_exact_pruned
    : let router : Router :=
        { workerCount := 1, workersPositive := by decide, hashOne := fun _ => 0,
          memoryBudget := 1000, lowerTimeHorizonDelta := 0 }
      let actions : List (Action router TestSnapshot TestEvent) :=
        [.sendEvent (.positive 1 5 10 1), .enqueue 0, .handle 0, .commit 0, .commit 0, .respond 0,
          .sendEvent (.positive 2 5 10 1), .enqueue 1, .handle 0, .commit 0, .commit 0, .respond 0,
          .sendEvent (.positive 2 6 11 1), .enqueue 2, .handle 0, .commit 0, .respond 0,
          .sendAdvance 100, .enqueue 3, .handle 0 [2, 1], .commit 0]
      let system : System router TestSnapshot TestEvent := new.run actions
      posted actions = [(0, 28), (0, 42), (0, 28), (0, 42), (0, 42), (0, -84)]
      ∧ system.memoryUsage.toNat = (98 : Int) := by
  intro router actions system
  have fit (past : List (Action router TestSnapshot TestEvent)) (within : past <+: actions)
      : ((new : System router TestSnapshot TestEvent).run past).TotalsFit (posted past) := by
    have all : ∀ past ∈ actions.inits,
        (∀ worker, HistoriesFit
          (((new : System router TestSnapshot TestEvent).run past).workers worker).historyById)
        ∧ Ledger.total (posted past) < 2 ^ 63 := by
      unfold HistoriesFit
      decide
    obtain ⟨histories, counter⟩ := all past ((List.mem_inits past actions).mpr within)
    exact ⟨histories, counter⟩
  obtain ⟨usage, _⟩ := memory_counter_exact fit
  exact ⟨by decide, usage.trans (by decide)⟩

end System

end Contime
