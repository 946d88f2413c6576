import Contime.Model.Handles
import Contime.Model.TestFixtures

/-! What the handle of a query reports. The result is taken out of the reply channel by the
call that returns it, and what is left cannot be told from a channel that was dropped without
a result.
-/

namespace Contime

open OneShot

universe u
variable {SL : Type u}

namespace QueryState
variable {state : QueryState SL}

/-- The action is a call on the handle that the client can make now. -/
def Calls (state : QueryState SL) : QueryAction SL → Prop
  | .tryRecv => state.client = .holding
  | .recv => state.client = .receiving
  | .reply _ | .dropSender | .wait => False

/-- The action does not report a stopped worker, or the worker did stop before it could send
its reply.
-/
def ReportsTruly (state : QueryState SL) (action : QueryAction SL) : Prop :=
  (state.step action).2 = some (.error .workerDropped) → state.handle.rx.Broken

/-- The action is a call on the handle after its result was taken and the worker dropped the
sender.
-/
def CallsAgain (state : QueryState SL) (action : QueryAction SL) : Prop :=
  state.Calls action ∧ state.handle.rx.Taken ∧ state.handle.rx.dropped = true

/-- A poll reports a stopped worker exactly for a channel without message and sender. -/
theorem tryRecv_workerDropped (handle : QueryHandle SL)
    : handle.tryRecv.2 = .error .workerDropped
      ↔ handle.rx.message = none ∧ handle.rx.dropped = true := by
  rw [QueryHandle.tryRecv]
  rcases handle.rx.tryRecv_cases with
    ⟨message, taken, takes, waits, _⟩ | ⟨fails, nothing, gone⟩ | ⟨fails, nothing, there⟩
  · simp [takes, waits]
  · simp [fails, nothing, gone]
  · simp [fails, there]

/-- So does `wait`. -/
theorem wait_workerDropped (handle : QueryHandle SL)
    : handle.wait.map Prod.snd = some (.error .workerDropped)
      ↔ handle.rx.message = none ∧ handle.rx.dropped = true := by
  rw [QueryHandle.wait]
  rcases handle.rx.recv_cases with
    ⟨message, taken, takes, waits, _⟩ | ⟨fails, nothing, gone⟩ | ⟨blocks, nothing, there⟩
  · simp [takes, waits]
  · simp [fails, nothing, gone]
  · simp [blocks, there]

/-- The calls report a stopped worker exactly for a channel without message and sender. -/
theorem step_workerDropped {action : QueryAction SL}
    : (state.step action).2 = some (.error .workerDropped)
      ↔ state.Calls action
        ∧ state.handle.rx.message = none ∧ state.handle.rx.dropped = true := by
  obtain ⟨handle, client⟩ := state
  cases action with
  | reply result => exact iff_of_false nofun (fun h => h.1)
  | dropSender => exact iff_of_false nofun (fun h => h.1)
  | wait => cases client <;> exact iff_of_false nofun (fun h => h.1)
  | tryRecv =>
      cases client with
      | holding => simp [step, Calls, ← tryRecv_workerDropped]
      | receiving => simp [step, Calls]
      | returned => simp [step, Calls]
  | recv =>
      cases client with
      | holding => simp [step, Calls]
      | receiving =>
          rw [Calls, ← wait_workerDropped, step]
          dsimp only
          cases handle.wait with
          | none => simp
          | some answer =>
              obtain ⟨left, result⟩ := answer
              cases result with
              | ok result => simp [Except.map]
              | error => simp [Except.map]
      | returned => simp [step, Calls]

/-- A report is false exactly when the call comes after the result was taken. -/
theorem reportsTruly_iff {action : QueryAction SL}
    : state.ReportsTruly action ↔ ¬state.CallsAgain action := by
  rw [ReportsTruly, step_workerDropped, CallsAgain]
  constructor
  · intro truly ⟨calls, ⟨sent, taken⟩, gone⟩
    have unsent := (truly ⟨calls, taken, gone⟩).2
    rw [sent] at unsent
    cases unsent
  · intro first ⟨calls, nothing, gone⟩
    refine ⟨gone, Bool.eq_false_iff.mpr fun sent => ?_⟩
    exact first ⟨calls, ⟨sent, nothing⟩, gone⟩

/-- A poll that returns the result takes it, and no other poll does. -/
theorem tryRecv_taken (handle : QueryHandle SL)
    : handle.tryRecv.1.rx.Taken
      ↔ handle.rx.Taken ∨ ∃ result, handle.tryRecv.2 = .ok (some result) := by
  rw [QueryHandle.tryRecv]
  rcases handle.rx.tryRecv_cases with
    ⟨message, taken, takes, waits, nothing, sent, _⟩ | ⟨fails, _⟩ | ⟨fails, _⟩
  · have sentBefore : handle.rx.sent = true := sent_of_message waits
    simp [takes, Taken, nothing, sent, sentBefore]
  · simp [fails]
  · simp [fails]

/-- So it is with `wait`. -/
theorem wait_taken {handle left : QueryHandle SL}
    {result : Except HandleError (QueryResult SL)}
    (returned : handle.wait = some (left, result))
    : left.rx.Taken ↔ handle.rx.Taken ∨ ∃ found, result = .ok found := by
  rw [QueryHandle.wait] at returned
  rcases handle.rx.recv_cases with
    ⟨message, taken, takes, waits, nothing, sent, _⟩ | ⟨fails, _⟩ | ⟨blocks, _⟩
  · have sentBefore : handle.rx.sent = true := sent_of_message waits
    rw [takes] at returned
    cases returned
    simp [Taken, nothing, sent, sentBefore]
  · rw [fails] at returned
    cases returned
    simp
  · rw [blocks] at returned
    cases returned

/-- The result is taken by the call that returns it. -/
theorem step_taken {action : QueryAction SL}
    : (state.step action).1.handle.rx.Taken
      ↔ state.handle.rx.Taken ∨ ∃ result, (state.step action).2 = some (.ok (some result)) := by
  obtain ⟨handle, client⟩ := state
  cases action with
  | reply result => simp [step, taken_send]
  | dropSender => simp [step, Taken, OneShot.dropSender]
  | wait => cases client <;> simp [step]
  | tryRecv =>
      cases client with
      | holding => simp [step, tryRecv_taken]
      | receiving => simp [step]
      | returned => simp [step]
  | recv =>
      cases client with
      | holding => simp [step]
      | receiving =>
          rw [step]
          dsimp only
          cases answers : handle.wait with
          | none => simp
          | some answer =>
              obtain ⟨left, result⟩ := answer
              rw [wait_taken answers]
              cases result with
              | ok result => simp [Except.map]
              | error => simp [Except.map]
      | returned => simp [step]

/-- The result was taken exactly when some call has returned it. -/
theorem run_taken {actions : List (QueryAction SL)}
    : (state.run actions).handle.rx.Taken
      ↔ state.handle.rx.Taken ∨ ∃ result, some (.ok (some result)) ∈ state.outputs actions := by
  induction actions generalizing state with
  | nil => simp [run, outputs]
  | cons action rest ih =>
      have split (result : QueryResult SL)
          : some (.ok (some result)) ∈ state.outputs (action :: rest)
            ↔ (state.step action).2 = some (.ok (some result))
              ∨ some (.ok (some result)) ∈ (state.step action).1.outputs rest := by
        rw [outputs, Transducer.outputs_cons, List.mem_cons, eq_comm]
        rfl
      calc ((state.step action).1.run rest).handle.rx.Taken
        _ ↔ (state.step action).1.handle.rx.Taken
            ∨ ∃ result, some (.ok (some result)) ∈ (state.step action).1.outputs rest := ih
        _ ↔ _ := by
            simp only [step_taken, split, exists_or, or_assoc]

end QueryState

/-- In a run of a query's worker and client, every reported stop of the worker is a real one
exactly when no call is made after the result was taken and the worker dropped the sender. By the
same equivalence for each step.
-/
theorem query_reports_truly_iff (actions : List (QueryAction SL))
    : Transducer.Each QueryState.step QueryState.ReportsTruly QueryState.new actions
      ↔ Transducer.Each QueryState.step (fun state action => ¬state.CallsAgain action)
        QueryState.new actions :=
  Transducer.each_congr fun _ _ => QueryState.reportsTruly_iff

/-- The worker sends the result and drops the sender, the first poll returns the result, and
the second reports a stopped worker.
-/
theorem query_polled_again
    : (QueryState.new.outputs
          [.reply (.found (TestSnapshot.mk 1 2 [42] 42)), .dropSender, .tryRecv, .tryRecv]
        = [none, none, some (.ok (some (.found (TestSnapshot.mk 1 2 [42] 42)))),
          some (.error .workerDropped)])
      ∧ ¬Transducer.Each QueryState.step QueryState.ReportsTruly QueryState.new
        [.reply (.found (TestSnapshot.mk 1 2 [42] 42)), .dropSender, .tryRecv, .tryRecv] := by
  refine ⟨rfl, ?_⟩
  intro each
  obtain ⟨_, unsent⟩ := each.2.2.2.1 rfl
  cases unsent

end Contime
