import Contime.Worker.Projection
import Contime.Library.SignedArithmetic
import Contime.History.QuerySafety
import Contime.History.Pruning
import Contime.Model.TestFixtures

/-! The clocks of a worker's histories. Each history counts the advances since its id was first
seen, so it prunes as if the amounts before had never been processed.
-/

open SortedEntries SignedArithmetic

namespace Contime

universe u v
variable {SL : Type u} {EL : Type v} [Event EL] [Snapshot SL EL]

namespace WorkerInbound

/-- What the message adds to the current time of the instance. -/
def amount : WorkerInbound SL EL → Int
  | .advanceTime time _ => time.toInt
  | .event _ _ _ _ | .snapshot _ _ | .snapshotAt _ _ _ | .shutdown => 0

end WorkerInbound

/-- The sum of all amounts advanced, without overflow. -/
def advanced (messages : List (WorkerInbound SL EL)) : Int :=
  (messages.map WorkerInbound.amount).sum

/-- The messages before the one that creates the history of an id. -/
def beforeSeen (snapshotId : SnapshotId) (messages : List (WorkerInbound SL EL))
    : List (WorkerInbound SL EL) :=
  messages.takeWhile (fun message => !message.creates snapshotId)

/-- The amounts advanced before an id was first seen. -/
def missed (snapshotId : SnapshotId) (messages : List (WorkerInbound SL EL)) : Int :=
  advanced (beforeSeen snapshotId messages)

variable [ApplyEvent EL SL] {delta : Time} {snapshotId : SnapshotId}
  {message : WorkerInbound SL EL} {messages : List (WorkerInbound SL EL)}
  {history next : LocalSnapshotHistory SL EL}

omit [Event EL] [Snapshot SL EL] [ApplyEvent EL SL] in
@[simp] theorem advanced_cons (message : WorkerInbound SL EL)
    (rest : List (WorkerInbound SL EL))
    : advanced (message :: rest) = message.amount + advanced rest := by
  simp [advanced]

omit [Event EL] [Snapshot SL EL] [ApplyEvent EL SL] in
@[simp] theorem advanced_append (first second : List (WorkerInbound SL EL))
    : advanced (first ++ second) = advanced first + advanced second := by
  simp [advanced]

omit [Event EL] [Snapshot SL EL] [ApplyEvent EL SL] in
theorem advanced_nonneg (forward : ∀ message ∈ messages, 0 ≤ message.amount)
    : 0 ≤ advanced messages := by
  induction messages with
  | nil => exact Int.le_refl 0
  | cons message rest ih =>
      have own := forward message (.head _)
      have others := ih (fun later member => forward later (.tail _ member))
      rw [advanced_cons]
      omega

omit [Event EL] [ApplyEvent EL SL] in
theorem creates_of_mem_beforeSeen (member : message ∈ beforeSeen snapshotId messages)
    : message ∈ messages ∧ message.creates snapshotId = false := by
  have all := List.all_eq_true.mp List.all_takeWhile message member
  exact ⟨(List.takeWhile_sublist _).subset member, by simpa using all⟩

omit [Event EL] [ApplyEvent EL SL] in
/-- Without an advance nothing is missed. -/
theorem missed_of_idle (idle : ∀ message ∈ messages, message.amount = 0)
    : missed snapshotId messages = 0 := by
  have none : (beforeSeen snapshotId messages).map WorkerInbound.amount
      = List.replicate (beforeSeen snapshotId messages).length 0 := by
    rw [List.eq_replicate_iff]
    refine ⟨List.length_map _, fun amount member => ?_⟩
    obtain ⟨message, found, rfl⟩ := List.mem_map.mp member
    exact idle message (creates_of_mem_beforeSeen found).1
  rw [missed, advanced, none]
  simp

variable (snapshotId messages) in
omit [Event EL] [ApplyEvent EL SL] in
/-- Either no message creates the id, or the first one that does follows. -/
theorem beforeSeen_split
    : beforeSeen snapshotId messages = messages
      ∨ ∃ message later,
          messages = beforeSeen snapshotId messages ++ message :: later
          ∧ message.creates snapshotId = true := by
  induction messages with
  | nil => exact Or.inl rfl
  | cons message rest ih =>
      cases creates : message.creates snapshotId with
      | true => exact Or.inr ⟨message, rest, by simp [beforeSeen, creates], creates⟩
      | false =>
          have head : beforeSeen snapshotId (message :: rest)
              = message :: beforeSeen snapshotId rest := by
            simp [beforeSeen, creates]
          rw [head]
          refine ih.imp (congrArg _) ?_
          intro seen
          obtain ⟨first, later, split, own⟩ := seen
          exact ⟨first, later, congrArg _ split, own⟩

-----------------------------------------------------------------------------------------
-- The clock of one history
-----------------------------------------------------------------------------------------

/-- A message moves the clock of a stored history by its amount. -/
theorem ownHistory_clock (changes : ownHistory delta snapshotId (some history) message = some next)
    (fits : Fits (history.currentTime.toInt + message.amount))
    : next.currentTime.toInt = history.currentTime.toInt + message.amount
      ∧ next.lowerTimeHorizonDelta = history.lowerTimeHorizonDelta := by
  have still (settings : SameSettings next history) (idle : message.amount = 0)
      : next.currentTime.toInt = history.currentTime.toInt + message.amount
        ∧ next.lowerTimeHorizonDelta = history.lowerTimeHorizonDelta := by
    rw [idle, Int.add_zero, settings.currentTime]
    exact ⟨rfl, settings.lowerTimeHorizonDelta⟩
  cases message with
  | advanceTime time reply =>
      obtain rfl := Option.some.inj changes
      exact ⟨toInt_add_of_fits fits, rfl⟩
  | event target lane initial reply =>
      refine still ?_ rfl
      simp only [ownHistory, Option.getD_some] at changes
      split at changes
      · obtain rfl := Option.some.inj changes
        exact LocalSnapshotHistory.applyEvent_settings history lane
      · obtain rfl := Option.some.inj changes
        exact .refl history
  | snapshot lane reply =>
      refine still ?_ rfl
      simp only [ownHistory] at changes
      split at changes
      · obtain rfl := Option.some.inj changes
        exact LocalSnapshotHistory.applySnapshot_settings history lane
      · obtain rfl := Option.some.inj changes
        exact .refl history
  | snapshotAt target time reply =>
      obtain rfl := Option.some.inj changes
      exact still (.refl history) rfl
  | shutdown =>
      obtain rfl := Option.some.inj changes
      exact still (.refl history) rfl

variable (delta snapshotId history message) in
/-- A stored history keeps being stored. -/
theorem ownHistory_isSome
    : ∃ next, ownHistory delta snapshotId (some history) message = some next := by
  cases message with
  | advanceTime time reply => exact ⟨_, rfl⟩
  | event target lane initial reply =>
      simp only [ownHistory]
      split <;> exact ⟨_, rfl⟩
  | snapshot lane reply =>
      simp only [ownHistory]
      split <;> exact ⟨_, rfl⟩
  | snapshotAt target time reply => exact ⟨_, rfl⟩
  | shutdown => exact ⟨_, rfl⟩

/-- Messages move the clock of a stored history by the sum of their amounts. -/
theorem foldl_ownHistory_clock (forward : ∀ message ∈ messages, 0 ≤ message.amount)
    (started : 0 ≤ history.currentTime.toInt)
    (bounded : history.currentTime.toInt + advanced messages < 2 ^ 63)
    (folds : messages.foldl (ownHistory delta snapshotId) (some history) = some next)
    : next.currentTime.toInt = history.currentTime.toInt + advanced messages
      ∧ next.lowerTimeHorizonDelta = history.lowerTimeHorizonDelta := by
  induction messages generalizing history with
  | nil =>
      obtain rfl := Option.some.inj folds
      simp [advanced]
  | cons message rest ih =>
      have later := fun other member => forward other (.tail _ member)
      have own := forward message (.head _)
      have others := advanced_nonneg later
      rw [advanced_cons] at bounded ⊢
      obtain ⟨middle, first⟩ := ownHistory_isSome delta snapshotId message history
      obtain ⟨clock, horizon⟩ := ownHistory_clock first ⟨by omega, by omega⟩
      rw [List.foldl_cons, first] at folds
      obtain ⟨clocks, horizons⟩ := ih later (by omega) (by omega) folds
      exact ⟨by omega, horizons.trans horizon⟩

variable (delta) in
/-- The message that creates a history sets its clock to zero. -/
theorem ownHistory_created (creates : message.creates snapshotId = true)
    : ∃ history, ownHistory delta snapshotId none message = some history
      ∧ history.currentTime = 0
      ∧ history.lowerTimeHorizonDelta = delta
      ∧ message.amount = 0 := by
  cases message with
  | advanceTime time reply => cases creates
  | event target lane initial reply => exact ⟨_, if_pos (of_decide_eq_true creates), rfl, rfl, rfl⟩
  | snapshot lane reply => exact ⟨_, if_pos (of_decide_eq_true creates), rfl, rfl, rfl⟩
  | snapshotAt target time reply => cases creates
  | shutdown => cases creates

/-- The clock of a history has missed exactly what was advanced before its id was first seen.
-/
theorem workerRun_clock (forward : ∀ message ∈ messages, 0 ≤ message.amount)
    (bounded : advanced messages < 2 ^ 63) {final : HistoryById SL EL}
    (runs : workerRun delta .empty messages = some final)
    (found : final.get? snapshotId = some history)
    : history.currentTime.toInt = advanced messages - missed snapshotId messages
      ∧ missed snapshotId messages ≤ advanced messages
      ∧ history.lowerTimeHorizonDelta = delta := by
  rw [get?_workerRun runs, BTreeMap.get?_empty] at found
  have unseen : (beforeSeen snapshotId messages).foldl (ownHistory delta snapshotId) none = none :=
    foldl_ownHistory_none (fun _ member => (creates_of_mem_beforeSeen member).2)
  have early : 0 ≤ missed snapshotId messages :=
    advanced_nonneg (fun message member => forward message (creates_of_mem_beforeSeen member).1)
  rcases beforeSeen_split snapshotId messages with all | ⟨message, later, split, creates⟩
  · rw [← all, unseen] at found
    cases found
  · obtain ⟨created, first, zero, horizon, idle⟩ := ownHistory_created delta creates
    have total : advanced messages = missed snapshotId messages + advanced later := by
      conv_lhs => rw [split]
      rw [advanced_append, advanced_cons, idle, Int.zero_add]
      rfl
    have behind : ∀ message ∈ later, 0 ≤ message.amount := by
      rw [split] at forward
      exact fun message member => forward message (List.mem_append_right _ (.tail _ member))
    have start : created.currentTime.toInt = 0 := by
      rw [zero]
      rfl
    rw [split, List.foldl_append, unseen, List.foldl_cons, first] at found
    have rest := advanced_nonneg behind
    obtain ⟨clock, horizons⟩ := foldl_ownHistory_clock behind (by omega) (by omega) found
    exact ⟨by omega, by omega, horizons.trans horizon⟩

-----------------------------------------------------------------------------------------
-- Pruning by the clock of the instance
-----------------------------------------------------------------------------------------

omit [ApplyEvent EL SL] in
/-- What is in use after an advance was in use before, from the drop time on. -/
theorem inUse_advance_iff {step : Time} {key : ContimeKey}
    : (history.advance step).1.InUse key
      ↔ history.InUse key ∧ (history.dropTime step).toInt ≤ key.time.toInt := by
  rw [LocalSnapshotHistory.InUse, BTreeMap.keys, BTreeMap.keys,
    LocalSnapshotHistory.advance_events, LocalSnapshotHistory.advance_checkpoints,
    mem_keys_atLeast, mem_keys_atLeast, ← or_and_right, LocalSnapshotHistory.dropKey_le_iff]
  rfl

/-- Each history is pruned below the time of the instance, less what the history has missed. -/
theorem dropTime_of_run {front back : List (WorkerInbound SL EL)} {step : Time}
    {reply : ReplyChannel} {before : HistoryById SL EL}
    (forward : ∀ message ∈ front ++ .advanceTime step reply :: back, 0 ≤ message.amount)
    (bounded : advanced (front ++ .advanceTime step reply :: back) < 2 ^ 63)
    (horizon : advanced (front ++ .advanceTime step reply :: back) - delta.toInt < 2 ^ 63)
    (runs : workerRun delta .empty front = some before)
    (found : before.get? snapshotId = some history)
    : 0 ≤ missed snapshotId front
      ∧ (history.dropTime step).toInt
        = advanced front + step.toInt - delta.toInt - missed snapshotId front := by
  have frontForward := fun message member => forward message (List.mem_append_left _ member)
  have backForward := fun message member =>
    forward message (List.mem_append_right _ (.tail _ member))
  have positive : 0 ≤ step.toInt := forward _ (List.mem_append_right _ (.head _))
  have later := advanced_nonneg backForward
  have early : 0 ≤ missed snapshotId front :=
    advanced_nonneg (fun message member =>
      frontForward message (creates_of_mem_beforeSeen member).1)
  rw [advanced_append, advanced_cons] at bounded horizon
  simp only [WorkerInbound.amount] at bounded horizon
  obtain ⟨clock, behind, own⟩ := workerRun_clock frontForward (by omega) runs found
  have upper := Int64.toInt_lt delta
  have sum : (history.currentTime + step).toInt = history.currentTime.toInt + step.toInt :=
    toInt_add_of_fits ⟨by omega, by omega⟩
  have difference : (history.currentTime + step - delta).toInt
      = (history.currentTime + step).toInt - delta.toInt :=
    toInt_sub_of_fits ⟨by omega, by omega⟩
  refine ⟨early, ?_⟩
  rw [LocalSnapshotHistory.dropTime, own, difference]
  omega

/-- An advance at the end of a run advances every history. -/
theorem get?_workerRun_advance {front : List (WorkerInbound SL EL)} {step : Time}
    {reply : ReplyChannel} {before after : HistoryById SL EL}
    (runs : workerRun delta .empty front = some before)
    (next : workerRun delta .empty (front ++ [.advanceTime step reply]) = some after)
    (snapshotId : SnapshotId)
    : after.get? snapshotId
      = (before.get? snapshotId).map (fun history => (history.advance step).1) := by
  rw [get?_workerRun next, List.foldl_append, ← get?_workerRun runs]
  rfl

/-- Afterwards no history uses a key with a time before the bound, and every event and
checkpoint from the bound on is still there.
-/
structure PrunesBelow (bound : Int) (before after : HistoryById SL EL) : Prop where
  retains
    : ∀ snapshotId history, after.get? snapshotId = some history
      → ∀ key, history.InUse key → bound ≤ key.time.toInt
  keeps
    : ∀ snapshotId older, before.get? snapshotId = some older
      → ∃ newer, after.get? snapshotId = some newer
        ∧ (∀ entry ∈ older.events.entries, bound ≤ entry.1.time.toInt
          → entry ∈ newer.events.entries)
        ∧ (∀ entry ∈ older.checkpoints.entries, bound ≤ entry.1.time.toInt
          → entry ∈ newer.checkpoints.entries)

/-- In every run, each advance prunes every history exactly below the time of the instance if and
only if it meets nothing in a history whose time lies below that bound by no more than the amounts
the history has missed. By induction over the messages, the clock of a history lags by the amounts
it has missed.
-/
theorem advances_prune_by_instance_iff (delta : Time) (messages : List (WorkerInbound SL EL))
    (forward : ∀ message ∈ messages, 0 ≤ message.amount)
    (bounded : advanced messages < 2 ^ 63)
    (horizon : advanced messages - delta.toInt < 2 ^ 63)
    : (∀ front time reply back before after,
        messages = front ++ .advanceTime time reply :: back
        → workerRun delta .empty front = some before
        → workerRun delta .empty (front ++ [.advanceTime time reply]) = some after
        → PrunesBelow (advanced front + time.toInt - delta.toInt) before after)
      ↔ ∀ front time reply back before,
        messages = front ++ .advanceTime time reply :: back
        → workerRun delta .empty front = some before
        → ∀ snapshotId history key, before.get? snapshotId = some history → history.InUse key
          → let bound := advanced front + time.toInt - delta.toInt
            ¬ (bound - missed snapshotId front ≤ key.time.toInt ∧ key.time.toInt < bound) := by
  constructor
  · intro prunes front time reply back before split runs snapshotId history key found used bound
      between
    rw [split] at forward bounded horizon
    obtain ⟨early, drop⟩ := dropTime_of_run forward bounded horizon runs found
    obtain ⟨after, next⟩ : ∃ after,
        workerRun delta .empty (front ++ [.advanceTime time reply]) = some after := by
      rw [workerRun_append, runs]
      exact ⟨_, rfl⟩
    have kept : (history.advance time).1.InUse key :=
      inUse_advance_iff.mpr ⟨used, by omega⟩
    have newer : after.get? snapshotId = some (history.advance time).1 := by
      rw [get?_workerRun_advance runs next, found]
      rfl
    have late := (prunes front time reply back before after split runs next).retains _ _ newer
      key kept
    omega
  · intro nothing front time reply back before after split runs next
    have none := nothing front time reply back before split runs
    rw [split] at forward bounded horizon
    refine ⟨?_, ?_⟩
    · intro snapshotId newer found key used
      rw [get?_workerRun_advance runs next, Option.map_eq_some_iff] at found
      obtain ⟨history, older, rfl⟩ := found
      obtain ⟨early, drop⟩ := dropTime_of_run forward bounded horizon runs older
      obtain ⟨earlier, kept⟩ := inUse_advance_iff.mp used
      have outside := none snapshotId history key older earlier
      omega
    · intro snapshotId history older
      obtain ⟨early, drop⟩ := dropTime_of_run forward bounded horizon runs older
      refine ⟨(history.advance time).1, ?_, ?_, ?_⟩
      · rw [get?_workerRun_advance runs next, older]
        rfl
      · intro entry member reached
        exact LocalSnapshotHistory.mem_advance_events.mpr ⟨member, by omega⟩
      · intro entry member reached
        exact LocalSnapshotHistory.mem_advance_checkpoints.mpr ⟨member, by omega⟩

/-- Two ids that are first seen before the only advance, which takes the one event. -/
theorem advances_prune_by_instance_iff_seen_before
    : let front : List (WorkerInbound TestSnapshot TestEvent) :=
        [.snapshot ⟨1, 20, [], 100⟩ ⟨0, 0⟩, .event 2 (.positive 2 3 0 1) ⟨2, 0, [], 0⟩ ⟨1, 0⟩]
      ∃ before after,
        workerRun 0 .empty front = some before
        ∧ workerRun 0 .empty (front ++ [.advanceTime 10 ⟨2, 0⟩]) = some after
        ∧ PrunesBelow 10 before after
        ∧ (before.get? 2).map (fun history => history.events.keys) = some [⟨3, 0⟩]
        ∧ (after.get? 2).map (fun history => history.events.keys) = some [] := by
  intro front
  obtain ⟨before, runs⟩ : ∃ before, workerRun 0 .empty front = some before := ⟨_, rfl⟩
  obtain ⟨after, next⟩
      : ∃ after, workerRun 0 .empty (front ++ [.advanceTime 10 ⟨2, 0⟩]) = some after := ⟨_, rfl⟩
  have stored
      : ((workerRun 0 .empty front).bind (fun final => final.get? 2)).map
          (fun history => history.events.keys) = some [⟨3, 0⟩] := by
    decide
  have taken
      : ((workerRun 0 .empty (front ++ [.advanceTime 10 ⟨2, 0⟩])).bind
          (fun final => final.get? 2)).map (fun history => history.events.keys) = some [] := by
    decide
  rw [runs] at stored
  rw [next] at taken
  have prunes :=
    (advances_prune_by_instance_iff 0 (front ++ [.advanceTime 10 ⟨2, 0⟩])
      (by simp [front, WorkerInbound.amount]) (by decide) (by decide)).mpr (by
        intro early time reply back before split runs snapshotId history key found used bound
          between
        have idle : missed snapshotId early = 0 := by
          refine missed_of_idle (fun message member => ?_)
          rcases early with _ | ⟨first, _ | ⟨second, _ | ⟨third, rest⟩⟩⟩
          · simp at member
          · simp [front] at split
          · simp only [front, List.cons_append, List.nil_append, List.cons.injEq] at split
            obtain ⟨rfl, rfl, _⟩ := split
            simp only [List.mem_cons, List.not_mem_nil, or_false] at member
            rcases member with rfl | rfl <;> rfl
          · simp [front] at split
        omega)
  exact ⟨before, after, runs, next, prunes front 10 ⟨2, 0⟩ [] before after rfl runs next, stored,
    taken⟩

/-- An id that is first seen after an advance keeps an event from before the drop time. -/
theorem history_lags_behind_instance
    : let messages : List (WorkerInbound TestSnapshot TestEvent) :=
        [.advanceTime 100 ⟨0, 0⟩, .event 1 (.positive 1 50 0 1) ⟨1, 0, [], 0⟩ ⟨1, 0⟩,
          .advanceTime 10 ⟨2, 0⟩]
      advanced messages - (0 : Time).toInt = 110
      ∧ ((workerRun 0 .empty messages).bind (fun final => final.get? 1)).map
          (fun history => history.events.keys)
        = some [⟨50, 0⟩] := by
  decide

end Contime
