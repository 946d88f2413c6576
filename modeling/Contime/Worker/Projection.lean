import Contime.Model.Worker
import Contime.History.Runs

/-! A worker as a family of histories. What a message does to the history of one id depends on
that history alone, so a run of the worker projects to a run of each history.
-/

namespace Contime

universe u v
variable {SL : Type u} {EL : Type v} [Event EL] [Snapshot SL EL]

/-- The message is about one id only, and about this one. -/
def WorkerInbound.Addresses (snapshotId : SnapshotId) : WorkerInbound SL EL → Prop
  | .event target _ _ _ => target = snapshotId
  | .snapshot lane _ => Snapshot.id lane = snapshotId
  | .snapshotAt target _ _ => target = snapshotId
  | .advanceTime _ _ | .shutdown => False

/-- The message makes a history for the id if there is none. -/
def WorkerInbound.creates (snapshotId : SnapshotId) : WorkerInbound SL EL → Bool
  | .event target _ _ _ => target = snapshotId
  | .snapshot lane _ => Snapshot.id lane = snapshotId
  | .advanceTime _ _ | .snapshotAt _ _ _ | .shutdown => false

omit [Event EL] in
/-- Only a message to the id makes a history for it. -/
theorem WorkerInbound.creates_of_not_addresses {snapshotId : SnapshotId}
    {message : WorkerInbound SL EL} (other : ¬message.Addresses snapshotId)
    : message.creates snapshotId = false := by
  cases message with
  | event target lane initial reply => exact decide_eq_false other
  | snapshot lane reply => exact decide_eq_false other
  | advanceTime | snapshotAt | shutdown => rfl

/-- The message delivers an event to the id. -/
def WorkerInbound.eventFor (snapshotId : SnapshotId) : WorkerInbound SL EL → Option EL
  | .event target lane _ _ => if target = snapshotId then some lane else none
  | .snapshot _ _ | .snapshotAt _ _ _ | .advanceTime _ _ | .shutdown => none

variable [ApplyEvent EL SL]

/-- What a message makes of the history of one id. -/
def ownHistory (lowerTimeHorizonDelta : Time) (snapshotId : SnapshotId)
    (current : Option (LocalSnapshotHistory SL EL))
    : WorkerInbound SL EL → Option (LocalSnapshotHistory SL EL)
  | .advanceTime time _ => current.map (fun history => (history.advance time).1)
  | .event target event initial _ =>
      if target = snapshotId then
        let history := current.getD (LocalSnapshotHistory.new initial 0 lowerTimeHorizonDelta).1
        some (history.applyEvent event).1
      else current
  | .snapshot snapshot _ =>
      if Snapshot.id snapshot = snapshotId then
        match current with
        | some history => some (history.applySnapshot snapshot).1
        | none => some (LocalSnapshotHistory.new snapshot 0 lowerTimeHorizonDelta).1
      else current
  | .snapshotAt _ _ _ | .shutdown => current

variable {delta : Time} {historyById : HistoryById SL EL} {message : WorkerInbound SL EL}
  {visits : List SnapshotId}

variable (delta historyById message visits) in
/-- The order in which an advance visits the histories is the order of its deltas and nothing else,
by cases on the message.
-/
theorem handleWorker_visits
    : (handleWorker delta historyById message visits = none
        ∧ handleWorker delta historyById message = none)
      ∨ ∃ handled deltas,
          handleWorker delta historyById message = some handled
          ∧ handleWorker delta historyById message visits = some { handled with deltas }
          ∧ deltas.Perm handled.deltas := by
  have unordered (same
        : handleWorker delta historyById message visits = handleWorker delta historyById message)
      : (handleWorker delta historyById message visits = none
          ∧ handleWorker delta historyById message = none)
        ∨ ∃ handled deltas,
            handleWorker delta historyById message = some handled
            ∧ handleWorker delta historyById message visits = some { handled with deltas }
            ∧ deltas.Perm handled.deltas := by
    cases shape : handleWorker delta historyById message with
    | none => exact Or.inl ⟨same.trans shape, rfl⟩
    | some handled => exact Or.inr ⟨handled, _, rfl, same.trans shape, List.Perm.refl _⟩
  cases message with
  | advanceTime time reply =>
      exact Or.inr ⟨_, _, rfl, rfl, (historyById.inOrder_perm visits).map _⟩
  | event | snapshot | snapshotAt | shutdown => exact unordered rfl

variable (delta) in
/-- An advance may commit the deltas of its histories in any order. -/
theorem handleWorker_in_order {order : List (SnapshotId × LocalSnapshotHistory SL EL)}
    (perm : order.Perm historyById.entries) (time : Time) (reply : ReplyChannel)
    : (handleWorker delta historyById (.advanceTime time reply) (order.map Prod.fst)).map
          Handled.deltas
        = some (order.map (fun entry => (entry.2.advance time).2.bytesDelta)) := by
  rw [handleWorker, BTreeMap.inOrder_of_perm historyById perm, Option.map_some]

/-- A worker that takes a message takes it with any order of visits. -/
theorem handleWorker_with {handled : Handled SL EL}
    (shape : handleWorker delta historyById message = some handled) (visits : List SnapshotId)
    : ∃ deltas,
        handleWorker delta historyById message visits = some { handled with deltas }
        ∧ deltas.Perm handled.deltas := by
  rcases handleWorker_visits delta historyById message visits with
    ⟨_, never⟩ | ⟨other, deltas, same, takes, perm⟩
  · rw [shape] at never
    cases never
  · rw [shape] at same
    cases same
    exact ⟨deltas, takes, perm⟩

/-- A worker that takes a message with some order of visits takes it in id order. -/
theorem handleWorker_without {handled : Handled SL EL}
    (shape : handleWorker delta historyById message visits = some handled)
    : ∃ other,
        handleWorker delta historyById message = some other
        ∧ handled.historyById = other.historyById
        ∧ handled.reply = other.reply
        ∧ handled.deltas.Perm other.deltas := by
  rcases handleWorker_visits delta historyById message visits with
    ⟨never, _⟩ | ⟨other, deltas, same, takes, perm⟩
  · rw [shape] at never
    cases never
  · rw [shape] at takes
    cases takes
    exact ⟨other, same, rfl, rfl, perm⟩

/-- An event message replaces the history of its target. -/
theorem handleWorker_event_historyById {target : SnapshotId} {event : EL} {initial : SL}
    {reply : ReplyChannel} {handled : Handled SL EL}
    (handles
      : handleWorker delta historyById (.event target event initial reply) visits = some handled)
    : let history :=
        (historyById.get? target).getD (LocalSnapshotHistory.new initial 0 delta).1
      handled.historyById = historyById.insert target (history.applyEvent event).1 := by
  cases found : historyById.get? target with
  | none =>
      simp only [handleWorker, found, Option.some_inj] at handles
      rw [← handles]
      rfl
  | some history =>
      simp only [handleWorker, found, Option.some_inj] at handles
      rw [← handles]
      rfl

/-- A snapshot message replaces the history of its own id. -/
theorem handleWorker_snapshot_historyById {snapshot : SL} {reply : ReplyChannel}
    {handled : Handled SL EL}
    (handles : handleWorker delta historyById (.snapshot snapshot reply) visits = some handled)
    : handled.historyById
      = historyById.insert (Snapshot.id snapshot)
          (match historyById.get? (Snapshot.id snapshot) with
            | some history => (history.applySnapshot snapshot).1
            | none => (LocalSnapshotHistory.new snapshot 0 delta).1) := by
  cases found : historyById.get? (Snapshot.id snapshot) with
  | none =>
      simp only [handleWorker, found, Option.some_inj] at handles
      rw [← handles]
  | some history =>
      simp only [handleWorker, found, Option.some_inj] at handles
      rw [← handles]

/-- A query leaves the histories alone. -/
theorem handleWorker_snapshotAt_historyById {target : SnapshotId} {time : Time}
    {reply : ReplyChannel} {handled : Handled SL EL}
    (handles
      : handleWorker delta historyById (.snapshotAt target time reply) visits = some handled)
    : handled.historyById = historyById := by
  cases found : historyById.get? target with
  | none =>
      simp only [handleWorker, found, Option.some_inj] at handles
      rw [← handles]
  | some history =>
      simp only [handleWorker, found, Option.map_eq_some_iff] at handles
      obtain ⟨answer, _, rfl⟩ := handles
      rfl

/-- Handling a message changes the history of each id as its projection does. -/
theorem get?_handleWorker {handled : Handled SL EL}
    (handles : handleWorker delta historyById message visits = some handled)
    (snapshotId : SnapshotId)
    : handled.historyById.get? snapshotId
      = ownHistory delta snapshotId (historyById.get? snapshotId) message := by
  cases message with
  | advanceTime time reply =>
      obtain rfl := Option.some.inj handles
      exact BTreeMap.get?_mapValues ..
  | event target event initial reply =>
      rw [handleWorker_event_historyById handles, BTreeMap.get?_insert]
      simp only [ownHistory]
      by_cases same : target = snapshotId
      · rw [if_pos same, if_pos same.symm, same]
      · rw [if_neg same, if_neg (Ne.symm same)]
  | snapshot snapshot reply =>
      rw [handleWorker_snapshot_historyById handles, BTreeMap.get?_insert]
      simp only [ownHistory]
      by_cases same : Snapshot.id snapshot = snapshotId
      · rw [if_pos same, if_pos same.symm, same]
        cases historyById.get? snapshotId <;> rfl
      · rw [if_neg same, if_neg (Ne.symm same)]
  | snapshotAt target time reply =>
      rw [handleWorker_snapshotAt_historyById handles]
      rfl
  | shutdown => cases handles

variable (delta historyById) in
/-- A run goes on from where an earlier part of it ended. -/
theorem workerRun_append (first second : List (WorkerInbound SL EL))
    : workerRun delta historyById (first ++ second)
      = (workerRun delta historyById first).bind (fun next => workerRun delta next second) :=
  List.foldlM_append

variable (delta historyById) in
/-- Only a query or a shutdown can end the thread. -/
theorem handleWorker_isSome (noQuery : ∀ target time reply, message ≠ .snapshotAt target time reply)
    (running : message ≠ .shutdown)
    : ∃ handled, handleWorker delta historyById message = some handled := by
  cases message with
  | advanceTime time reply => exact ⟨_, rfl⟩
  | event target event initial reply => exact ⟨_, rfl⟩
  | snapshot snapshot reply => exact ⟨_, rfl⟩
  | snapshotAt target time reply => exact absurd rfl (noQuery target time reply)
  | shutdown => exact absurd rfl running

variable (delta historyById) in
/-- A run without queries and shutdowns takes all its messages. -/
theorem workerRun_isSome {messages : List (WorkerInbound SL EL)}
    (noQuery : ∀ target time reply, .snapshotAt target time reply ∉ messages)
    (running : .shutdown ∉ messages)
    : ∃ final, workerRun delta historyById messages = some final := by
  induction messages generalizing historyById with
  | nil => exact ⟨historyById, rfl⟩
  | cons message rest ih =>
      obtain ⟨handled, handles⟩ :=
        handleWorker_isSome delta historyById
          (fun target time reply same => noQuery target time reply (same ▸ .head _))
          (fun same => running (same ▸ .head _))
      obtain ⟨final, later⟩ := ih handled.historyById
        (fun target time reply member => noQuery target time reply (.tail _ member))
        (fun member => running (.tail _ member))
      have first : (handleWorker delta historyById message).map Handled.historyById
          = some handled.historyById := by
        rw [handles]
        rfl
      exact ⟨final, Option.bind_eq_some_iff.mpr ⟨handled.historyById, first, later⟩⟩

/-- A run of a worker changes the history of each id as its projections do in turn. -/
theorem get?_workerRun {messages : List (WorkerInbound SL EL)} {final : HistoryById SL EL}
    (runs : workerRun delta historyById messages = some final) (snapshotId : SnapshotId)
    : final.get? snapshotId
      = messages.foldl (ownHistory delta snapshotId) (historyById.get? snapshotId) := by
  induction messages generalizing historyById with
  | nil =>
      obtain rfl := Option.some.inj runs
      rfl
  | cons message rest ih =>
      obtain ⟨next, first, later⟩ := Option.bind_eq_some_iff.mp runs
      obtain ⟨handled, handles, rfl⟩ := Option.map_eq_some_iff.mp first
      rw [ih later, get?_handleWorker handles, List.foldl_cons]

/-- A message that neither addresses an id nor advances leaves its history alone. -/
theorem ownHistory_of_other {snapshotId : SnapshotId}
    {current : Option (LocalSnapshotHistory SL EL)}
    (other : ¬ message.Addresses snapshotId)
    (still : ∀ time reply, message ≠ .advanceTime time reply)
    : ownHistory delta snapshotId current message = current := by
  cases message with
  | advanceTime time reply => exact absurd rfl (still time reply)
  | event target event initial reply => exact if_neg other
  | snapshot snapshot reply => exact if_neg other
  | snapshotAt target time reply => rfl
  | shutdown => rfl

/-- An id without a history gets none from messages that do not create one. -/
theorem foldl_ownHistory_none {snapshotId : SnapshotId} {messages : List (WorkerInbound SL EL)}
    (others : ∀ message ∈ messages, message.creates snapshotId = false)
    : messages.foldl (ownHistory delta snapshotId) none = none := by
  induction messages with
  | nil => rfl
  | cons message rest ih =>
      have unseen : ownHistory delta snapshotId none message = none := by
        cases message with
        | advanceTime time reply => rfl
        | event target event initial reply =>
            exact if_neg (of_decide_eq_false (others _ (.head _)))
        | snapshot snapshot reply => exact if_neg (of_decide_eq_false (others _ (.head _)))
        | snapshotAt target time reply => rfl
        | shutdown => rfl
      rw [List.foldl_cons, unseen]
      exact ih (fun later member => others later (.tail _ member))

/-- A message that delivers an event to the id, or is about neither the id nor the clock. -/
def WorkerInbound.DeliversAtMost (snapshotId : SnapshotId) (message : WorkerInbound SL EL)
    : Prop :=
  (message.eventFor snapshotId).isSome
  ∨ (¬ message.Addresses snapshotId ∧ ∀ time reply, message ≠ .advanceTime time reply)

/-- Between messages about other ids, a stored history takes the events delivered to it. -/
theorem foldl_ownHistory_events {snapshotId : SnapshotId} {messages : List (WorkerInbound SL EL)}
    (deliver : ∀ message ∈ messages, message.DeliversAtMost snapshotId)
    (history : LocalSnapshotHistory SL EL)
    : messages.foldl (ownHistory delta snapshotId) (some history)
      = some (history.applyEvents (messages.filterMap (WorkerInbound.eventFor snapshotId))) := by
  induction messages generalizing history with
  | nil => rfl
  | cons message rest ih =>
      have later := ih (fun later member => deliver later (.tail _ member))
      rw [List.foldl_cons]
      rcases deliver message (.head _) with delivers | ⟨other, still⟩
      · obtain ⟨event, found⟩ := Option.isSome_iff_exists.mp delivers
        have applied : ownHistory delta snapshotId (some history) message
            = some (history.applyEvent event).1 := by
          cases message with
          | event target lane initial reply =>
              rw [WorkerInbound.eventFor] at found
              split at found
              next same =>
                obtain rfl := Option.some.inj found
                exact if_pos same
              next => cases found
          | advanceTime time reply => cases found
          | snapshot snapshot reply => cases found
          | snapshotAt target time reply => cases found
          | shutdown => cases found
        rw [applied, later, List.filterMap_cons_some found]
        rfl
      · have none : message.eventFor snapshotId = none := by
          cases message with
          | event target lane initial reply => exact if_neg other
          | advanceTime time reply => rfl
          | snapshot snapshot reply => rfl
          | snapshotAt target time reply => rfl
          | shutdown => rfl
        rw [ownHistory_of_other other still, later, List.filterMap_cons_none none]

end Contime
