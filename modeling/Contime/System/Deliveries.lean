import Contime.System.Service
import Contime.Worker.Projection

/-! What a system keeps while clients only deliver events: every history is a new one fed with
events that target it, and every reply stands for an event that its history holds.
-/

namespace Contime

universe u v
variable {SL : Type u} {EL : Type v} [Event EL] [Snapshot SL EL] [ApplyEvent EL SL]
  [EventLanes EL SL]

/-- The event lists an initial snapshot of the id. -/
def Targets (SL : Type u) [Snapshot SL EL] [EventLanes EL SL] (lane : EL)
    (snapshotId : SnapshotId)
    : Prop :=
  ∃ initial ∈ (EventLanes.snapshots lane : List SL), Snapshot.id initial = snapshotId

/-- A new history of some target snapshot of the id, fed with events that target the id. -/
def Fed (lanes : List EL) (lowerTimeHorizonDelta : Time) (snapshotId : SnapshotId)
    (history : LocalSnapshotHistory SL EL)
    : Prop :=
  ∃ initial : SL, ∃ events : List EL,
    (∃ lane ∈ lanes, initial ∈ EventLanes.snapshots lane)
    ∧ Snapshot.id initial = snapshotId
    ∧ (∀ event ∈ events, event ∈ lanes ∧ Targets SL event snapshotId)
    ∧ history = (LocalSnapshotHistory.new initial 0 lowerTimeHorizonDelta).1.applyEvents events

/-- Every history of a worker is fed with events that target it. -/
def AllFed (lanes : List EL) (lowerTimeHorizonDelta : Time) (historyById : HistoryById SL EL)
    : Prop :=
  ∀ snapshotId history, historyById.get? snapshotId = some history
  → Fed lanes lowerTimeHorizonDelta snapshotId history

/-- The history of the id stores an event under the key. -/
def Holds (historyById : HistoryById SL EL) (snapshotId : SnapshotId) (key : ContimeKey)
    : Prop :=
  ∃ history, historyById.get? snapshotId = some history ∧ key ∈ history.events.keys

/-- The history an event message is applied to: the stored one, or a new one. -/
def historyFor (lowerTimeHorizonDelta : Time) (historyById : HistoryById SL EL) (initial : SL)
    : LocalSnapshotHistory SL EL :=
  (historyById.get? (Snapshot.id initial)).getD
    (LocalSnapshotHistory.new initial 0 lowerTimeHorizonDelta).1

omit [EventLanes EL SL] in
/-- An event message puts the event into its history and changes no other one. -/
theorem handleWorker_event_eq (delta : Time) (historyById : HistoryById SL EL) (lane : EL)
    (initial : SL) (reply : ReplyChannel)
    : ∃ deltas,
        handleWorker delta historyById (.event (Snapshot.id initial) lane initial reply)
          = some {
              historyById := historyById.insert (Snapshot.id initial)
                ((historyFor delta historyById initial).applyEvent lane).1,
              deltas,
              reply := (reply, .done)
            } := by
  cases found : historyById.get? (Snapshot.id initial) with
  | none =>
      simp only [handleWorker, historyFor, found, Option.getD_none]
      exact ⟨_, rfl⟩
  | some history =>
      simp only [handleWorker, historyFor, found, Option.getD_some]
      exact ⟨_, rfl⟩

/-- Feeding one more event that targets the id. -/
theorem fed_historyFor {lanes : List EL} {delta : Time} {historyById : HistoryById SL EL}
    (fed : AllFed lanes delta historyById) {lane : EL} (delivered : lane ∈ lanes)
    {initial : SL} (listed : initial ∈ EventLanes.snapshots lane)
    : Fed lanes delta (Snapshot.id initial)
        ((historyFor delta historyById initial).applyEvent lane).1 := by
  have targets : Targets SL lane (Snapshot.id initial) := ⟨initial, listed, rfl⟩
  cases found : historyById.get? (Snapshot.id initial) with
  | none =>
      rw [historyFor, found]
      refine ⟨initial, [lane], ⟨lane, delivered, listed⟩, rfl, ?_, rfl⟩
      intro event member
      exact List.mem_singleton.mp member ▸ ⟨delivered, targets⟩
  | some history =>
      rw [historyFor, found]
      obtain ⟨first, events, source, id, all, rfl⟩ := fed _ history found
      refine ⟨first, events ++ [lane], source, id, ?_, ?_⟩
      · intro event member
        rcases List.mem_append.mp member with earlier | last
        · exact all event earlier
        · exact List.mem_singleton.mp last ▸ ⟨delivered, targets⟩
      · rw [LocalSnapshotHistory.applyEvents_append]
        rfl

omit [EventLanes EL SL] in
/-- Only advancing takes an event out of a history. -/
theorem Holds.handleWorker {delta : Time} {historyById : HistoryById SL EL}
    {message : WorkerInbound SL EL} {handled : Handled SL EL}
    (shape : handleWorker delta historyById message = some handled)
    (still : ∀ time reply, message ≠ .advanceTime time reply) {snapshotId : SnapshotId}
    {key : ContimeKey} (holds : Holds historyById snapshotId key)
    : Holds handled.historyById snapshotId key := by
  obtain ⟨history, found, stored⟩ := holds
  rw [Holds, get?_handleWorker shape, found]
  cases message with
  | advanceTime time reply => exact absurd rfl (still time reply)
  | event target lane initial reply =>
      simp only [ownHistory]
      split
      · refine ⟨_, rfl, ?_⟩
        rw [LocalSnapshotHistory.applyEvent_events]
        exact BTreeMap.mem_keys_insertNew.mpr (Or.inr stored)
      · exact ⟨history, rfl, stored⟩
  | snapshot lane reply =>
      simp only [ownHistory]
      split
      · refine ⟨_, rfl, ?_⟩
        rw [LocalSnapshotHistory.applySnapshot_events]
        exact stored
      · exact ⟨history, rfl, stored⟩
  | snapshotAt target time reply => exact ⟨history, rfl, stored⟩
  | shutdown => exact ⟨history, rfl, stored⟩

omit [EventLanes EL SL] in
/-- An event message puts the event into its history. -/
theorem Holds.of_event {delta : Time} {historyById : HistoryById SL EL} {target : SnapshotId}
    {lane : EL} {initial : SL} {reply : ReplyChannel} {handled : Handled SL EL}
    (shape : Contime.handleWorker delta historyById (.event target lane initial reply)
      = some handled)
    : Holds handled.historyById target (ContimeKey.fromEvent lane) := by
  rw [Holds, get?_handleWorker shape, ownHistory, if_pos rfl]
  refine ⟨_, rfl, ?_⟩
  rw [LocalSnapshotHistory.applyEvent_events]
  exact BTreeMap.mem_keys_insertNew.mpr (Or.inl rfl)

/-- Handling an event message stores the event and keeps what the worker held. -/
theorem handleWorker_event {lanes : List EL} {delta : Time} {historyById : HistoryById SL EL}
    (fed : AllFed lanes delta historyById) {lane : EL} (delivered : lane ∈ lanes)
    {initial : SL} (listed : initial ∈ EventLanes.snapshots lane) (reply : ReplyChannel)
    : ∃ handled,
        handleWorker delta historyById (.event (Snapshot.id initial) lane initial reply)
          = some handled
        ∧ handled.reply.1 = reply
        ∧ AllFed lanes delta handled.historyById
        ∧ Holds handled.historyById (Snapshot.id initial) (ContimeKey.fromEvent lane)
        ∧ ∀ snapshotId key, Holds historyById snapshotId key
          → Holds handled.historyById snapshotId key := by
  obtain ⟨deltas, shape⟩ := handleWorker_event_eq delta historyById lane initial reply
  refine ⟨_, shape, rfl, ?_, .of_event shape, ?_⟩
  · intro snapshotId history found
    rw [BTreeMap.get?_insert] at found
    split at found
    next same =>
      rw [same, ← Option.some.inj found]
      exact fed_historyFor fed delivered listed
    next => exact fed snapshotId history found
  · intro snapshotId key holds
    refine holds.handleWorker shape ?_
    intro time channel same
    cases same

-----------------------------------------------------------------------------------------
-- Event messages as a service
-----------------------------------------------------------------------------------------

variable {router : Router}

namespace System

/-- The message that delivers an event to one of its targets, with the worker it goes to. -/
def delivery (router : Router) (lane : EL) (initial : SL) (channel : ReplyChannel)
    : Fin router.workerCount × WorkerInbound SL EL :=
  (router.workerIndex (Snapshot.id initial),
    .event (Snapshot.id initial) lane initial channel)

/-- The message delivers one of the events to one of its targets. -/
def Delivers (lanes : List EL) (channel : ReplyChannel) (worker : Fin router.workerCount)
    (message : WorkerInbound SL EL)
    : Prop :=
  ∃ lane ∈ lanes, ∃ initial ∈ EventLanes.snapshots lane,
    (worker, message) = delivery router lane initial channel

/-- Workers feed their histories, and reply to an event once its history holds it. -/
def deliveries (router : Router) (SL : Type u) [Snapshot SL EL] [ApplyEvent EL SL]
    [EventLanes EL SL] (lanes : List EL)
    : Service router SL EL where
  Genuine := Delivers lanes
  Keeps _ := AllFed lanes router.lowerTimeHorizonDelta
  Answered historyById message _ :=
    ∀ snapshotId lane initial channel, message = .event snapshotId lane initial channel
    → Holds historyById snapshotId (ContimeKey.fromEvent lane)
  serves := by
    intro channel worker message historyById genuine fed
    obtain ⟨lane, delivered, initial, listed, equal⟩ := genuine
    obtain ⟨rfl, rfl⟩ := Prod.mk.inj equal
    obtain ⟨handled, shape, reply, keeps, held, holds⟩ :=
      handleWorker_event fed delivered listed channel
    refine ⟨handled, shape, reply, keeps, ?_, ?_⟩
    · intro snapshotId event first other same
      cases same
      exact held
    · intro earlier _ answered snapshotId event first other same
      exact holds _ _ (answered snapshotId event first other same)

-----------------------------------------------------------------------------------------
-- The calls of a run
-----------------------------------------------------------------------------------------

/-- Every sent event was turned away or has a message for each of its targets, and every
message has its reply channel.
-/
structure Sent (lanes : List EL) (system : System router SL EL) : Prop where
  complete : ∀ call ∈ system.calls, call.replies.length = call.messages.length
  covers
    : ∀ lane ∈ lanes,
      (∃ call ∈ system.calls, call.error ≠ none)
      ∨ ∀ initial ∈ (EventLanes.snapshots lane : List SL), ∃ channel,
        system.messageAt channel = some (delivery router lane initial channel)

variable {lanes : List EL} {system : System router SL EL}

/-- A step that starts no call sends no event. -/
theorem Sent.step (sent : Sent lanes system) {action : Action router SL EL}
    (serves : action.Serves)
    : Sent lanes (system.step action).1 := by
  have messages := messageAt_step system serves
  obtain ⟨index, change, calls, kept, failed⟩ := step_calls system serves
  refine ⟨?_, ?_⟩
  · rw [calls]
    intro call member
    have listed : skeleton call ∈ system.calls.map skeleton :=
      map_modify kept system.calls index ▸ List.mem_map_of_mem member
    obtain ⟨old, found, equal⟩ := List.mem_map.mp listed
    obtain ⟨messages, replies⟩ := Prod.mk.inj equal
    rw [← replies, ← messages]
    exact sent.complete old found
  · intro lane member
    refine (sent.covers lane member).imp ?_ ?_
    · rw [calls]
      intro failure
      obtain ⟨call, found, error⟩ := failure
      obtain ⟨position, inside, rfl⟩ := List.mem_iff_getElem.mp found
      have inside' : position < (system.calls.modify index change).length := by simpa using inside
      refine ⟨(system.calls.modify index change)[position], List.getElem_mem inside', ?_⟩
      rw [List.getElem_modify]
      split
      · exact failed _ error
      · exact error
    · intro all initial listed
      simpa only [messages] using all initial listed

omit [Event EL] [ApplyEvent EL SL] in
/-- A message of an event's call. -/
theorem getElem?_eventMessages {call position : Nat} {lane : EL}
    {entry : Fin router.workerCount × WorkerInbound SL EL}
    : (eventMessages router call lane)[position]? = some entry
      ↔ ∃ initial, (EventLanes.snapshots lane : List SL)[position]? = some initial
        ∧ entry = delivery router lane initial { call, position } := by
  rw [eventMessages, List.getElem?_mapIdx, Option.map_eq_some_iff]
  exact exists_congr (fun _ => and_congr_right (fun _ => eq_comm))

/-- Sending an event starts a call with its messages, or one that was turned away. -/
theorem sendEvent_calls (system : System router SL EL) (lane : EL)
    : ∃ call, (system.step (.sendEvent lane)).1 = { system with calls := system.calls ++ [call] }
        ∧ (call = .rejected .memoryFull
          ∨ call = .open (eventMessages router system.calls.length lane)) :=
  system.accept_calls (Event.conservativeSize lane) _

/-- Sending an event keeps a system serving if the messages of its targets are genuine. -/
theorem Serving.startEvent {service : Service router SL EL} (serving : Serving service system)
    {lane : EL}
    (genuine : ∀ channel (initial : SL), initial ∈ EventLanes.snapshots lane
      → service.Genuine channel (delivery router lane initial channel).1
          (delivery router lane initial channel).2)
    : Serving service (system.step (.sendEvent lane)).1 := by
  obtain ⟨call, shape, accepted⟩ := sendEvent_calls system lane
  rw [shape]
  rcases accepted with rfl | rfl
  · exact serving.rejected .memoryFull
  · refine serving.start rfl rfl (by simp [Call.open]) ?_
    intro position worker message found
    obtain ⟨initial, listed, equal⟩ := getElem?_eventMessages.mp found
    obtain ⟨rfl, rfl⟩ := Prod.mk.inj equal
    exact genuine _ initial (List.mem_of_getElem? listed)

theorem Serving.sendEvent (serving : Serving (deliveries router SL lanes) system) {lane : EL}
    (member : lane ∈ lanes)
    : Serving (deliveries router SL lanes) (system.step (.sendEvent lane)).1 :=
  serving.startEvent (fun _ initial listed => ⟨lane, member, initial, listed, rfl⟩)

theorem Sent.sendEvent (sent : Sent lanes system) (lane : EL)
    : Sent (lanes ++ [lane]) (system.step (.sendEvent lane)).1 := by
  obtain ⟨call, shape, accepted⟩ := sendEvent_calls system lane
  rw [shape]
  have start {channel : ReplyChannel} {entry : Fin router.workerCount × WorkerInbound SL EL}
      : System.messageAt { system with calls := system.calls ++ [call] } channel = some entry
        ↔ system.messageAt channel = some entry
          ∨ (channel.call = system.calls.length
            ∧ call.messages[channel.position]? = some entry) :=
    messageAt_start rfl
  refine ⟨?_, ?_⟩
  · intro member listed
    rcases List.mem_append.mp listed with earlier | last
    · exact sent.complete member earlier
    · rw [List.mem_singleton.mp last]
      rcases accepted with rfl | rfl
      · rfl
      · simp [Call.open]
  · intro member listed
    rcases List.mem_append.mp listed with earlier | last
    · refine (sent.covers member earlier).imp ?_ ?_
      · intro failure
        obtain ⟨failed, old, error⟩ := failure
        exact ⟨failed, List.mem_append_left _ old, error⟩
      · intro all initial target
        obtain ⟨channel, found⟩ := all initial target
        exact ⟨channel, start.mpr (Or.inl found)⟩
    · rw [List.mem_singleton.mp last]
      rcases accepted with rfl | rfl
      · left
        refine ⟨_, List.mem_append_right _ (List.mem_singleton_self _), ?_⟩
        exact Option.some_ne_none _
      · right
        intro initial target
        obtain ⟨position, found⟩ := List.getElem?_of_mem target
        refine ⟨⟨system.calls.length, position⟩, start.mpr (Or.inr ⟨rfl, ?_⟩)⟩
        exact getElem?_eventMessages.mpr ⟨initial, found, rfl⟩

/-- The step sends an event or starts no call. -/
def Feeds : Action router SL EL → Prop
  | .sendEvent _ => True
  | action => action.Serves

/-- The events sent in a run, one for each call. -/
def sentEvents (actions : List (Action router SL EL)) : List EL :=
  actions.filterMap (fun
    | .sendEvent lane => some lane
    | _ => none)

/-- A run that only sends events feeds the histories with them. -/
theorem run_feeds {actions : List (Action router SL EL)} (feeds : ∀ action ∈ actions, Feeds action)
    : Serving (deliveries router SL (sentEvents actions)) (new.run actions)
      ∧ Sent (sentEvents actions) ((new : System router SL EL).run actions) := by
  generalize all : sentEvents actions = lanes
  have kept (past : List (Action router SL EL)) (state : System router SL EL)
      (action : Action router SL EL)
      (before : (∀ earlier ∈ past, Feeds earlier) → sentEvents past ⊆ lanes
        → Serving (deliveries router SL lanes) state ∧ Sent (sentEvents past) state)
      (feeds : ∀ earlier ∈ past ++ [action], Feeds earlier)
      (known : sentEvents (past ++ [action]) ⊆ lanes)
      : Serving (deliveries router SL lanes) (state.step action).1
        ∧ Sent (sentEvents (past ++ [action])) (state.step action).1 := by
    rw [sentEvents, List.filterMap_append, ← sentEvents] at known ⊢
    obtain ⟨serving, sent⟩ := before
      (fun earlier member => feeds earlier (List.mem_append_left _ member))
      (List.Subset.trans (List.subset_append_left _ _) known)
    have feeds : Feeds action := feeds action (List.mem_append_right _ (List.mem_singleton_self _))
    cases action with
    | sendEvent lane =>
        have member : lane ∈ lanes := known (by simp)
        exact ⟨serving.sendEvent member, sent.sendEvent lane⟩
    | sendSnapshot | queryAt | sendAdvance => exact feeds.elim
    | enqueue | handle | commit | respond =>
        refine ⟨serving.step feeds, ?_⟩
        rw [List.filterMap_cons_none rfl, List.filterMap_nil, List.append_nil]
        exact sent.step feeds
  have initially (_ : ∀ earlier ∈ ([] : List (Action router SL EL)), Feeds earlier)
      (_ : sentEvents ([] : List (Action router SL EL)) ⊆ lanes)
      : Serving (deliveries router SL lanes) new
        ∧ Sent (sentEvents ([] : List (Action router SL EL))) (new : System router SL EL) :=
    ⟨serving_new (fun _ _ _ found => absurd found (by simp)),
      fun _ member => absurd member List.not_mem_nil,
      fun _ member => absurd member List.not_mem_nil⟩
  have whole := Transducer.final_history kept initially actions feeds (all ▸ List.Subset.refl _)
  exact ⟨whole.1, all ▸ whole.2⟩

omit [Event EL] [Snapshot SL EL] [ApplyEvent EL SL] [EventLanes EL SL] in
/-- A completed call has the replies to all its messages. -/
theorem replyAt_of_completed
    (complete : ∀ call ∈ system.calls, call.replies.length = call.messages.length)
    {channel : ReplyChannel} {entry : Fin router.workerCount × WorkerInbound SL EL}
    (sent : system.messageAt channel = some entry)
    (completed : ∀ call, system.calls[channel.call]? = some call → call.Completed)
    : ∃ reply, system.replyAt channel = some reply := by
  rw [messageAt] at sent
  obtain ⟨messages, found, listed⟩ := Option.bind_eq_some_iff.mp sent
  obtain ⟨call, stored, rfl⟩ := Option.map_eq_some_iff.mp found
  have inside : channel.position < call.replies.length := by
    rw [complete call (List.mem_of_getElem? stored)]
    exact (List.getElem?_eq_some_iff.mp listed).1
  have arrived := (completed call stored).2.2 _ (List.getElem_mem inside)
  obtain ⟨reply, received⟩ := Option.ne_none_iff_exists'.mp arrived
  refine ⟨reply, ?_⟩
  rw [replyAt]
  simp [stored, inside, received]

/-- Once all handles have completed, every sent event is held by all histories it targets. -/
theorem Serving.held (serving : Serving (deliveries router SL lanes) system) {sent : List EL}
    (calls : Sent sent system) (completed : system.Completed) {lane : EL} (member : lane ∈ sent)
    {initial : SL} (target : initial ∈ EventLanes.snapshots lane)
    : Holds (system.workers (router.workerIndex (Snapshot.id initial))).historyById
        (Snapshot.id initial) (ContimeKey.fromEvent lane) := by
  rcases calls.covers lane member with ⟨call, found, error⟩ | all
  · exact absurd (completed call found).1 error
  · obtain ⟨channel, sentTo⟩ := all initial target
    obtain ⟨reply, arrived⟩ := replyAt_of_completed calls.complete sentTo (fun call found =>
      completed call (List.mem_of_getElem? found))
    obtain ⟨worker, message, found, answered⟩ := serving.replied channel reply arrived
    rw [sentTo] at found
    obtain ⟨rfl, rfl⟩ := Prod.mk.inj (Option.some.inj found)
    exact answered _ lane initial channel rfl

end System

end Contime
