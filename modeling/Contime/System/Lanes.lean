import Contime.System.Deliveries
import Contime.System.Quiescence
import Contime.System.Traces
import Contime.Model.TestFixtures

/-! Runs of events and snapshots, and the lanes in them. A worker keeps one history for an id, so
lanes are separate exactly as far as their ids are.
-/

namespace Contime

universe u v

section
variable {SL : Type u} {EL : Type v} {router : Router} [Event EL] [Snapshot SL EL]
  [ApplyEvent EL SL] [EventLanes EL SL]

namespace System

/-- The step sends an event or a snapshot, or starts no call. -/
def Applies : Action router SL EL → Prop
  | .sendEvent _ | .sendSnapshot _ => True
  | action => action.Serves

/-- The snapshots sent in a run. -/
def sentSnapshots (actions : List (Action router SL EL)) : List SL :=
  actions.filterMap (fun
    | .sendSnapshot lane => some lane
    | _ => none)

/-- All snapshots that a run names: the targets of its events, and those it sends. -/
def named (actions : List (Action router SL EL)) : List SL :=
  (sentEvents actions).flatMap EventLanes.snapshots ++ sentSnapshots actions

/-- The message brings one of the snapshots to its worker. -/
def Brings (snapshots : List SL) (channel : ReplyChannel) (worker : Fin router.workerCount)
    (message : WorkerInbound SL EL)
    : Prop :=
  ∃ lane ∈ snapshots,
    worker = router.workerIndex (Snapshot.id lane) ∧ message = .snapshot lane channel

/-- Workers apply events and snapshots, and reply to an event once its history holds it. -/
def applications (router : Router) (events : List EL) (snapshots : List SL)
    : Service router SL EL where
  Genuine channel worker message :=
    Delivers events channel worker message ∨ Brings snapshots channel worker message
  Keeps _ _ := True
  Answered historyById message _ :=
    ∀ snapshotId lane initial channel, message = .event snapshotId lane initial channel
    → Holds historyById snapshotId (ContimeKey.fromEvent lane)
  serves := by
    intro channel worker message historyById genuine _
    rcases genuine with ⟨lane, _, initial, _, equal⟩ | ⟨lane, _, _, rfl⟩
    · obtain ⟨rfl, rfl⟩ := Prod.mk.inj equal
      obtain ⟨deltas, shape⟩ :=
        handleWorker_event_eq router.lowerTimeHorizonDelta historyById lane initial channel
      refine ⟨_, shape, rfl, trivial, ?_, ?_⟩
      · intro _ _ _ _ same
        cases same
        exact .of_event shape
      · intro _ _ answered snapshotId event first other same
        refine (answered snapshotId event first other same).handleWorker shape ?_
        intro time reply advances
        cases advances
    · have shape : handleWorker router.lowerTimeHorizonDelta historyById
          (.snapshot lane channel) = some _ := rfl
      refine ⟨_, shape, rfl, trivial, ?_, ?_⟩
      · intro _ _ _ _ same
        cases same
      · intro _ _ answered snapshotId event first other same
        refine (answered snapshotId event first other same).handleWorker shape ?_
        intro time reply advances
        cases advances

variable {actions : List (Action router SL EL)} {events : List EL} {snapshots : List SL}

/-- A run of events and snapshots serves them, and leaves the flow in order. -/
theorem run_applies (applies : ∀ action ∈ actions, Applies action)
    (allEvents : sentEvents actions ⊆ events) (allSnapshots : sentSnapshots actions ⊆ snapshots)
    : Serving (applications router events snapshots) (new.run actions)
      ∧ ((new : System router SL EL).run actions).Flowing := by
  induction actions using List.reverseRecOn with
  | nil => exact ⟨serving_new (fun _ => trivial), flowing_new⟩
  | append_singleton past action ih =>
      rw [sentEvents, List.filterMap_append, ← sentEvents] at allEvents
      rw [sentSnapshots, List.filterMap_append, ← sentSnapshots] at allSnapshots
      obtain ⟨serving, flowing⟩ := ih
        (fun earlier member => applies earlier (List.mem_append_left _ member))
        (List.Subset.trans (List.subset_append_left _ _) allEvents)
        (List.Subset.trans (List.subset_append_left _ _) allSnapshots)
      have applies : Applies action := applies action (by simp)
      rw [run_concat]
      cases action with
      | sendEvent lane =>
          have member : lane ∈ events := allEvents (by simp)
          exact ⟨serving.startEvent (fun _ initial listed =>
            Or.inl ⟨lane, member, initial, listed, rfl⟩), flowing.begin trivial⟩
      | sendSnapshot lane =>
          have member : lane ∈ snapshots := allSnapshots (by simp)
          refine ⟨?_, flowing.begin trivial⟩
          obtain ⟨call, shape, accepted⟩ := accept_calls _ (Snapshot.conservativeSize lane) _
          refine shape.symm ▸ ?_
          rcases accepted with rfl | rfl
          · exact serving.rejected .memoryFull
          · exact serving.single (Or.inr ⟨lane, member, rfl, rfl⟩)
      | queryAt | sendAdvance => exact applies.elim
      | enqueue | handle | commit | respond => exact ⟨serving.step applies, flowing.step applies⟩

/-- The input is one of these events with one of its targets, or one of these snapshots, and is
about this id.
-/
def Comes (events : List EL) (snapshots : List SL) (snapshotId : SnapshotId)
    : Input SL EL → Prop
  | .event lane initial =>
      lane ∈ events ∧ initial ∈ EventLanes.snapshots lane ∧ Snapshot.id initial = snapshotId
  | .snapshot lane => lane ∈ snapshots ∧ Snapshot.id lane = snapshotId
  | .advance _ => False

omit [Event EL] [ApplyEvent EL SL] in
/-- What comes to an id is named in the run, with that id. -/
theorem Comes.named {snapshotId : SnapshotId} {input : Input SL EL} {origin : SL}
    (comes : Comes (sentEvents actions) (sentSnapshots actions) snapshotId input)
    (brought : input.origin = some origin)
    : origin ∈ named actions ∧ Snapshot.id origin = snapshotId := by
  cases input with
  | event lane initial =>
      obtain rfl := Option.some.inj brought
      obtain ⟨sent, listed, same⟩ := comes
      exact ⟨List.mem_append_left _ (List.mem_flatMap.mpr ⟨lane, sent, listed⟩), same⟩
  | snapshot lane =>
      obtain rfl := Option.some.inj brought
      exact ⟨List.mem_append_right _ comes.1, comes.2⟩
  | advance time => exact comes.elim

/-- A system that serves events and snapshots handles no other inputs. -/
theorem Serving.handles_comes {system : System router SL EL}
    (serving : Serving (applications router events snapshots) system)
    (action : Action router SL EL) (snapshotId : SnapshotId)
    : ∀ input ∈ inputsOf snapshotId (system.handles action),
        Comes events snapshots snapshotId input := by
  intro input member
  obtain ⟨entry, handled, brings⟩ := List.mem_filterMap.mp member
  have queued : entry.2 ∈ (system.workers entry.1).inbound := by
    cases action with
    | handle worker visits =>
        simp only [handles] at handled
        split at handled
        · obtain ⟨message, first, rfl⟩ := List.mem_map.mp handled
          exact List.mem_of_head? (Option.mem_toList.mp first)
        · exact absurd handled List.not_mem_nil
    | sendEvent | sendSnapshot | queryAt | sendAdvance | enqueue | commit | respond =>
        exact absurd handled List.not_mem_nil
  obtain ⟨channel, sent⟩ := serving.queued entry.1 entry.2 queued
  split at brings
  next =>
    rcases serving.genuine channel entry.1 entry.2 sent with
      ⟨lane, delivered, initial, listed, equal⟩ | ⟨lane, listed, _, message⟩
    · have message := (Prod.mk.inj equal).2
      rw [message, WorkerInbound.inputFor] at brings
      split at brings
      next same =>
        obtain rfl := Option.some.inj brings
        exact ⟨delivered, listed, same⟩
      next => cases brings
    · rw [message, WorkerInbound.inputFor] at brings
      split at brings
      next same =>
        obtain rfl := Option.some.inj brings
        exact ⟨listed, same⟩
      next => cases brings
  next => cases brings

/-- All inputs of an id in a run of events and snapshots are sent in the run. -/
theorem inputsFor_comes (applies : ∀ action ∈ actions, Applies action)
    (allEvents : sentEvents actions ⊆ events) (allSnapshots : sentSnapshots actions ⊆ snapshots)
    (snapshotId : SnapshotId)
    : ∀ input ∈ inputsFor snapshotId actions, Comes events snapshots snapshotId input := by
  induction actions using List.reverseRecOn with
  | nil => exact fun _ member => absurd member List.not_mem_nil
  | append_singleton past action ih =>
      rw [sentEvents, List.filterMap_append, ← sentEvents] at allEvents
      rw [sentSnapshots, List.filterMap_append, ← sentSnapshots] at allSnapshots
      have earlier := fun other member => applies other (List.mem_append_left _ member)
      have pastEvents := List.Subset.trans (List.subset_append_left _ _) allEvents
      have pastSnapshots := List.Subset.trans (List.subset_append_left _ _) allSnapshots
      have serving := (run_applies earlier pastEvents pastSnapshots).1
      intro input member
      rw [inputsFor, Transducer.emitted_concat, inputsOf, List.filterMap_append] at member
      rcases List.mem_append.mp member with old | last
      · exact ih earlier pastEvents pastSnapshots input old
      · exact serving.handles_comes action snapshotId input last

/-- Once the call of an event has completed, the histories of all its targets hold the event. -/
theorem holds_of_completed (applies : ∀ action ∈ actions, Applies action) {index : Nat}
    {call : Call router SL EL} {lane : EL}
    (stored : ((new : System router SL EL).run actions).calls[index]? = some call)
    (messages : call.messages = eventMessages router index lane) (completed : call.Completed)
    {initial : SL} (listed : initial ∈ EventLanes.snapshots lane)
    : Holds
        (((new : System router SL EL).run actions).workers
          (router.workerIndex (Snapshot.id initial))).historyById
        (Snapshot.id initial) (ContimeKey.fromEvent lane) := by
  obtain ⟨serving, flowing⟩ := run_applies applies (List.Subset.refl _) (List.Subset.refl _)
  obtain ⟨position, found⟩ := List.mem_iff_getElem?.mp listed
  have sent : ((new : System router SL EL).run actions).messageAt ⟨index, position⟩
      = some (delivery router lane initial ⟨index, position⟩) := by
    rw [messageAt]
    simp only [stored, Option.map_some, Option.bind_some, messages]
    exact getElem?_eventMessages.mpr ⟨initial, found, rfl⟩
  obtain ⟨reply, arrived⟩ := replyAt_of_completed
    (fun other member => (flowing.calls other member).complete) sent (fun other same => by
      obtain rfl := Option.some.inj (stored.symm.trans same)
      exact completed)
  obtain ⟨worker, message, known, answered⟩ := serving.replied ⟨index, position⟩ reply arrived
  rw [sent] at known
  obtain ⟨rfl, rfl⟩ := Prod.mk.inj (Option.some.inj known)
  exact answered _ lane initial ⟨index, position⟩ rfl

end System

end

section
variable {Kind : Type u} {Variant : Type v} [DecidableEq Kind] {map : LaneMap Kind Variant}
  {router : Router}

/-- No event and no query changes the type of a snapshot. -/
theorem lasting_kind (kind : Kind)
    : Lasting (EventLane map) (fun snapshot : SnapshotLane map => snapshot.kind = kind) where
  applyTo event snapshot same := (applyTo_kind event snapshot).trans same
  setTime snapshot time same := (setTime_kind snapshot time).trans same

namespace System

/-- In a run of events and snapshots where all snapshots of an id have one type: once the call of
an event has completed, the histories of its targets are of their types and hold it, or one sent
with the same time and id; queries of the id return its type; the inputs of the id are targets of
sent events, or sent snapshots, of its id and type; and runs in which the same inputs reach the id
give the same answers for it. By induction over the inputs of the id, of which alone its history
is made.
-/
theorem lanes_separate {actions : List (Action router (SnapshotLane map) (EventLane map))}
    (applies : ∀ action ∈ actions, Applies action) {value : SnapshotLane map}
    (alone : ∀ other ∈ named actions,
      Snapshot.id other = Snapshot.id value → other.kind = value.kind)
    : let system : System router (SnapshotLane map) (EventLane map) := new.run actions
      let snapshotId := Snapshot.id value
      (∀ index call event,
        system.calls[index]? = some call
        → call.messages = eventMessages router index event
        → call.Completed
        → value ∈ EventLanes.snapshots event
        → ∃ history stored,
            system.held snapshotId = some history
            ∧ history.StoresOnly (fun snapshot => snapshot.kind = value.kind)
            ∧ (ContimeKey.fromEvent event, stored) ∈ history.events.entries
            ∧ stored ∈ sentEvents actions
            ∧ ContimeKey.fromEvent stored = ContimeKey.fromEvent event)
      ∧ (∀ time answer,
        system.answer time snapshotId = some (.found answer) → answer.kind = value.kind)
      ∧ (∀ input ∈ inputsFor snapshotId actions,
        Comes (sentEvents actions) (sentSnapshots actions) snapshotId input
        ∧ ∀ origin, input.origin = some origin → origin.kind = value.kind)
      ∧ ∀ (other : Router) (others : List (Action other (SnapshotLane map) (EventLane map))),
          router.lowerTimeHorizonDelta = other.lowerTimeHorizonDelta
          → inputsFor snapshotId actions = inputsFor snapshotId others
          → ∀ time, system.answer time snapshotId = (new.run others).answer time snapshotId := by
  intro system snapshotId
  have comes := inputsFor_comes applies (List.Subset.refl _) (List.Subset.refl _) snapshotId
  have kinds (input : Input (SnapshotLane map) (EventLane map))
      (member : input ∈ inputsFor snapshotId actions) (origin : SnapshotLane map)
      (brought : input.origin = some origin)
      : origin.kind = value.kind := by
    obtain ⟨known, own⟩ := (comes input member).named brought
    exact alone origin known own
  have stores {history : LocalSnapshotHistory (SnapshotLane map) (EventLane map)}
      (found : system.held snapshotId = some history)
      : history.StoresOnly (fun snapshot => snapshot.kind = value.kind) := by
    rw [held_new_run] at found
    refine Input.foldl_take_storesOnly (lasting_kind value.kind) kinds ?_ found
    intro earlier absent
    cases absent
  refine ⟨?_, ?_, fun input member => ⟨comes input member, kinds input member⟩,
    fun _ _ horizon same time => answer_eq_of_inputs horizon same time⟩
  · intro index call event stored messages completed listed
    obtain ⟨history, found, key⟩ := holds_of_completed applies stored messages completed listed
    obtain ⟨stored, member⟩ := BTreeMap.mem_keys.mp key
    have made := held_new_run actions snapshotId
    rw [held, found] at made
    rcases Input.mem_events_of_foldl_take made.symm member with
      ⟨_, none, _⟩ | ⟨same, initial, brought⟩
    · cases none
    · exact ⟨history, stored, found, stores found, member, (comes _ brought).1,
        (congrArg Prod.fst same).symm⟩
  · intro time answer found
    obtain ⟨history, shape, answered⟩ := answer_eq_found.mp found
    exact (stores shape).snapshotAt (lasting_kind value.kind) answered

end System

end

namespace System

/-- A character of another id than its account has its own history, once it is created. -/
theorem lanes_separate_two_ids
    : let router : Router :=
        { workerCount := 1, workersPositive := by decide, hashOne := fun _ => 0,
          memoryBudget := 1000, lowerTimeHorizonDelta := 60 }
      let created : EventLane docLanes := ⟨.onCharacterCreated, ⟨1, 2, 5, 9, 3⟩⟩
      let steps : List (Action router (SnapshotLane docLanes) (EventLane docLanes)) :=
        [.enqueue 0, .enqueue 0, .handle 0, .commit 0, .commit 0, .respond 0, .handle 0, .commit 0,
          .commit 0, .respond 0]
      let system : System router (SnapshotLane docLanes) (EventLane docLanes) := new
      ∃ history stored,
        (system.run (.sendEvent created :: steps)).held 2 = some history
        ∧ history.baseSnapshot.kind = DocSnapshot.characterAt
        ∧ (⟨5, 9⟩, stored) ∈ history.events.entries := by
  intro router created steps system
  let value : SnapshotLane docLanes := ⟨.characterAt, ⟨2, 5, [], 0⟩⟩
  have serves : ∀ step ∈ steps, step.Serves := by simp [steps, Action.Serves]
  have applies : ∀ action ∈ .sendEvent created :: steps, Applies action := by
    simp [steps, Applies, Action.Serves]
  have alone : ∀ other ∈ named (.sendEvent created :: steps),
      Snapshot.id other = Snapshot.id value → other.kind = value.kind := by decide
  have completed : (system.run (.sendEvent created :: steps)).Completed := by decide
  have listed : (EventLanes.snapshots created : List (SnapshotLane docLanes))
      = [⟨.accountAt, ⟨1, 5, [], 0⟩⟩, value] := by decide
  have calls := skeletons_run (system.step (.sendEvent created)).1 serves
  have started : (system.step (.sendEvent created)).1.calls
      = [.open (eventMessages router 0 created)] := rfl
  rw [← run_cons, started] at calls
  obtain ⟨call, single, same⟩ := List.map_eq_singleton_iff.mp calls
  rw [Completed, single] at completed
  obtain ⟨processed, _⟩ := lanes_separate applies alone
  obtain ⟨history, stored, found, stores, member, _⟩ :=
    processed 0 call created (by rw [single]; rfl) (Prod.mk.inj same).1 (completed call (.head _))
      (by rw [listed]; exact .tail _ (.head _))
  exact ⟨history, stored, found, stores.base, member⟩

/-- A character under the id of its account gets no history of its own, and a character under the
id of another account is not seen once an event of that account came first.
-/
theorem lanes_interfere_under_one_id
    : let router : Router :=
        { workerCount := 1, workersPositive := by decide, hashOne := fun _ => 0,
          memoryBudget := 1000, lowerTimeHorizonDelta := 60 }
      let shared : EventLane docLanes := ⟨.onCharacterCreated, ⟨7, 7, 5, 9, 3⟩⟩
      let created : EventLane docLanes := ⟨.onCharacterCreated, ⟨1, 7, 5, 9, 3⟩⟩
      let account : EventLane docLanes := ⟨.onAccountCreated, ⟨7, 8, 4, 6, 2⟩⟩
      let system : System router (SnapshotLane docLanes) (EventLane docLanes) := new
      let processed := system.run
        [.sendEvent shared, .enqueue 0, .enqueue 0, .handle 0, .commit 0, .commit 0, .respond 0,
          .handle 0, .commit 0, .respond 0]
      let alone := system.run
        [.sendEvent created, .enqueue 0, .enqueue 0, .handle 0, .commit 0, .commit 0, .respond 0,
          .handle 0, .commit 0, .commit 0, .respond 0]
      let after := system.run
        [.sendEvent account, .enqueue 0, .handle 0, .commit 0, .commit 0, .respond 0,
          .sendEvent created, .enqueue 1, .enqueue 1, .handle 0, .commit 0, .commit 0, .respond 0,
          .handle 0, .commit 0, .respond 0]
      (processed.Completed
        ∧ (EventLanes.snapshots shared : List (SnapshotLane docLanes)).map SnapshotLane.kind
          = [.accountAt, .characterAt]
        ∧ (EventLanes.snapshots shared : List (SnapshotLane docLanes)).map Snapshot.id = [7, 7]
        ∧ (processed.held 7).map (fun history => history.baseSnapshot.kind) = some .accountAt)
      ∧ alone.Completed
      ∧ alone.answer 6 7 = some (.found ⟨.characterAt, ⟨7, 6, [3], 3⟩⟩)
      ∧ after.Completed
      ∧ after.answer 6 7 = some (.found ⟨.accountAt, ⟨7, 6, [2, 3], 5⟩⟩) := by
  decide

end System

end Contime
