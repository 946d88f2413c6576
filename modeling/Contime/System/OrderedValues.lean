import Contime.Model.OrderedValues
import Contime.System.StoreLogs

/-! The onboarding example as its clients see it. Nothing in its snapshot sorts: in any interleaving
of clients and workers a query reads the values in the order of their events, and a later read only
has more of them.
-/

open SortedEntries PeriodicReplay

namespace Contime

universe u v
variable {router : Router}

-----------------------------------------------------------------------------------------
-- Values before a key
-----------------------------------------------------------------------------------------

/-- The values of the delivered events before a key, in the order of the events; of two events
under one key the first delivered one counts.
-/
def valuesBefore (delivered : List ReceiveValue) (key : ContimeKey) : List Int64 :=
  (below key (BTreeMap.ofList (delivered.map keyed)).entries).map (fun entry => entry.2.value)

/-- Earlier keys show prefixes of what later keys show. -/
theorem valuesBefore_front (delivered : List ReceiveValue) {low high : ContimeKey}
    (ordered : low ≤ high)
    : valuesBefore delivered low <+: valuesBefore delivered high := by
  rw [valuesBefore, valuesBefore, (BTreeMap.ascending _).below_eq_append ordered,
    List.map_append]
  exact List.prefix_append _ _

/-- Further deliveries only put values in between. -/
theorem valuesBefore_sublist (first second : List ReceiveValue) (key : ContimeKey)
    : (valuesBefore first key).Sublist (valuesBefore (first ++ second) key) := by
  rw [valuesBefore, valuesBefore, List.map_append]
  exact ((BTreeMap.sublist_ofList_append _ _).filter _).map _

/-- The values before a key come from the delivered events before it, in key order, one for each
key.
-/
theorem valuesBefore_cases (delivered : List ReceiveValue) (key : ContimeKey)
    : ∃ shown : List ReceiveValue,
        valuesBefore delivered key = shown.map ReceiveValue.value
        ∧ shown.Pairwise (fun earlier later =>
          ContimeKey.fromEvent earlier < ContimeKey.fromEvent later)
        ∧ (∀ event ∈ shown, event ∈ delivered ∧ ContimeKey.fromEvent event < key)
        ∧ ∀ event ∈ delivered, ContimeKey.fromEvent event < key
          → ∃ same ∈ shown, ContimeKey.fromEvent same = ContimeKey.fromEvent event := by
  let log := BTreeMap.ofList (delivered.map keyed)
  have origin (entry : ContimeKey × ReceiveValue) (member : entry ∈ log.entries)
      : entry.2 ∈ delivered ∧ entry.1 = ContimeKey.fromEvent entry.2 := by
    obtain ⟨event, listed, rfl⟩ := List.mem_map.mp (BTreeMap.mem_of_mem_ofList member)
    exact ⟨listed, rfl⟩
  refine ⟨(below key log.entries).map Prod.snd, by rw [valuesBefore, List.map_map]; rfl,
    ?_, ?_, ?_⟩
  · refine List.pairwise_map.mpr ((log.ascending.below key).imp_of_mem ?_)
    intro earlier later first second before
    rw [← (origin earlier (mem_below.mp first).1).2, ← (origin later (mem_below.mp second).1).2]
    exact before
  · intro event member
    obtain ⟨entry, listed, rfl⟩ := List.mem_map.mp member
    obtain ⟨stored, low⟩ := mem_below.mp listed
    obtain ⟨known, own⟩ := origin entry stored
    exact ⟨known, own ▸ low⟩
  · intro event member low
    have present : ContimeKey.fromEvent event ∈ log.keys :=
      BTreeMap.mem_keys_ofList.mpr ⟨keyed event, List.mem_map_of_mem member, rfl⟩
    obtain ⟨stored, listed⟩ := BTreeMap.mem_keys.mp present
    exact ⟨stored, List.mem_map_of_mem (mem_below.mpr ⟨listed, low⟩), (origin _ listed).2.symm⟩

/-- A query's replay appends the values of the events. -/
theorem replay_values (snapshot : OrderedValuesSnapshot)
    (entries : List (ContimeKey × ReceiveValue))
    : replay queryStep snapshot entries
      = { snapshot with
          values := snapshot.values ++ entries.map (fun entry => entry.2.value) } := by
  induction entries generalizing snapshot with
  | nil => simp
  | cons entry rest ih =>
      rw [replay_cons, ih]
      simp [queryStep, ApplyEvent.applyTo, ReceiveValue.applyTo]

/-- A history that starts without values answers with those before the query. -/
theorem applyEvents_values {delta time : Time} {base answer : OrderedValuesSnapshot}
    (bare : base.values = []) {delivered : List ReceiveValue}
    (answered : ((LocalSnapshotHistory.new base 0 delta).1.applyEvents delivered).snapshotAt time
      = some answer)
    : answer = ⟨base.id, time, valuesBefore delivered ⟨time, base.id⟩⟩ := by
  have shaped
      : ((LocalSnapshotHistory.newWithInterval base 0 delta CHECKPOINT_INTERVAL
            (Nat.succ_pos _)).applyEvents delivered).snapshotAt time
        = some answer :=
    answered
  have state := LocalSnapshotHistory.newWithInterval_answered orderedValues_setTimeOverwrites
    receiveValue_timeBlind shaped
  rw [state, Timeline.stateBefore, replay_values]
  simp [Snapshot.setTime, Snapshot.id, valuesBefore, bare]

-----------------------------------------------------------------------------------------
-- What the clients send
-----------------------------------------------------------------------------------------

/-- What an event brings to the history of its id. -/
def ReceiveValue.input (event : ReceiveValue) : Input OrderedValuesSnapshot ReceiveValue :=
  .event event (Snapshot.fromEvent event)

/-- The event of an input. -/
def Input.event? {SL : Type u} {EL : Type v} : Input SL EL → Option EL
  | .event lane _ => some lane
  | .snapshot _ | .advance _ => none

/-- A step of clients that send events and queries only, or of a worker. -/
def Action.Appends {SL : Type u} {EL : Type v} : Action router SL EL → Prop
  | .sendSnapshot _ | .sendAdvance _ => False
  | .sendEvent _ | .queryAt _ _ | .enqueue _ | .handle _ _ | .commit _ | .respond _ => True

/-- The steps up to a message of the run are such steps. -/
theorem appends_front {SL : Type u} {EL : Type v}
    {before between after : List (Action router SL EL)} {query message : Action router SL EL}
    (appends
      : ∀ action ∈ before ++ query :: (between ++ message :: after), action.Appends)
    : ∀ action ∈ before ++ query :: between, action.Appends := by
  intro action member
  refine appends action ?_
  rw [← List.cons_append, ← List.append_assoc]
  exact List.mem_append_left _ member

namespace System

/-- The events of an id that are sent in a run, in order. -/
def received (snapshotId : SnapshotId)
    (actions : List (Action router OrderedValuesSnapshot ReceiveValue))
    : List ReceiveValue :=
  (inputsOf snapshotId (sent actions)).filterMap Input.event?

variable {actions : List (Action router OrderedValuesSnapshot ReceiveValue)}
  {snapshotId : SnapshotId}

/-- Such clients send events about their own targets, and queries. -/
theorem sent_appends (appends : ∀ action ∈ actions, action.Appends)
    : ∀ entry ∈ sent actions, ∀ input, entry.2.inputFor snapshotId = some input
      → ∃ event : ReceiveValue, input = event.input ∧ event.snapshotId = snapshotId := by
  refine sent_forall (fun system action member starts => ?_)
  cases action with
  | enqueue | handle | commit | respond => exact (starts trivial).elim
  | sendSnapshot | sendAdvance => exact (appends _ member).elim
  | queryAt time target =>
      refine ⟨_, rfl, fun entry listed input brought => ?_⟩
      obtain rfl := List.mem_singleton.mp listed
      cases brought
  | sendEvent event =>
      obtain ⟨call, shape, accepted⟩ := sendEvent_calls system event
      refine ⟨call, congrArg System.calls shape, fun entry listed input brought => ?_⟩
      rcases accepted with rfl | rfl
      · exact absurd listed List.not_mem_nil
      · obtain ⟨position, inside, rfl⟩ := List.mem_mapIdx.mp listed
        have target
            : (EventLanes.snapshots event : List OrderedValuesSnapshot)[position]
              = Snapshot.fromEvent event :=
          List.mem_singleton.mp (List.getElem_mem inside)
        rw [target] at brought
        obtain ⟨own, same⟩ := Option.ite_none_right_eq_some.mp brought
        exact ⟨event, (Option.some.inj same).symm, own⟩

/-- All inputs of an id are events that were received for it. -/
theorem inputsOf_appends (appends : ∀ action ∈ actions, action.Appends)
    : inputsOf snapshotId (sent actions)
      = (received snapshotId actions).map ReceiveValue.input := by
  have events (input : Input OrderedValuesSnapshot ReceiveValue)
      (member : input ∈ inputsOf snapshotId (sent actions))
      : ∃ event : ReceiveValue, input = event.input := by
    obtain ⟨entry, sends, brought⟩ := List.mem_filterMap.mp member
    obtain ⟨_, own⟩ := Option.ite_none_right_eq_some.mp brought
    obtain ⟨event, same, _⟩ := sent_appends appends entry sends input own
    exact ⟨event, same⟩
  rw [received]
  generalize inputsOf snapshotId (sent actions) = inputs at events
  induction inputs with
  | nil => rfl
  | cons input rest ih =>
      obtain ⟨event, rfl⟩ := events input (.head _)
      have later := ih (fun other member => events other (.tail _ member))
      rw [List.filterMap_cons_some (rfl : Input.event? event.input = some event), List.map_cons,
        ← later]

/-- What is received for an id is about it. -/
theorem received_own (appends : ∀ action ∈ actions, action.Appends) {event : ReceiveValue}
    (member : event ∈ received snapshotId actions)
    : event.snapshotId = snapshotId := by
  have listed : event.input ∈ inputsOf snapshotId (sent actions) :=
    inputsOf_appends appends ▸ List.mem_map_of_mem member
  obtain ⟨entry, sends, brought⟩ := List.mem_filterMap.mp listed
  obtain ⟨_, own⟩ := Option.ite_none_right_eq_some.mp brought
  obtain ⟨other, same, about⟩ := sent_appends appends entry sends _ own
  cases same
  exact about

/-- A run receives what its beginning receives, and more behind it. -/
theorem received_append (snapshotId : SnapshotId)
    (past later : List (Action router OrderedValuesSnapshot ReceiveValue))
    : ∃ rest, received snapshotId (past ++ later) = received snapshotId past ++ rest := by
  rw [received, sent, Transducer.emitted_append, inputsOf, List.filterMap_append,
    List.filterMap_append]
  exact ⟨_, rfl⟩

/-- A query that finds a snapshot reads the values before it of what was received. -/
theorem answerBehind_values (appends : ∀ action ∈ actions, action.Appends) {time : Time}
    {snapshot : OrderedValuesSnapshot}
    (answered : answerBehind snapshotId (sent actions) time = some (.found snapshot))
    : snapshot
      = ⟨snapshotId, time, valuesBefore (received snapshotId actions) ⟨time, snapshotId⟩⟩ := by
  rw [answerBehind, inputsOf_appends appends] at answered
  have own (event : ReceiveValue) (member : event ∈ received snapshotId actions)
      : event.snapshotId = snapshotId :=
    received_own appends member
  cases shape : received snapshotId actions with
  | nil =>
      rw [shape] at answered
      cases answered
  | cons first rest =>
      rw [shape] at answered own
      have made
          : ((first :: rest).map ReceiveValue.input).foldl
              (Input.take router.lowerTimeHorizonDelta) none
            = some ((LocalSnapshotHistory.new (Snapshot.fromEvent first) 0
                router.lowerTimeHorizonDelta).1.applyEvents (first :: rest)) := by
        rw [List.map_cons, List.foldl_cons]
        refine (Input.foldl_take_some _ _).trans ?_
        rw [List.map_map]
        rfl
      rw [made] at answered
      obtain ⟨answer, shows, same⟩ := Option.map_eq_some_iff.mp answered
      cases same
      have value := applyEvents_values rfl shows
      have id : (Snapshot.fromEvent first : OrderedValuesSnapshot).id = snapshotId :=
        own first (.head _)
      rwa [id] at value

/-- In any interleaving of clients that send events and queries and of the workers, a query that
finds a snapshot reads the values of the events that were sent for the id before its own message
and that lie before its key, in the order of their times and ids, one for each key. All events of
the calls that have completed before the query starts are among those sent. By linearization: the
answer applies, in key order, what was received before its key.
-/
theorem values_in_event_order (appends : ∀ action ∈ actions, action.Appends) {index : Nat}
    {snapshot : OrderedValuesSnapshot}
    (answered : (new.run actions).replyAt ⟨index, 0⟩ = some (.queried (.found snapshot)))
    : ∃ before time snapshotId between after, ∃ shown : List ReceiveValue,
        actions = before ++ .queryAt time snapshotId :: (between ++ .enqueue index :: after)
        ∧ (new.run before).calls.length = index
        ∧ snapshot = ⟨snapshotId, time, shown.map ReceiveValue.value⟩
        ∧ shown.Pairwise (fun earlier later =>
          ContimeKey.fromEvent earlier < ContimeKey.fromEvent later)
        ∧ (∀ event ∈ shown,
          event ∈ received snapshotId (before ++ .queryAt time snapshotId :: between)
          ∧ event.snapshotId = snapshotId
          ∧ ContimeKey.fromEvent event < ⟨time, snapshotId⟩)
        ∧ (∀ event ∈ received snapshotId (before ++ .queryAt time snapshotId :: between),
          ContimeKey.fromEvent event < ⟨time, snapshotId⟩
          → ∃ same ∈ shown, ContimeKey.fromEvent same = ContimeKey.fromEvent event)
        ∧ ∀ call ∈ (new.run before).calls, call.Completed
          → ∀ event initial reply,
            (router.workerIndex snapshotId, .event snapshotId event initial reply) ∈ call.messages
            → event ∈ received snapshotId (before ++ .queryAt time snapshotId :: between) := by
  obtain ⟨before, time, snapshotId, between, after, rfl, opened, _, answer⟩ := run_answered answered
  have earlier := appends_front appends
  obtain ⟨shown, values, sorted, sound, complete⟩ := valuesBefore_cases
    (received snapshotId (before ++ .queryAt time snapshotId :: between)) ⟨time, snapshotId⟩
  have own := answerBehind_values earlier answer
  rw [values] at own
  refine ⟨before, time, snapshotId, between, after, shown, rfl, opened, own, sorted, ?_,
    complete, ?_⟩
  · intro event member
    obtain ⟨sent, low⟩ := sound event member
    exact ⟨sent, received_own earlier sent, low⟩
  · intro call member completed event initial reply listed
    have sends := run_completed before (.queryAt time snapshotId :: between) member completed listed
    refine List.mem_filterMap.mpr ⟨.event event initial, ?_, rfl⟩
    exact List.mem_filterMap.mpr ⟨_, sends, by simp [WorkerInbound.inputFor]⟩

/-- The example's late value, sent while the values around it wait for the worker. -/
theorem values_in_event_order_late_value
    : let router : Router := ⟨1, by decide, fun _ => 0, 4096, 0⟩
      let actions : List (Action router OrderedValuesSnapshot ReceiveValue) :=
        [.sendEvent (receiveValue 1 5 100 50), .enqueue 0,
          .sendEvent (receiveValue 1 10 101 100), .enqueue 1,
          .sendEvent (receiveValue 1 7 102 70), .enqueue 2, .queryAt 11 1, .enqueue 3,
          .handle 0, .commit 0, .commit 0, .respond 0, .handle 0, .commit 0, .respond 0,
          .handle 0, .commit 0, .respond 0, .handle 0, .respond 0]
      ∃ snapshot : OrderedValuesSnapshot, ∃ shown : List ReceiveValue,
        (new.run actions).replyAt ⟨3, 0⟩ = some (.queried (.found snapshot))
        ∧ snapshot.values = shown.map ReceiveValue.value
        ∧ shown.Pairwise (fun earlier later =>
          ContimeKey.fromEvent earlier < ContimeKey.fromEvent later) := by
  intro router actions
  have appends : ∀ action ∈ actions, action.Appends := by simp [actions, Action.Appends]
  have answered : (new.run actions).replyAt ⟨3, 0⟩
      = some (.queried (.found ⟨1, 11, [50, 70, 100]⟩)) := by decide
  obtain ⟨_, _, _, _, _, shown, _, _, same, sorted, _⟩ := values_in_event_order appends answered
  exact ⟨_, shown, answered, congrArg OrderedValuesSnapshot.values same, sorted⟩

/-- Reads only ever gain values: a query that starts when another one has been answered, for the
same id at the same or a later time, reads all values of the first answer in their order, whatever
events arrive late in between and on whatever worker. By linearization: both answers list the
received values before their keys.
-/
theorem later_reads_gain {past future : List (Action router OrderedValuesSnapshot ReceiveValue)}
    {index : Nat} {time : Time} {first second : OrderedValuesSnapshot}
    (appends : ∀ action ∈ past ++ .queryAt time first.id :: future, action.Appends)
    (read : (new.run past).replyAt ⟨index, 0⟩ = some (.queried (.found first)))
    (reread
      : (new.run (past ++ .queryAt time first.id :: future)).replyAt
          ⟨(new.run past).calls.length, 0⟩
        = some (.queried (.found second)))
    (ordered : first.time ≤ time)
    : first.values.Sublist second.values := by
  obtain ⟨before, earlier, snapshotId, between, after, same, _, _, answer⟩ := run_answered read
  obtain ⟨others, later, target, middle, rest, whole, opened, _, again⟩ := run_answered reread
  obtain ⟨rfl, asked, rfl⟩ := start_unique id id whole opened.symm
  have start : ∀ action ∈ past, action.Appends :=
    fun action member => appends action (List.mem_append_left _ member)
  rw [same] at start
  obtain rfl := answerBehind_values (appends_front start) answer
  obtain ⟨rfl, rfl⟩ := Action.queryAt.inj asked
  obtain rfl := answerBehind_values (appends_front appends) again
  obtain ⟨more, delivered⟩ : ∃ more,
      received snapshotId (past ++ .queryAt time snapshotId :: middle)
        = received snapshotId (before ++ .queryAt earlier snapshotId :: between) ++ more := by
    rw [same, List.append_assoc, List.cons_append, List.append_assoc, ← List.cons_append,
      ← List.append_assoc]
    exact received_append snapshotId _ _
  have keys : (⟨earlier, snapshotId⟩ : ContimeKey) ≤ ⟨time, snapshotId⟩ := by
    rcases Int64.lt_or_eq_of_le ordered with sooner | equal
    · exact Or.inl sooner
    · exact Or.inr ⟨equal, BitVec.le_refl _⟩
  have gained := valuesBefore_sublist
    (received snapshotId (before ++ .queryAt earlier snapshotId :: between)) more
    ⟨time, snapshotId⟩
  rw [← delivered] at gained
  exact (valuesBefore_front _ keys).sublist.trans gained

/-- Two reads at one time, with a late value between them. -/
theorem later_reads_gain_late_value
    : let router : Router := ⟨1, by decide, fun _ => 0, 4096, 0⟩
      let past : List (Action router OrderedValuesSnapshot ReceiveValue) :=
        [.sendEvent (receiveValue 1 10 101 100), .enqueue 0, .queryAt 11 1, .enqueue 1,
          .handle 0, .commit 0, .commit 0, .respond 0, .handle 0, .respond 0]
      let future : List (Action router OrderedValuesSnapshot ReceiveValue) :=
        [.sendEvent (receiveValue 1 7 102 70), .enqueue 3, .enqueue 2, .handle 0, .commit 0,
          .respond 0, .handle 0, .respond 0]
      ∃ first second : OrderedValuesSnapshot,
        (new.run past).replyAt ⟨1, 0⟩ = some (.queried (.found first))
        ∧ (new.run (past ++ .queryAt 11 first.id :: future)).replyAt ⟨2, 0⟩
          = some (.queried (.found second))
        ∧ first.values.Sublist second.values := by
  intro router past future
  have appends : ∀ action ∈ past ++ .queryAt 11 1 :: future, action.Appends := by
    simp [past, future, Action.Appends]
  have read : (new.run past).replyAt ⟨1, 0⟩
      = some (.queried (.found ⟨1, 11, [100]⟩)) := by decide
  have reread : (new.run (past ++ .queryAt 11 1 :: future)).replyAt ⟨2, 0⟩
      = some (.queried (.found ⟨1, 11, [70, 100]⟩)) := by decide
  have second : (new.run past).calls.length = 2 := by decide
  refine ⟨_, _, read, reread, later_reads_gain appends read ?_ (Int64.le_refl 11)⟩
  rw [second]
  exact reread

end System

end Contime
