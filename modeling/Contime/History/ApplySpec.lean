import Contime.Model.Apply

/-! What each step of event application does to the checkpoints and to the byte count.
Both paths of `applyEventInPlace` are described by `marks` over the entries they replay.
-/

open SortedEntries PeriodicReplay

namespace Contime

universe u v
variable {S : Type u} {E : Type v}

/-- The cast of a size is its exact value taken into `i64`. -/
theorem bytes_eq (size : UInt64) : bytes size = Int64.ofNat size.toNat := by
  rw [bytes, ← UInt64.toInt64_ofNat', UInt64.ofNat_toNat]

/-- The cast keeps different sizes apart. -/
theorem bytes_inj {left right : UInt64} : bytes left = bytes right ↔ left = right :=
  ⟨congrArg Int64.toUInt64, congrArg bytes⟩

section
variable [Event E]

/-- The exact total size of stored events. -/
def eventsSize (entries : List (ContimeKey × E)) : Nat :=
  (entries.map (fun entry => (Event.conservativeSize entry.2).toNat)).sum

@[simp] theorem eventsSize_cons (entry : ContimeKey × E) (rest : List (ContimeKey × E))
    : eventsSize (entry :: rest)
      = (Event.conservativeSize entry.2).toNat + eventsSize rest := by
  simp [eventsSize]

@[simp] theorem eventsSize_append (left right : List (ContimeKey × E))
    : eventsSize (left ++ right) = eventsSize left + eventsSize right := by
  simp [eventsSize]

/-- A new key adds the size of its event. -/
theorem eventsSize_insert {events : BTreeMap ContimeKey E} {key : ContimeKey} (event : E)
    (fresh : key ∉ events.keys)
    : eventsSize (events.insert key event).entries
      = (Event.conservativeSize event).toNat + eventsSize events.entries := by
  conv_rhs => rw [← events.below_append_above fresh]
  simp only [BTreeMap.insert_entries, eventsSize_append, eventsSize_cons]
  omega

end

section
variable [Snapshot S E]

/-- The exact total size of stored checkpoints. -/
def checkpointsSize (entries : List (ContimeKey × S)) : Nat :=
  (entries.map (fun entry => (Snapshot.conservativeSize entry.2).toNat)).sum

@[simp] theorem checkpointsSize_nil : checkpointsSize ([] : List (ContimeKey × S)) = 0 := rfl

@[simp] theorem checkpointsSize_cons (entry : ContimeKey × S)
    (rest : List (ContimeKey × S))
    : checkpointsSize (entry :: rest)
      = (Snapshot.conservativeSize entry.2).toNat + checkpointsSize rest := by
  simp [checkpointsSize]

@[simp] theorem checkpointsSize_append (left right : List (ContimeKey × S))
    : checkpointsSize (left ++ right) = checkpointsSize left + checkpointsSize right := by
  simp [checkpointsSize]

/-- A new key adds the size of its checkpoint. -/
theorem checkpointsSize_insert {checkpoints : BTreeMap ContimeKey S} {key : ContimeKey}
    (checkpoint : S) (fresh : key ∉ checkpoints.keys)
    : checkpointsSize (checkpoints.insert key checkpoint).entries
      = (Snapshot.conservativeSize checkpoint).toNat
        + checkpointsSize checkpoints.entries := by
  conv_rhs => rw [← checkpoints.below_append_above fresh]
  simp only [BTreeMap.insert_entries, checkpointsSize_append, checkpointsSize_cons]
  omega

-----------------------------------------------------------------------------------------
-- Removing the stale checkpoints
-----------------------------------------------------------------------------------------

/-- Removing the first key of a listed tail takes exactly its entry out of the map. -/
private theorem remove_middle {front rest : List (ContimeKey × S)} {entry : ContimeKey × S}
    (ascending : Ascending (front ++ entry :: rest))
    : BTreeMap.remove ⟨front ++ entry :: rest, ascending⟩ entry.1
      = ⟨front ++ rest, ascending.sublist (by simp)⟩ := by
  obtain ⟨apart, later⟩ := ascending.around
  refine BTreeMap.ext_mem (fun other => ?_)
  simp only [BTreeMap.remove, List.mem_filter, List.mem_append, List.mem_cons,
    decide_eq_true_eq, ne_eq]
  constructor
  · intro other
    rcases other with ⟨ahead | rfl | behind, differ⟩
    · exact Or.inl ahead
    · exact absurd rfl differ
    · exact Or.inr behind
  · intro other
    rcases other with ahead | behind
    · exact ⟨Or.inl ahead, (apart other ahead).ne⟩
    · exact ⟨Or.inr (Or.inr behind), (later other behind).ne'⟩

/-- Removing the listed tail of a map one key at a time leaves its front, and each removal
finds its checkpoint. Witness: induction on the stale entries still in the map.
-/
private theorem removeStale_loop {front stale : List (ContimeKey × S)}
    (ascending : Ascending (front ++ stale)) (delta : Int64)
    : (stale.map Prod.fst).foldl removeStaleKey (⟨front ++ stale, ascending⟩, delta)
      = (⟨front, ascending.sublist (List.sublist_append_left ..)⟩,
          delta - Int64.ofNat (checkpointsSize stale)) := by
  induction stale generalizing delta with
  | nil => simp
  | cons entry rest ih =>
      have found
          : BTreeMap.get? (⟨front ++ entry :: rest, ascending⟩ : BTreeMap ContimeKey S)
              entry.1
            = some entry.2 :=
        BTreeMap.get?_eq_some.mpr (by simp)
      have smaller : Ascending (front ++ rest) := ascending.sublist (by simp)
      have sizes (first others : Int64) : delta - first - others = delta - (first + others) := by
        grind
      simp only [List.map_cons, List.foldl_cons, removeStaleKey, found, remove_middle,
        ih smaller, bytes_eq, sizes, checkpointsSize_cons, Int64.ofNat_add]

/-- Stale removal cuts the map at the key and frees exactly the cut part. -/
theorem removeStale_eq (checkpoints : BTreeMap ContimeKey S) (key : ContimeKey)
    (delta : Int64)
    : removeStale checkpoints key delta
      = ((checkpoints.splitOff key).1,
          delta - Int64.ofNat (checkpointsSize (atLeast key checkpoints.entries))) := by
  have split := checkpoints.ascending.below_append_atLeast key
  have ascending : Ascending (below key checkpoints.entries ++ atLeast key checkpoints.entries) :=
    split.symm ▸ checkpoints.ascending
  have whole : checkpoints = ⟨_, ascending⟩ := BTreeMap.ext_entries split.symm
  have loop := removeStale_loop ascending delta
  rw [← whole] at loop
  rw [removeStale, BTreeMap.range_included_unbounded, loop]
  rfl

end

-----------------------------------------------------------------------------------------
-- Replay with checkpoints
-----------------------------------------------------------------------------------------

section
variable [Event E] [Snapshot S E] [ApplyEvent E S]

/-- The replay loop appends the marks of its entries behind older checkpoints, by
induction on the entries.
-/
private theorem replayLoop_eq (interval : Nat) {entries : List (ContimeKey × E)}
    (ascending : Ascending entries) (loop : ReplayLoop S)
    (older : ∀ checkpoint ∈ loop.checkpoints.entries, ∀ entry ∈ entries,
      checkpoint.1 < entry.1)
    : let final := entries.foldl (ReplayLoop.advance interval) loop
      let added := marks replayStep interval loop.count loop.snapshot entries
      final.snapshot = replay replayStep loop.snapshot entries
      ∧ final.checkpoints.entries = loop.checkpoints.entries ++ added
      ∧ final.bytesDelta = loop.bytesDelta + Int64.ofNat (checkpointsSize added) := by
  induction entries generalizing loop with
  | nil => simp
  | cons entry rest ih =>
      obtain ⟨first, tail⟩ := List.pairwise_cons.mp ascending
      have newest : ∀ checkpoint ∈ loop.checkpoints.entries, checkpoint.1 < entry.1 :=
        fun checkpoint member => older checkpoint member entry (by simp)
      simp only [List.foldl_cons, marks, replay_cons]
      by_cases position : (loop.count + 1) % interval = 0
      · have appended (snapshot : S)
            : (loop.checkpoints.insert entry.1 snapshot).entries
              = loop.checkpoints.entries ++ [(entry.1, snapshot)] := by
          rw [BTreeMap.insert_entries, below_of_forall newest,
            above_eq_nil (fun checkpoint member => (newest checkpoint member).le)]
        obtain ⟨snapshot, checkpoints, delta⟩ :=
          ih tail (loop.advance interval entry) (by
            intro checkpoint member later after
            simp only [ReplayLoop.advance, position, if_true, appended, List.mem_append,
              List.mem_singleton] at member
            rcases member with member | rfl
            · exact older checkpoint member later (List.mem_cons_of_mem _ after)
            · exact first later after)
        simp only [ReplayLoop.advance, position, if_true, appended] at snapshot checkpoints delta ⊢
        refine ⟨snapshot, ?_, ?_⟩
        · simpa using checkpoints
        · rw [delta, checkpointsSize_cons, bytes_eq, Int64.ofNat_add]
          grind
      · obtain ⟨snapshot, checkpoints, delta⟩ :=
          ih tail (loop.advance interval entry) (by
            intro checkpoint member later after
            simp only [ReplayLoop.advance, position, if_false] at member
            exact older checkpoint member later (List.mem_cons_of_mem _ after))
        simp only [ReplayLoop.advance, position, if_false] at snapshot checkpoints delta ⊢
        exact ⟨snapshot, checkpoints, delta⟩

/-- Replay behind older checkpoints appends the marks of the replayed events and returns
their total size.
-/
theorem replayAndCheckpoint_spec (start : S) (bound : Bound ContimeKey)
    (checkpoints : BTreeMap ContimeKey S) (events : BTreeMap ContimeKey E) (interval : Nat)
    (older : ∀ checkpoint ∈ checkpoints.entries, ∀ entry ∈ events.range bound .unbounded,
      checkpoint.1 < entry.1)
    : let result := replayAndCheckpoint start bound checkpoints events interval
      let added := marks replayStep interval 0 start (events.range bound .unbounded)
      result.1.entries = checkpoints.entries ++ added
      ∧ result.2 = Int64.ofNat (checkpointsSize added) := by
  have ascending : Ascending (events.range bound .unbounded) :=
    events.ascending.sublist List.filter_sublist
  obtain ⟨_, rebuilt, delta⟩ :=
    replayLoop_eq interval ascending
      { snapshot := start, count := 0, checkpoints, bytesDelta := 0 } older
  exact ⟨rebuilt, by simpa [replayAndCheckpoint] using delta⟩

end

/-- A replay start and the events behind its bound are where a replay over the marked
checkpoints picks up.
-/
theorem replayStart_range (base : S) (checkpoints : List (ContimeKey × S))
    (events : BTreeMap ContimeKey E)
    : ((replayStart base checkpoints.getLast?).1,
        events.range (replayStart base checkpoints.getLast?).2 .unbounded)
      = resume checkpoints base events.entries := by
  cases last : checkpoints.getLast? with
  | none => simp [replayStart, resume, last]
  | some entry => simp [replayStart, resume, last]

/-- A replay picks up behind every checkpoint it starts from. -/
theorem resume_after_marks {checkpoints : List (ContimeKey × S)}
    (ascending : Ascending checkpoints) (base : S) (entries : List (ContimeKey × E))
    : ∀ checkpoint ∈ checkpoints, ∀ entry ∈ (resume checkpoints base entries).2,
        checkpoint.1 < entry.1 := by
  rcases List.eq_nil_or_concat checkpoints with rfl | ⟨front, last, rfl⟩
  · simp
  · intro checkpoint member entry after
    rw [List.concat_eq_append] at ascending member after
    rw [resume_append_singleton, mem_above] at after
    exact (ascending.le_last member).trans_lt after.2

section
variable [Event E] [Snapshot S E] [ApplyEvent E S]
variable (base : S) (checkpoints : BTreeMap ContimeKey S) (interval : Nat)
  {events : BTreeMap ContimeKey E} {event : E}

/-- A stored key changes nothing. -/
theorem applyEventInPlace_duplicate (stored : ContimeKey.fromEvent event ∈ events.keys)
    : applyEventInPlace event base checkpoints events interval
      = { checkpoints, events, bytesDelta := 0 } := by
  simp [applyEventInPlace, BTreeMap.containsKey_iff.mpr stored]

/-- A new event is inserted, whichever path runs. -/
theorem applyEventInPlace_events (fresh : ContimeKey.fromEvent event ∉ events.keys)
    : (applyEventInPlace event base checkpoints events interval).events
      = events.insert (ContimeKey.fromEvent event) event := by
  simp only [applyEventInPlace, BTreeMap.containsKey_eq_false.mpr fresh, Bool.false_eq_true,
    if_false]
  split
  · simp only [fastPath]
    split <;> rfl
  · rfl

omit [Event E] in
/-- The latest-event test looks for an event behind the new key. -/
private theorem isLatest_iff (event : E) (key : ContimeKey)
    : ((events.insert key event).range (.excluded key) .unbounded).head?.isNone = true
      ↔ above key events.entries = [] := by
  have self : above key (above key events.entries) = above key events.entries :=
    above_of_forall (fun _ member => (mem_above.mp member).2)
  have front : above key (below key events.entries) = [] :=
    above_eq_nil (fun _ member => (mem_below.mp member).2.le)
  have cons : above key ((key, event) :: above key events.entries)
      = above key events.entries := by
    rw [← List.singleton_append, above_append, self, above_eq_nil (by simp), List.nil_append]
  simp [front, cons]

/-- A new event with no later one takes the fast path. -/
theorem applyEventInPlace_eq_fastPath (fresh : ContimeKey.fromEvent event ∉ events.keys)
    (latest : above (ContimeKey.fromEvent event) events.entries = [])
    : let key := ContimeKey.fromEvent event
      applyEventInPlace event base checkpoints events interval
        = fastPath key base checkpoints (events.insert key event) interval
            (bytes (Event.conservativeSize event)) := by
  have path := (isLatest_iff event (ContimeKey.fromEvent event)).mpr latest
  simp only [applyEventInPlace, BTreeMap.containsKey_eq_false.mpr fresh, Bool.false_eq_true,
    if_false]
  rw [if_pos path]

/-- A new event with a later stored one takes the slow path. -/
theorem applyEventInPlace_eq_slowPath (fresh : ContimeKey.fromEvent event ∉ events.keys)
    (late : above (ContimeKey.fromEvent event) events.entries ≠ [])
    : let key := ContimeKey.fromEvent event
      applyEventInPlace event base checkpoints events interval
        = slowPath key base checkpoints (events.insert key event) interval
            (bytes (Event.conservativeSize event)) := by
  have path := (isLatest_iff event (ContimeKey.fromEvent event)).not.mpr late
  simp only [applyEventInPlace, BTreeMap.containsKey_eq_false.mpr fresh, Bool.false_eq_true,
    if_false]
  rw [if_neg path]

/-- The slow path drops the checkpoints from the key on and marks the events anew from the
last checkpoint before it.
-/
theorem slowPath_spec (key : ContimeKey) (events : BTreeMap ContimeKey E) (delta : Int64)
    : let result := slowPath key base checkpoints events interval delta
      let start := resume (below key checkpoints.entries) base events.entries
      result.events = events
      ∧ result.checkpoints.entries
        = below key checkpoints.entries ++ marks replayStep interval 0 start.1 start.2
      ∧ result.bytesDelta
        = delta
          - Int64.ofNat (checkpointsSize (atLeast key checkpoints.entries))
          + Int64.ofNat (checkpointsSize (marks replayStep interval 0 start.1 start.2)) := by
  have range := replayStart_range base (below key checkpoints.entries) events
  have older := resume_after_marks (checkpoints.ascending.below key) base events.entries
  rw [← range] at older
  obtain ⟨rebuilt, added⟩ :=
    replayAndCheckpoint_spec (replayStart base (below key checkpoints.entries).getLast?).1
      (replayStart base (below key checkpoints.entries).getLast?).2
      (checkpoints.splitOff key).1 events interval older
  have starts := congrArg Prod.fst range
  have entries := congrArg Prod.snd range
  dsimp only at starts entries
  refine ⟨rfl, ?_⟩
  simp only [slowPath, removeStale_eq, BTreeMap.range_unbounded_excluded]
  rw [rebuilt, added, starts, entries]
  exact ⟨rfl, rfl⟩

/-- The fast path completes at most one checkpoint, replayed from the last one. -/
theorem fastPath_spec (key : ContimeKey) (events : BTreeMap ContimeKey E) (delta : Int64)
    : let result := fastPath key base checkpoints events interval delta
      let start := resume checkpoints.entries base events.entries
      result.events = events
      ∧ if start.2.length % interval = 0 then
          result.checkpoints = checkpoints.insert key (replay replayStep start.1 start.2)
          ∧ result.bytesDelta
            = delta + bytes (Snapshot.conservativeSize (replay replayStep start.1 start.2))
        else
          result.checkpoints = checkpoints ∧ result.bytesDelta = delta := by
  have range := replayStart_range base checkpoints.entries events
  have starts := congrArg Prod.fst range
  have entries := congrArg Prod.snd range
  dsimp only at starts entries
  simp only [fastPath, starts, entries]
  split
  · exact ⟨rfl, rfl, rfl⟩
  · exact ⟨rfl, rfl, rfl⟩

/-- When all checkpoints lie before the last event and those before it that no checkpoint
covers are fewer than the interval, both paths come to the same: there is at most one mark
behind the last checkpoint, at the event itself.
-/
theorem fastPath_eq_slowPath {key : ContimeKey} {events : BTreeMap ContimeKey E}
    {front : List (ContimeKey × E)} (appended : events.entries = front ++ [(key, event)])
    (before : ∀ checkpoint ∈ checkpoints.entries, checkpoint.1 < key)
    (dense : (resume checkpoints.entries base front).2.length < interval) (delta : Int64)
    : fastPath key base checkpoints events interval delta
      = slowPath key base checkpoints events interval delta := by
  obtain ⟨fastEvents, fast⟩ := fastPath_spec base checkpoints interval key events delta
  obtain ⟨slowEvents, slow, slowDelta⟩ :=
    slowPath_spec base checkpoints interval key events delta
  have stale : atLeast key checkpoints.entries = [] := atLeast_eq_nil before
  -- The event joins those behind the last checkpoint.
  have tail : resume checkpoints.entries base events.entries
      = ((resume checkpoints.entries base front).1,
          (resume checkpoints.entries base front).2 ++ [(key, event)]) := by
    rw [appended]
    exact resume_append _ _ (by simpa using before)
  have bound : ((resume checkpoints.entries base front).2 ++ [(key, event)]).length
      ≤ interval := by
    simp only [List.length_append, List.length_singleton]
    omega
  rw [below_of_forall before, tail] at slow slowDelta
  rw [tail] at fast
  rw [marks_of_le bound] at slow slowDelta
  dsimp only at fast slow slowDelta
  split at fast
  next aligned =>
    obtain ⟨inserted, fastDelta⟩ := fast
    rw [if_pos aligned] at slow slowDelta
    refine AppliedEvent.ext (BTreeMap.ext_entries ?_) (fastEvents.trans slowEvents.symm) ?_
    · rw [inserted, slow, BTreeMap.insert_entries, below_of_forall before,
        above_eq_nil (fun checkpoint member => (before checkpoint member).le)]
    · rw [fastDelta, slowDelta, stale, bytes_eq]
      simp
  next unaligned =>
    obtain ⟨kept, fastDelta⟩ := fast
    rw [if_neg unaligned] at slow slowDelta
    refine AppliedEvent.ext (BTreeMap.ext_entries ?_) (fastEvents.trans slowEvents.symm) ?_
    · rw [kept, slow, List.append_nil]
    · rw [fastDelta, slowDelta, stale]
      simp

/-- An event with a later stored one drops the checkpoints from its key on and marks the
events anew from the last checkpoint before it.
-/
theorem applyEventInPlace_late (fresh : ContimeKey.fromEvent event ∉ events.keys)
    (late : above (ContimeKey.fromEvent event) events.entries ≠ [])
    : let key := ContimeKey.fromEvent event
      let result := applyEventInPlace event base checkpoints events interval
      let start := resume (below key checkpoints.entries) base (events.insert key event).entries
      result.checkpoints.entries
        = below key checkpoints.entries ++ marks replayStep interval 0 start.1 start.2
      ∧ result.bytesDelta
        = Int64.ofNat (Event.conservativeSize event).toNat
          - Int64.ofNat (checkpointsSize (atLeast key checkpoints.entries))
          + Int64.ofNat (checkpointsSize (marks replayStep interval 0 start.1 start.2)) := by
  intro key result start
  obtain ⟨_, rebuilt, delta⟩ :=
    slowPath_spec base checkpoints interval key (events.insert key event)
      (bytes (Event.conservativeSize event))
  have slow : result = _ := applyEventInPlace_eq_slowPath base checkpoints interval fresh late
  rw [slow, rebuilt, delta, bytes_eq]
  exact ⟨rfl, rfl⟩

/-- The latest event completes at most one checkpoint, replayed from the last one. -/
theorem applyEventInPlace_latest (fresh : ContimeKey.fromEvent event ∉ events.keys)
    (latest : above (ContimeKey.fromEvent event) events.entries = [])
    : let key := ContimeKey.fromEvent event
      let result := applyEventInPlace event base checkpoints events interval
      let start := resume checkpoints.entries base (events.insert key event).entries
      let size := Int64.ofNat (Event.conservativeSize event).toNat
      if start.2.length % interval = 0 then
        result.checkpoints = checkpoints.insert key (replay replayStep start.1 start.2)
        ∧ result.bytesDelta
          = size + bytes (Snapshot.conservativeSize (replay replayStep start.1 start.2))
      else
        result.checkpoints = checkpoints ∧ result.bytesDelta = size := by
  intro key result start size
  have fast : result = _ := applyEventInPlace_eq_fastPath base checkpoints interval fresh latest
  have spec :=
    (fastPath_spec base checkpoints interval key (events.insert key event)
      (bytes (Event.conservativeSize event))).2
  rw [← fast, bytes_eq] at spec
  exact spec

end

end Contime
