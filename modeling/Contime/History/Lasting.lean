import Contime.History.Pruning

/-! Properties of snapshots that no event and no query can change. What holds of a history's base
and checkpoints holds of all that is rebuilt from them, and of every answer.
-/

open SortedEntries PeriodicReplay

namespace Contime

universe u v
variable {S : Type u} {E : Type v} [Event E] [Snapshot S E] [ApplyEvent E S]

variable (E) in
omit [Event E] in
/-- A property that applying an event and setting the time keep. -/
structure Lasting (kept : S → Prop) : Prop where
  applyTo : ∀ (event : E) snapshot, kept snapshot → kept (ApplyEvent.applyTo event snapshot)
  setTime : ∀ snapshot time, kept snapshot → kept (Snapshot.setTime snapshot time)

namespace Lasting
variable {kept : S → Prop}

/-- Replaying events keeps the property. -/
theorem replay (lasting : Lasting E kept) {start : S} (initially : kept start)
    (entries : List (ContimeKey × E))
    : kept (PeriodicReplay.replay replayStep start entries) := by
  induction entries generalizing start with
  | nil => exact initially
  | cons entry rest ih =>
      rw [replay_cons]
      exact ih (lasting.setTime _ _ (lasting.applyTo entry.2 start initially))

/-- All marks of a replay have the property. -/
theorem marks (lasting : Lasting E kept) {start : S} (initially : kept start) (interval : Nat)
    (entries : List (ContimeKey × E))
    : ∀ mark ∈ PeriodicReplay.marks replayStep interval 0 start entries, kept mark.2 := by
  intro mark member
  obtain ⟨front, entry, back, _, _, rfl⟩ := (mem_marks_iff 0 start entries mark).mp member
  exact lasting.replay initially (front ++ [entry])

end Lasting

namespace LocalSnapshotHistory
variable {history : LocalSnapshotHistory S E} {kept : S → Prop}

/-- The base and all checkpoints have the property. -/
structure StoresOnly (history : LocalSnapshotHistory S E) (kept : S → Prop) : Prop where
  base : kept history.baseSnapshot
  checkpoints : ∀ checkpoint ∈ history.checkpoints.entries, kept checkpoint.2

omit [Event E] [Snapshot S E] [ApplyEvent E S] in
/-- Wherever a replay picks up, it picks up a stored state. -/
theorem StoresOnly.resume (stores : history.StoresOnly kept)
    {checkpoints : List (ContimeKey × S)} (some : checkpoints ⊆ history.checkpoints.entries)
    (entries : List (ContimeKey × E))
    : kept (PeriodicReplay.resume checkpoints history.baseSnapshot entries).1 := by
  unfold PeriodicReplay.resume
  split
  next key state last =>
    exact stores.checkpoints (key, state) (some (List.mem_of_getLast? last))
  next => exact stores.base

omit [Event E] in
/-- A new history stores its base. -/
theorem StoresOnly.new (lasting : Lasting E kept) {initial : S} (first : kept initial)
    (currentTime delta : Time)
    : (LocalSnapshotHistory.new (E := E) initial currentTime delta).1.StoresOnly kept :=
  ⟨lasting.setTime initial 0 first, fun _ member => absurd member List.not_mem_nil⟩

/-- An event adds only checkpoints that are replayed from stored ones. -/
theorem StoresOnly.applyEvent (stores : history.StoresOnly kept) (lasting : Lasting E kept)
    (event : E)
    : (history.applyEvent event).1.StoresOnly kept := by
  refine ⟨stores.base, fun checkpoint member => ?_⟩
  by_cases stored : ContimeKey.fromEvent event ∈ history.events.keys
  · rw [(applyEvent_stored history event stored).1] at member
    exact stores.checkpoints checkpoint member
  by_cases latest : above (ContimeKey.fromEvent event) history.events.entries = []
  · rcases applyEvent_latest_cases stored latest with ⟨_, _, rfl, added, _⟩ | ⟨_, same, _⟩
    · rw [added, BTreeMap.mem_insert] at member
      rcases member with rfl | ⟨older, _⟩
      · exact lasting.replay (stores.resume (List.Subset.refl _) _) _
      · exact stores.checkpoints checkpoint older
    · rw [same] at member
      exact stores.checkpoints checkpoint member
  · rw [applyEvent_late stored latest, rebuilt, List.mem_append] at member
    rcases member with older | marked
    · exact stores.checkpoints checkpoint (mem_below.mp older).1
    · refine lasting.marks (stores.resume ?_ _) _ _ checkpoint marked
      exact List.filter_subset_self _

/-- A snapshot with the property adds only checkpoints with it. -/
theorem StoresOnly.applySnapshot (stores : history.StoresOnly kept) (lasting : Lasting E kept)
    {snapshot : S} (authority : kept snapshot)
    : (history.applySnapshot snapshot).1.StoresOnly kept := by
  by_cases matching : Snapshot.id snapshot = history.snapshotId
  · refine ⟨?_, fun checkpoint member => ?_⟩
    · have base : (history.applySnapshot snapshot).1.baseSnapshot = history.baseSnapshot := by
        simp [LocalSnapshotHistory.applySnapshot, matching]
      exact base ▸ stores.base
    · rw [applySnapshot_checkpoints matching, List.mem_append, List.mem_cons] at member
      rcases member with older | rfl | marked
      · exact stores.checkpoints checkpoint (mem_below.mp older).1
      · exact authority
      · exact lasting.marks authority _ _ checkpoint marked
  · rwa [applySnapshot_other matching]

omit [ApplyEvent E S] in
/-- Advancing promotes a stored state and drops others. -/
theorem StoresOnly.advance (stores : history.StoresOnly kept) (time : Time)
    : (history.advance time).1.StoresOnly kept := by
  refine ⟨?_, fun checkpoint member => ?_⟩
  · rw [advance_baseSnapshot, promoted]
    exact stores.resume (List.filter_subset_self _) _
  · rw [advance_checkpoints] at member
    exact stores.checkpoints checkpoint (mem_atLeast.mp member).1

omit [Event E] in
/-- An answer is replayed from a stored state. -/
theorem StoresOnly.snapshotAt (stores : history.StoresOnly kept) (lasting : Lasting E kept)
    {time : Time} {answer : S} (found : history.snapshotAt time = some answer)
    : kept answer := by
  have start : kept (history.queryStart time).1 := by
    rw [queryStart]
    cases last : (history.checkpoints.range .unbounded
        (.included (history.queryKey time))).getLast? with
    | none => exact stores.base
    | some entry =>
        have listed : entry ∈ history.checkpoints.entries :=
          List.mem_of_mem_filter (List.mem_of_getLast? last)
        exact stores.checkpoints entry listed
  have applied (entries : List (ContimeKey × E)) {snapshot : S} (initially : kept snapshot)
      : kept (entries.foldl (fun snapshot entry => ApplyEvent.applyTo entry.2 snapshot)
          snapshot) := by
    induction entries generalizing snapshot with
    | nil => exact initially
    | cons entry rest ih => exact ih (lasting.applyTo entry.2 snapshot initially)
  obtain ⟨entries, _, rfl⟩ := Option.map_eq_some_iff.mp found
  exact lasting.setTime _ _ (applied entries start)

end LocalSnapshotHistory

end Contime
