import Contime.Library.PeriodicReplay
import Mathlib.Order.Interval.Set.OrdConnected

/-! Stops that lie densely among entries: every stretch of keys without a stop holds fewer
entries than the interval. The marks of a periodic replay are such stops.
-/

open SortedEntries PeriodicReplay

namespace Spacing

universe u v w
variable {κ : Type u} {ε : Type v} {σ : Type w}

open scoped Classical in
/-- The entries whose key lies in a set. -/
noncomputable def within (stretch : Set κ) (entries : List (κ × ε)) : List (κ × ε) :=
  entries.filter (fun entry => decide (entry.1 ∈ stretch))

@[simp] theorem mem_within {stretch : Set κ} {entries : List (κ × ε)} {entry : κ × ε}
    : entry ∈ within stretch entries ↔ entry ∈ entries ∧ entry.1 ∈ stretch := by
  simp [within]

@[simp] theorem within_append (stretch : Set κ) (left right : List (κ × ε))
    : within stretch (left ++ right) = within stretch left ++ within stretch right :=
  List.filter_append ..

theorem within_sublist (stretch : Set κ) (entries : List (κ × ε))
    : (within stretch entries).Sublist entries :=
  List.filter_sublist

/-- Of two stretches only what they share is kept. -/
theorem within_within (first second : Set κ) (entries : List (κ × ε))
    : within first (within second entries) = within (first ∩ second) entries := by
  rw [within, within, List.filter_filter]
  refine List.filter_congr (fun entry _ => ?_)
  by_cases one : entry.1 ∈ first
  · by_cases two : entry.1 ∈ second
    · simp [one, two]
    · simp [two]
  · simp [one]

theorem within_eq_nil {stretch : Set κ} {entries : List (κ × ε)}
    (outside : ∀ entry ∈ entries, entry.1 ∉ stretch)
    : within stretch entries = [] :=
  List.filter_eq_nil_iff.mpr (fun entry member => by simpa using outside entry member)

/-- Entries that agree on a stretch are equally many there. -/
theorem within_congr {stretch : Set κ} {keep : κ × ε → Bool} {entries : List (κ × ε)}
    (kept : ∀ entry ∈ entries, entry.1 ∈ stretch → keep entry = true)
    : within stretch (entries.filter keep) = within stretch entries := by
  rw [within, within, List.filter_filter]
  refine List.filter_congr (fun entry member => ?_)
  by_cases inside : entry.1 ∈ stretch
  · simp [inside, kept entry member inside]
  · simp [inside]

section
variable [LinearOrder κ]

theorem within_Iio (key : κ) (entries : List (κ × ε))
    : within (Set.Iio key) entries = below key entries := by
  simp [within, below]

theorem within_Ioi (key : κ) (entries : List (κ × ε))
    : within (Set.Ioi key) entries = above key entries := by
  simp [within, above]

theorem within_Ici (key : κ) (entries : List (κ × ε))
    : within (Set.Ici key) entries = atLeast key entries := by
  simp [within, atLeast]

theorem within_Ioo (low high : κ) (entries : List (κ × ε))
    : within (Set.Ioo low high) entries = below high (above low entries) := by
  simp [within, below, above, List.filter_filter, Bool.and_comm]

/-- A stretch before a key lies in the part before the key. -/
theorem within_below {stretch : Set κ} {key : κ} (low : stretch ⊆ Set.Iio key)
    {entries : List (κ × ε)}
    : within stretch (below key entries) = within stretch entries :=
  within_congr (fun _ _ inside => decide_eq_true (low inside))

/-- A stretch after a key lies in the part after the key. -/
theorem within_above {stretch : Set κ} {key : κ} (high : stretch ⊆ Set.Ioi key)
    {entries : List (κ × ε)}
    : within stretch (above key entries) = within stretch entries :=
  within_congr (fun _ _ inside => decide_eq_true (high inside))

/-- The entries in a connected stretch follow one another without a gap. -/
theorem within_contiguous {stretch : Set κ} (connected : stretch.OrdConnected)
    {entries : List (κ × ε)} (ascending : Ascending entries)
    : ∃ front back, entries = front ++ within stretch entries ++ back := by
  induction entries with
  | nil => exact ⟨[], [], rfl⟩
  | cons entry rest ih =>
      obtain ⟨first, tail⟩ := List.pairwise_cons.mp ascending
      obtain ⟨front, back, split⟩ := ih tail
      by_cases inside : entry.1 ∈ stretch
      · have head : within stretch (entry :: rest) = entry :: within stretch rest :=
          List.filter_cons_of_pos (by simpa using inside)
        rw [head]
        rcases List.eq_nil_or_concat (within stretch rest) with none | ⟨_, last, some⟩
        · exact ⟨[], rest, by simp [none]⟩
        · -- Whatever stands before the stretch lies between two of its keys.
          have lastInside : last ∈ within stretch rest := by simp [some]
          have apart : ∀ earlier ∈ front, earlier.1 < last.1 := by
            rw [split, List.append_assoc] at tail
            intro earlier member
            exact (List.pairwise_append.mp tail).2.2 earlier member last
              (List.mem_append_left _ lastInside)
          have empty : front = [] := by
            have between : ∀ earlier ∈ front, earlier.1 ∈ stretch := by
              intro earlier member
              have later := first earlier (by rw [split]; simp [member])
              exact connected.out inside (mem_within.mp lastInside).2
                ⟨later.le, (apart earlier member).le⟩
            have all : within stretch front = front :=
              List.filter_eq_self.mpr (fun earlier member => by
                simpa using between earlier member)
            have counts := congrArg (fun list => (within stretch list).length) split
            simp only [within_append, List.length_append, all] at counts
            have twice : within stretch (within stretch rest) = within stretch rest :=
              List.filter_eq_self.mpr (fun entry member => by
                simpa using (mem_within.mp member).2)
            rw [twice] at counts
            exact List.eq_nil_of_length_eq_zero (by omega)
          refine ⟨[], back, ?_⟩
          rw [empty, List.nil_append] at split
          rw [List.nil_append, List.cons_append, ← split]
      · have head : within stretch (entry :: rest) = within stretch rest :=
          List.filter_cons_of_neg (by simpa using inside)
        refine ⟨entry :: front, back, ?_⟩
        rw [head, List.cons_append, List.cons_append, ← split]

/-- Every connected stretch of keys without a stop holds fewer entries than the interval. -/
def Spaced (interval : Nat) (stops : List κ) (entries : List (κ × ε)) : Prop :=
  ∀ stretch : Set κ, stretch.OrdConnected → (∀ stop ∈ stops, stop ∉ stretch)
    → (within stretch entries).length < interval

variable {interval : Nat} {stops : List κ} {entries : List (κ × ε)}

theorem spaced_nil (positive : 0 < interval) : Spaced interval stops ([] : List (κ × ε)) :=
  fun _ _ _ => positive

/-- More stops keep entries spaced. -/
theorem Spaced.mono {more : List κ} (spaced : Spaced interval stops entries)
    (included : stops ⊆ more)
    : Spaced interval more entries :=
  fun stretch connected free =>
    spaced stretch connected (fun stop member => free stop (included member))

/-- Keys outside a connected stretch all lie on one side of it. -/
theorem subset_Iio_or_subset_Ioi {stretch : Set κ} (connected : stretch.OrdConnected)
    {key : κ} (outside : key ∉ stretch)
    : stretch ⊆ Set.Iio key ∨ stretch ⊆ Set.Ioi key := by
  by_contra both
  obtain ⟨notBelow, notAbove⟩ := not_or.mp both
  obtain ⟨high, highInside, reached⟩ := Set.not_subset.mp notBelow
  obtain ⟨low, lowInside, passed⟩ := Set.not_subset.mp notAbove
  exact outside (connected.out lowInside highInside ⟨not_lt.mp passed, not_lt.mp reached⟩)

/-- A stop cuts the question in two: spaced before it and after it is spaced. -/
theorem spaced_of_sides (key : κ) (stop : key ∈ stops)
    (before : Spaced interval stops (below key entries))
    (after : Spaced interval stops (above key entries))
    : Spaced interval stops entries := by
  intro stretch connected free
  rcases subset_Iio_or_subset_Ioi connected (free key stop) with low | high
  · exact within_below low ▸ before stretch connected free
  · exact within_above high ▸ after stretch connected free

/-- Within a connected set of keys, only the stops inside it matter. -/
theorem Spaced.within {region : Set κ} (spaced : Spaced interval stops entries)
    (connected : region.OrdConnected) {inner : List κ}
    (included : ∀ stop ∈ stops, stop ∈ region → stop ∈ inner)
    : Spaced interval inner (within region entries) := by
  intro stretch narrow free
  rw [within_within]
  refine spaced _ (narrow.inter connected) (fun stop member inside => ?_)
  exact free stop (included stop member inside.2) inside.1

/-- The part before a key is spaced by the stops before it. -/
theorem Spaced.below (spaced : Spaced interval stops entries) (key : κ) {inner : List κ}
    (included : ∀ stop ∈ stops, stop < key → stop ∈ inner)
    : Spaced interval inner (below key entries) := by
  rw [← within_Iio]
  exact spaced.within Set.ordConnected_Iio included

/-- The part from a key on is spaced by the stops from it on. -/
theorem Spaced.atLeast (spaced : Spaced interval stops entries) (key : κ) {inner : List κ}
    (included : ∀ stop ∈ stops, key ≤ stop → stop ∈ inner)
    : Spaced interval inner (atLeast key entries) := by
  rw [← within_Ici]
  exact spaced.within Set.ordConnected_Ici included

/-- The entries between two keys are few when no stop lies between. -/
theorem Spaced.between (spaced : Spaced interval stops entries) {low high : κ}
    (free : ∀ stop ∈ stops, stop ≤ low ∨ high ≤ stop)
    : (SortedEntries.below high (SortedEntries.above low entries)).length < interval := by
  rw [← within_Ioo]
  refine spaced _ Set.ordConnected_Ioo (fun stop member inside => ?_)
  exact (free stop member).elim inside.1.not_ge inside.2.not_ge

/-- The entries before a key are few when no stop lies before it. -/
theorem Spaced.before (spaced : Spaced interval stops entries) {high : κ}
    (free : ∀ stop ∈ stops, high ≤ stop)
    : (SortedEntries.below high entries).length < interval := by
  rw [← within_Iio]
  exact spaced _ Set.ordConnected_Iio
    (fun stop member inside => (free stop member).not_gt inside)

/-- The entries after a key are few when no stop lies after it. -/
theorem Spaced.after (spaced : Spaced interval stops entries) {low : κ}
    (free : ∀ stop ∈ stops, stop ≤ low)
    : (SortedEntries.above low entries).length < interval := by
  rw [← within_Ioi]
  exact spaced _ Set.ordConnected_Ioi
    (fun stop member inside => (free stop member).not_gt inside)

/-- The marks of a replay are spaced: a stretch of `interval` entries in a row contains the
position of a mark.
-/
theorem spaced_marks (step : σ → ε → σ) (positive : 0 < interval) (start : σ)
    (ascending : Ascending entries)
    : Spaced interval ((marks step interval 0 start entries).map Prod.fst) entries := by
  intro stretch connected free
  by_contra many
  rw [not_lt] at many
  obtain ⟨front, back, split⟩ := within_contiguous connected ascending
  -- The first position from `front` on that completes an interval.
  obtain ⟨offset, small, aligned⟩
      : ∃ offset < interval, (front.length + offset + 1) % interval = 0 := by
    have bound := Nat.mod_lt front.length positive
    have parts := Nat.div_add_mod front.length interval
    refine ⟨interval - 1 - front.length % interval, by omega, ?_⟩
    have position : front.length + (interval - 1 - front.length % interval) + 1
        = interval * (front.length / interval + 1) := by
      rw [Nat.mul_add, Nat.mul_one]
      omega
    rw [position, Nat.mul_mod_right]
  have fits : offset < (within stretch entries).length := by omega
  have cut : within stretch entries
      = (within stretch entries).take offset
        ++ (within stretch entries)[offset] :: (within stretch entries).drop (offset + 1) := by
    rw [List.getElem_cons_drop, List.take_append_drop]
  generalize entry_def : (within stretch entries)[offset] = entry at cut
  have inside : entry ∈ within stretch entries := entry_def ▸ List.getElem_mem fits
  have position : (0 + (front ++ (within stretch entries).take offset).length + 1) % interval
      = 0 := by
    rw [List.length_append, List.length_take, Nat.min_eq_left fits.le, Nat.zero_add]
    exact aligned
  have marked : (entry.1, replay step start ((front ++ (within stretch entries).take offset)
      ++ [entry])) ∈ marks step interval 0 start entries := (mem_marks_iff 0 start entries _).mpr
    ⟨front ++ (within stretch entries).take offset, entry,
      (within stretch entries).drop (offset + 1) ++ back, by
        conv_lhs => rw [split, cut]
        simp only [List.append_assoc, List.cons_append],
      position, rfl⟩
  exact free entry.1 (List.mem_map_of_mem marked) (mem_within.mp inside).2

end

end Spacing
