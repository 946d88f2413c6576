import Contime.Library.SortedEntries
import Mathlib.Data.Nat.ModEq

/-! Replay with a mark after every `interval`-th entry.
The marks of a list are a function of its entries alone; continuing from the last mark of
a prefix gives the same marks as replaying the whole list from the start.
-/

open SortedEntries

namespace PeriodicReplay

universe u v w
variable {κ : Type u} {ε : Type v} {σ : Type w}

/-- Apply the items of the entries in list order. -/
def replay (step : σ → ε → σ) (start : σ) (entries : List (κ × ε)) : σ :=
  entries.foldl (fun state entry => step state entry.2) start

/-- The states after every `interval`-th entry, each under the key of that entry, when
`count` entries were counted before the first one.
-/
def marks (step : σ → ε → σ) (interval : Nat) : Nat → σ → List (κ × ε) → List (κ × σ)
  | _, _, [] => []
  | count, state, entry :: rest =>
      let next := step state entry.2
      if (count + 1) % interval = 0 then
        (entry.1, next) :: marks step interval (count + 1) next rest
      else
        marks step interval (count + 1) next rest

/-- The longest prefix whose length is a multiple of the interval. -/
def settled (interval : Nat) (entries : List (κ × ε)) : List (κ × ε) :=
  entries.take (entries.length / interval * interval)

/-- The entries after the settled prefix. -/
def pending (interval : Nat) (entries : List (κ × ε)) : List (κ × ε) :=
  entries.drop (entries.length / interval * interval)

-----------------------------------------------------------------------------------------
-- Replay and marks of joined lists
-----------------------------------------------------------------------------------------

section
variable {step : σ → ε → σ} {interval : Nat}

@[simp] theorem replay_nil (start : σ) : replay step start ([] : List (κ × ε)) = start := rfl

@[simp] theorem replay_cons (start : σ) (entry : κ × ε) (rest : List (κ × ε))
    : replay step start (entry :: rest) = replay step (step start entry.2) rest := rfl

@[simp] theorem replay_append (start : σ) (left right : List (κ × ε))
    : replay step start (left ++ right) = replay step (replay step start left) right :=
  List.foldl_append

@[simp] theorem marks_nil (count : Nat) (start : σ)
    : marks step interval count start ([] : List (κ × ε)) = [] := rfl

/-- The marks of a joined list are those of its parts, the second counting on. -/
theorem marks_append (count : Nat) (start : σ) (left right : List (κ × ε))
    : marks step interval count start (left ++ right)
      = marks step interval count start left
        ++ marks step interval (count + left.length) (replay step start left) right := by
  induction left generalizing count start with
  | nil => rfl
  | cons entry rest ih =>
      have shift : count + 1 + rest.length = count + (rest.length + 1) := by omega
      simp only [List.cons_append, marks, ih, replay_cons, List.length_cons, shift]
      split <;> simp

/-- A count that is a multiple of the interval marks like a fresh count. -/
theorem marks_of_dvd {count : Nat} (aligned : interval ∣ count) (start : σ)
    (entries : List (κ × ε))
    : marks step interval count start entries = marks step interval 0 start entries := by
  have shifted (extra : Nat)
      : marks step interval (count + extra) start entries
        = marks step interval extra start entries := by
    induction entries generalizing extra start with
    | nil => rfl
    | cons entry rest ih =>
        obtain ⟨times, rfl⟩ := aligned
        have same : (interval * times + extra + 1) % interval = (extra + 1) % interval := by
          rw [Nat.add_assoc, Nat.mul_add_mod]
        have next := ih (step start entry.2) (extra + 1)
        rw [← Nat.add_assoc] at next
        simp only [marks, same, next]
  exact shifted 0

/-- Fewer entries than the interval leave no mark. -/
theorem marks_of_short {count : Nat} {start : σ} {entries : List (κ × ε)}
    (short : count + entries.length < interval)
    : marks step interval count start entries = [] := by
  induction entries generalizing count start with
  | nil => rfl
  | cons entry rest ih =>
      simp only [List.length_cons] at short
      have unmarked : (count + 1) % interval ≠ 0 := by
        rw [Nat.mod_eq_of_lt (by omega)]
        omega
      simp only [marks, unmarked, if_false]
      exact ih (by omega)

/-- Marks sit under keys of the replayed entries, in their order. -/
theorem marks_keys_sublist (count : Nat) (start : σ) (entries : List (κ × ε))
    : ((marks step interval count start entries).map Prod.fst).Sublist
        (entries.map Prod.fst) := by
  induction entries generalizing count start with
  | nil => exact .slnil
  | cons entry rest ih =>
      simp only [marks]
      split
      · exact (ih _ _).cons_cons _
      · exact (ih _ _).cons _

theorem mem_keys_of_mem_marks {count : Nat} {start : σ} {entries : List (κ × ε)}
    {mark : κ × σ} (member : mark ∈ marks step interval count start entries)
    : ∃ entry ∈ entries, entry.1 = mark.1 := by
  have key := (marks_keys_sublist count start entries).subset (List.mem_map_of_mem member)
  exact List.mem_map.mp key

/-- The mark positions: exactly the entries that complete a multiple of the interval, each
with the replay of everything up to it.
-/
theorem mem_marks_iff (count : Nat) (start : σ) (entries : List (κ × ε)) (mark : κ × σ)
    : mark ∈ marks step interval count start entries
      ↔ ∃ front entry back,
          entries = front ++ entry :: back
          ∧ (count + front.length + 1) % interval = 0
          ∧ mark = (entry.1, replay step start (front ++ [entry])) := by
  constructor
  · intro member
    induction entries generalizing count start with
    | nil => exact absurd member List.not_mem_nil
    | cons entry rest ih =>
        have first_or_later
            : ((count + 1) % interval = 0 ∧ mark = (entry.1, step start entry.2))
              ∨ mark ∈ marks step interval (count + 1) (step start entry.2) rest := by
          simp only [marks] at member
          split at member
          next position => exact (List.mem_cons.mp member).imp (fun same => ⟨position, same⟩) id
          next => exact Or.inr member
        rcases first_or_later with ⟨position, rfl⟩ | found
        · exact ⟨[], entry, rest, rfl, position, rfl⟩
        · obtain ⟨front, last, back, rfl, position, value⟩ := ih _ _ found
          refine ⟨entry :: front, last, back, rfl, ?_, value⟩
          rw [← position, List.length_cons]
          congr 1
          omega
  · intro split
    obtain ⟨front, entry, back, rfl, position, rfl⟩ := split
    rw [marks_append]
    exact List.mem_append_right _ (by simp [marks, position])

end

-----------------------------------------------------------------------------------------
-- The settled prefix and the pending rest
-----------------------------------------------------------------------------------------

section
variable (interval : Nat)

@[simp] theorem settled_append_pending (entries : List (κ × ε))
    : settled interval entries ++ pending interval entries = entries :=
  List.take_append_drop ..

theorem length_pending (entries : List (κ × ε))
    : (pending interval entries).length = entries.length % interval := by
  rw [pending, List.length_drop, Nat.mul_comm]
  have split := Nat.div_add_mod entries.length interval
  omega

theorem length_settled (entries : List (κ × ε))
    : (settled interval entries).length = entries.length / interval * interval := by
  rw [settled, List.length_take, Nat.min_eq_left (Nat.div_mul_le_self ..)]

theorem dvd_length_settled (entries : List (κ × ε))
    : interval ∣ (settled interval entries).length := by
  rw [length_settled]
  exact Nat.dvd_mul_left _ _

variable {interval} {step : σ → ε → σ}

/-- The pending entries carry no mark, so all marks are those of the settled prefix. -/
theorem marks_eq_marks_settled (positive : 0 < interval) (start : σ)
    (entries : List (κ × ε))
    : marks step interval 0 start entries
      = marks step interval 0 start (settled interval entries) := by
  have short : 0 + (pending interval entries).length < interval := by
    rw [Nat.zero_add, length_pending]
    exact Nat.mod_lt _ positive
  conv_lhs => rw [← settled_append_pending interval entries]
  rw [marks_append, Nat.zero_add, marks_of_dvd (dvd_length_settled interval entries),
    marks_of_short short, List.append_nil]

/-- Continuing from the settled prefix gives the marks of the whole list. -/
theorem marks_resume (positive : 0 < interval) (start : σ) (entries more : List (κ × ε))
    : marks step interval 0 start (entries ++ more)
      = marks step interval 0 start entries
        ++ marks step interval 0 (replay step start (settled interval entries))
            (pending interval entries ++ more) := by
  conv_lhs => rw [← settled_append_pending interval entries, List.append_assoc]
  rw [marks_append, Nat.zero_add, marks_of_dvd (dvd_length_settled interval entries),
    ← marks_eq_marks_settled positive]

/-- Too few entries in front for a mark leave the marks to the entries behind them. -/
theorem mem_keys_of_mem_marks_append {start : σ} {front back : List (κ × ε)}
    (few : front.length < interval) {mark : κ × σ}
    (member : mark ∈ marks step interval 0 start (front ++ back))
    : ∃ entry ∈ back, entry.1 = mark.1 := by
  rw [marks_append, marks_of_short (by omega), List.nil_append] at member
  exact mem_keys_of_mem_marks member

/-- A list that completes a multiple of the interval is marked at its last entry. -/
theorem marks_concat_of_dvd {start : σ} {front : List (κ × ε)} {last : κ × ε}
    (aligned : interval ∣ (front ++ [last]).length)
    : marks step interval 0 start (front ++ [last])
      = marks step interval 0 start front
        ++ [(last.1, replay step start (front ++ [last]))] := by
  have position : (front.length + 1) % interval = 0 := by
    simpa using Nat.mod_eq_zero_of_dvd aligned
  simp [marks_append, marks, position]

/-- There is no mark exactly when the entries are fewer than the interval. -/
theorem marks_eq_nil_iff (positive : 0 < interval) {start : σ} {entries : List (κ × ε)}
    : marks step interval 0 start entries = [] ↔ entries.length < interval := by
  refine ⟨fun none => ?_, fun short => marks_of_short (by omega)⟩
  by_contra long
  have length : (entries.take interval).length = interval := List.length_take_of_le (by omega)
  obtain ⟨front, last, shape⟩ := (List.eq_nil_or_concat (entries.take interval)).resolve_left
    (List.ne_nil_of_length_pos (by omega))
  rw [List.concat_eq_append] at shape
  have marked : marks step interval 0 start (front ++ [last])
      = marks step interval 0 start front ++ [(last.1, replay step start (front ++ [last]))] :=
    marks_concat_of_dvd (shape ▸ dvd_of_eq length.symm)
  rw [← List.take_append_drop interval entries, marks_append, shape, marked] at none
  simp at none

/-- Up to one interval of entries is marked at most once, at its end. -/
theorem marks_of_le {start : σ} {front : List (κ × ε)} {last : κ × ε}
    (bound : (front ++ [last]).length ≤ interval)
    : marks step interval 0 start (front ++ [last])
      = if (front ++ [last]).length % interval = 0 then
          [(last.1, replay step start (front ++ [last]))]
        else [] := by
  have short : 0 + front.length < interval := by
    simp only [List.length_append, List.length_singleton] at bound
    omega
  split
  next aligned =>
    rw [marks_concat_of_dvd (Nat.dvd_of_mod_eq_zero aligned), marks_of_short short,
      List.nil_append]
  next unaligned =>
    refine marks_of_short ?_
    rw [Nat.zero_add]
    refine lt_of_le_of_ne bound (fun full => unaligned ?_)
    rw [full, Nat.mod_self]

/-- Each mark takes a whole interval of entries. -/
theorem length_marks_le (step : σ → ε → σ) (interval count : Nat) (start : σ)
    (entries : List (κ × ε))
    : interval * (marks step interval count start entries).length
      ≤ count % interval + entries.length := by
  induction entries generalizing count start with
  | nil => exact Nat.zero_le _
  | cons entry rest ih =>
      have later := ih (count + 1) (step start entry.2)
      have next := Nat.mod_add_mod count interval 1
      rw [marks, List.length_cons]
      split
      next full =>
        have last : interval ≤ count % interval + 1 := by
          by_contra short
          rw [Nat.mod_eq_of_lt (Nat.not_le.mp short), full] at next
          omega
        rw [full, Nat.zero_add] at later
        rw [List.length_cons, Nat.mul_succ]
        omega
      next =>
        have step : (count + 1) % interval ≤ count % interval + 1 := by
          rw [← next]
          exact Nat.mod_le _ _
        omega

/-- A cut that keeps a front of the entries keeps exactly the marks of that front. -/
theorem filter_marks (keep : κ → Bool) {start : σ} {front back : List (κ × ε)}
    (kept : ∀ entry ∈ front, keep entry.1 = true)
    (dropped : ∀ entry ∈ back, keep entry.1 = false)
    : (marks step interval 0 start (front ++ back)).filter (fun mark => keep mark.1)
      = marks step interval 0 start front := by
  have all : ∀ mark ∈ marks step interval 0 start front, keep mark.1 = true := by
    intro mark member
    obtain ⟨entry, stored, same⟩ := mem_keys_of_mem_marks member
    exact same ▸ kept entry stored
  have none (count : Nat) (state : σ)
      : ∀ mark ∈ marks step interval count state back, ¬ keep mark.1 = true := by
    intro mark member
    obtain ⟨entry, stored, same⟩ := mem_keys_of_mem_marks member
    simp [← same, dropped entry stored]
  rw [marks_append, List.filter_append, List.filter_eq_self.mpr all,
    List.filter_eq_nil_iff.mpr (none _ _), List.append_nil]

/-- The marks before a key are the marks of the entries before it. -/
theorem below_marks [LinearOrder κ] {start : σ} {key : κ} {entries : List (κ × ε)}
    (ascending : Ascending entries)
    : below key (marks step interval 0 start entries)
      = marks step interval 0 start (below key entries) := by
  conv_lhs => rw [← ascending.below_append_atLeast key]
  refine filter_marks (fun found => found < key) (fun entry member => ?_)
    (fun entry member => ?_)
  · simpa using (mem_below.mp member).2
  · simpa using (mem_atLeast.mp member).2

/-- The marks up to a key are the marks of the entries up to it. -/
theorem upTo_marks [LinearOrder κ] {start : σ} {key : κ} {entries : List (κ × ε)}
    (ascending : Ascending entries)
    : upTo key (marks step interval 0 start entries)
      = marks step interval 0 start (upTo key entries) := by
  conv_lhs => rw [← ascending.upTo_append_above key]
  refine filter_marks (fun found => found ≤ key) (fun entry member => ?_)
    (fun entry member => ?_)
  · simpa using (mem_upTo.mp member).2
  · simpa using (mem_above.mp member).2

/-- A key is marked when it has an entry and that entry completes an interval. -/
theorem mem_marks_keys_iff [LinearOrder κ] {start : σ} {key : κ} {entries : List (κ × ε)}
    (ascending : Ascending entries)
    : (∃ state, (key, state) ∈ marks step interval 0 start entries)
      ↔ (∃ item, (key, item) ∈ entries) ∧ interval ∣ (below key entries).length + 1 := by
  constructor
  · intro marked
    obtain ⟨state, member⟩ := marked
    obtain ⟨front, entry, back, rfl, position, same⟩ := (mem_marks_iff ..).mp member
    obtain rfl : key = entry.1 := congrArg Prod.fst same
    rw [below_split ascending]
    refine ⟨⟨entry.2, by simp⟩, Nat.dvd_of_mod_eq_zero ?_⟩
    rwa [Nat.zero_add] at position
  · intro counted
    obtain ⟨⟨item, member⟩, aligned⟩ := counted
    obtain ⟨front, back, rfl⟩ := List.append_of_mem member
    have before := below_split ascending
    dsimp only at before
    rw [before] at aligned
    refine ⟨_, (mem_marks_iff ..).mpr ⟨front, (key, item), back, rfl, ?_, rfl⟩⟩
    rw [Nat.zero_add]
    exact Nat.mod_eq_zero_of_dvd aligned

/-- Where a replay over marked entries picks up: the last mark with the entries after its
key, or the start with all entries when there is no mark.
-/
def resume [LinearOrder κ] (marked : List (κ × σ)) (start : σ) (entries : List (κ × ε))
    : σ × List (κ × ε) :=
  match marked.getLast? with
  | some (key, state) => (state, above key entries)
  | none => (start, entries)

@[simp] theorem resume_nil [LinearOrder κ] (start : σ) (entries : List (κ × ε))
    : resume [] start entries = (start, entries) := rfl

theorem resume_append_singleton [LinearOrder κ] (marked : List (κ × σ)) (mark : κ × σ)
    (start : σ) (entries : List (κ × ε))
    : resume (marked ++ [mark]) start entries = (mark.2, above mark.1 entries) := by
  simp [resume]

/-- The state a replay picks up does not depend on the entries that follow. -/
theorem resume_fst [LinearOrder κ] (marked : List (κ × σ)) (start : σ)
    (entries others : List (κ × ε))
    : (resume marked start entries).1 = (resume marked start others).1 := by
  unfold resume
  split <;> rfl

/-- Entries behind every mark are all replayed. -/
theorem resume_append [LinearOrder κ] {marked : List (κ × σ)} (start : σ)
    (front : List (κ × ε)) {back : List (κ × ε)}
    (behind : ∀ mark ∈ marked, ∀ entry ∈ back, mark.1 < entry.1)
    : resume marked start (front ++ back)
      = ((resume marked start front).1, (resume marked start front).2 ++ back) := by
  rcases List.eq_nil_or_concat marked with rfl | ⟨earlier, last, rfl⟩
  · rfl
  · rw [List.concat_eq_append] at behind ⊢
    rw [resume_append_singleton, resume_append_singleton, above_append,
      above_of_forall (behind last (by simp))]

/-- The state a replay picks up over more marks is what it picks up over the later ones when it
starts where the earlier ones lead.
-/
theorem resume_append_fst [LinearOrder κ] (older newer : List (κ × σ)) (start : σ)
    (entries others more : List (κ × ε))
    : (resume (older ++ newer) start entries).1
      = (resume newer (resume older start others).1 more).1 := by
  rcases List.eq_nil_or_concat newer with rfl | ⟨front, last, rfl⟩
  · rw [List.append_nil]
    exact resume_fst older start entries others
  · rw [List.concat_eq_append, ← List.append_assoc, resume_append_singleton,
      resume_append_singleton]

/-- A replay picks up a part of the given entries, in their order. -/
theorem resume_sublist [LinearOrder κ] (marked : List (κ × σ)) (start : σ)
    (entries : List (κ × ε))
    : (resume marked start entries).2.Sublist entries := by
  unfold resume
  split
  · exact List.filter_sublist
  · exact .refl _

/-- A replay picks up among the given entries. -/
theorem mem_of_mem_resume [LinearOrder κ] {marked : List (κ × σ)} {start : σ}
    {entries : List (κ × ε)} {entry : κ × ε}
    (member : entry ∈ (resume marked start entries).2)
    : entry ∈ entries :=
  (resume_sublist marked start entries).subset member

/-- The last mark of a prefix is its settled part, so a replay picks up there. -/
theorem resume_marks [LinearOrder κ] (step : σ → ε → σ) (positive : 0 < interval)
    (start : σ) {entries more : List (κ × ε)} (ascending : Ascending (entries ++ more))
    : resume (marks step interval 0 start entries) start (entries ++ more)
      = (replay step start (settled interval entries), pending interval entries ++ more) := by
  have split := settled_append_pending interval entries
  have aligned := dvd_length_settled interval entries
  rw [marks_eq_marks_settled positive]
  generalize settled interval entries = front at *
  generalize pending interval entries = rest at *
  subst split
  rcases List.eq_nil_or_concat front with rfl | ⟨front, last, rfl⟩
  · rfl
  · simp only [List.concat_eq_append] at *
    simp only [List.append_assoc, List.cons_append, List.nil_append] at ascending
    rw [marks_concat_of_dvd aligned, resume_append_singleton]
    simp only [List.append_assoc, List.cons_append, List.nil_append, above_split ascending]

/-- With all entries marked, a replay picks up at the settled entries. -/
theorem resume_marks_all [LinearOrder κ] (positive : 0 < interval) (start : σ)
    {entries : List (κ × ε)} (ascending : Ascending entries)
    : resume (marks step interval 0 start entries) start entries
      = (replay step start (settled interval entries), pending interval entries) := by
  have whole : Ascending (entries ++ []) := by rwa [List.append_nil]
  simpa using resume_marks step positive start whole

/-- With the entries before a key marked, a replay picks up at their settled part. -/
theorem resume_marks_below [LinearOrder κ] (positive : 0 < interval) (start : σ) (key : κ)
    {entries : List (κ × ε)} (ascending : Ascending entries)
    : resume (marks step interval 0 start (below key entries)) start entries
      = (replay step start (settled interval (below key entries)),
          pending interval (below key entries) ++ atLeast key entries) := by
  have split := ascending.below_append_atLeast key
  have whole : Ascending (below key entries ++ atLeast key entries) := split.symm ▸ ascending
  have start := resume_marks step positive start whole
  rwa [split] at start

/-- Marking anew behind the marks before a key gives the marks of all entries. -/
theorem marks_rebuild [LinearOrder κ] (positive : 0 < interval) (start : σ) (key : κ)
    {entries : List (κ × ε)} (ascending : Ascending entries)
    : let kept := marks step interval 0 start (below key entries)
      let origin := resume kept start entries
      kept ++ marks step interval 0 origin.1 origin.2
        = marks step interval 0 start entries := by
  have split := ascending.below_append_atLeast key
  dsimp only
  rw [resume_marks_below positive start key ascending, ← marks_resume positive, split]

/-- A replay over marks behind an anchor picks up as if it had started at the anchor. -/
theorem resume_anchor [LinearOrder κ] {older later : List (κ × σ)} {anchor : κ × σ}
    (behind : ∀ mark ∈ later, anchor.1 < mark.1) (start : σ) (entries : List (κ × ε))
    : resume (older ++ anchor :: later) start entries
      = resume later anchor.2 (above anchor.1 entries) := by
  rcases List.eq_nil_or_concat later with rfl | ⟨front, last, rfl⟩
  · rw [resume_append_singleton]
    rfl
  · have nested := above_above_of_lt (behind last (by simp)) entries
    rw [List.concat_eq_append, resume_append_singleton, nested, ← List.cons_append,
      ← List.append_assoc, resume_append_singleton]

end

end PeriodicReplay
