import Mathlib.Order.Basic
import Mathlib.Data.List.Sort
import Mathlib.Data.List.Perm.Basic

/-! Key-ascending entry lists and their cuts at a key.
A cut keeps the entries on one side of a key, and both sides rejoin to the whole list.
-/

namespace SortedEntries

universe u v
variable {κ : Type u} {ν : Type v} [LinearOrder κ]

/-- Keys strictly increase along the list, so every key occurs at most once. -/
def Ascending (entries : List (κ × ν)) : Prop :=
  entries.Pairwise (fun earlier later => earlier.1 < later.1)

/-- The entries with a key strictly before `key`. -/
def below (key : κ) (entries : List (κ × ν)) : List (κ × ν) :=
  entries.filter (fun entry => decide (entry.1 < key))

/-- The entries with a key at or before `key`. -/
def upTo (key : κ) (entries : List (κ × ν)) : List (κ × ν) :=
  entries.filter (fun entry => decide (entry.1 ≤ key))

/-- The entries with a key strictly after `key`. -/
def above (key : κ) (entries : List (κ × ν)) : List (κ × ν) :=
  entries.filter (fun entry => decide (key < entry.1))

/-- The entries with a key at or after `key`. -/
def atLeast (key : κ) (entries : List (κ × ν)) : List (κ × ν) :=
  entries.filter (fun entry => decide (key ≤ entry.1))

-----------------------------------------------------------------------------------------
-- Membership in a cut
-----------------------------------------------------------------------------------------

@[simp] theorem mem_below {key : κ} {entries : List (κ × ν)} {entry : κ × ν}
    : entry ∈ below key entries ↔ entry ∈ entries ∧ entry.1 < key := by
  simp [below]

@[simp] theorem mem_upTo {key : κ} {entries : List (κ × ν)} {entry : κ × ν}
    : entry ∈ upTo key entries ↔ entry ∈ entries ∧ entry.1 ≤ key := by
  simp [upTo]

@[simp] theorem mem_above {key : κ} {entries : List (κ × ν)} {entry : κ × ν}
    : entry ∈ above key entries ↔ entry ∈ entries ∧ key < entry.1 := by
  simp [above]

@[simp] theorem mem_atLeast {key : κ} {entries : List (κ × ν)} {entry : κ × ν}
    : entry ∈ atLeast key entries ↔ entry ∈ entries ∧ key ≤ entry.1 := by
  simp [atLeast]

/-- A cut from a key on keeps the keys from it on. -/
theorem mem_keys_atLeast {low key : κ} {entries : List (κ × ν)}
    : key ∈ (atLeast low entries).map Prod.fst ↔ key ∈ entries.map Prod.fst ∧ low ≤ key := by
  simp only [List.mem_map, mem_atLeast]
  constructor
  · intro kept
    obtain ⟨entry, ⟨member, behind⟩, rfl⟩ := kept
    exact ⟨⟨entry, member, rfl⟩, behind⟩
  · intro kept
    obtain ⟨⟨entry, member, rfl⟩, behind⟩ := kept
    exact ⟨entry, ⟨member, behind⟩, rfl⟩

/-- Every cut of an ascending list is ascending, being a sublist of it. -/
theorem Ascending.sublist {part entries : List (κ × ν)} (ascending : Ascending entries)
    (sub : part.Sublist entries)
    : Ascending part :=
  List.Pairwise.sublist sub ascending

theorem Ascending.below {entries : List (κ × ν)} (ascending : Ascending entries) (key : κ)
    : Ascending (below key entries) :=
  ascending.sublist List.filter_sublist

theorem Ascending.above {entries : List (κ × ν)} (ascending : Ascending entries) (key : κ)
    : Ascending (above key entries) :=
  ascending.sublist List.filter_sublist

theorem Ascending.atLeast {entries : List (κ × ν)} (ascending : Ascending entries)
    (key : κ)
    : Ascending (atLeast key entries) :=
  ascending.sublist List.filter_sublist

/-- Joining two ascending lists is ascending when the first lies below the second. -/
theorem Ascending.append {left right : List (κ × ν)} (hl : Ascending left)
    (hr : Ascending right) (apart : ∀ a ∈ left, ∀ b ∈ right, a.1 < b.1)
    : Ascending (left ++ right) :=
  List.pairwise_append.mpr ⟨hl, hr, apart⟩

/-- In an ascending list all keys ahead of an entry are smaller and all behind it larger. -/
theorem Ascending.around {front back : List (κ × ν)} {entry : κ × ν}
    (ascending : Ascending (front ++ entry :: back))
    : (∀ earlier ∈ front, earlier.1 < entry.1) ∧ ∀ later ∈ back, entry.1 < later.1 := by
  obtain ⟨_, tail, apart⟩ := List.pairwise_append.mp ascending
  exact ⟨fun earlier member => apart earlier member entry (.head _),
    (List.pairwise_cons.mp tail).1⟩

/-- No key of an ascending list is larger than the last one. -/
theorem Ascending.le_last {front : List (κ × ν)} {last : κ × ν}
    (ascending : Ascending (front ++ [last])) {entry : κ × ν} (member : entry ∈ front ++ [last])
    : entry.1 ≤ last.1 := by
  rcases List.mem_append.mp member with earlier | same
  · exact (ascending.around.1 entry earlier).le
  · rw [List.mem_singleton.mp same]

/-- An entry put between the two sides of its key keeps the list ascending. -/
theorem Ascending.insert {entries : List (κ × ν)} (ascending : Ascending entries)
    (key : κ) (value : ν)
    : Ascending
        (SortedEntries.below key entries ++ (key, value) :: SortedEntries.above key entries) := by
  refine (ascending.below key).append ?_ ?_
  · refine List.pairwise_cons.mpr ⟨?_, ascending.above key⟩
    intro later member
    exact (mem_above.mp member).2
  · intro earlier before later after
    have low := (mem_below.mp before).2
    rcases List.mem_cons.mp after with rfl | after
    · exact low
    · exact low.trans (mem_above.mp after).2

/-- Two ascending lists with the same members are equal: both are the one sorted
arrangement of their members.
-/
theorem Ascending.ext {left right : List (κ × ν)} (hl : Ascending left)
    (hr : Ascending right) (same : ∀ entry, entry ∈ left ↔ entry ∈ right)
    : left = right := by
  have distinct {entries : List (κ × ν)} (ascending : Ascending entries) : entries.Nodup :=
    ascending.imp (fun before same => absurd (same ▸ before) (lt_irrefl _))
  have perm := (List.perm_ext_iff_of_nodup (distinct hl) (distinct hr)).mpr same
  exact perm.eq_of_pairwise (fun a b _ _ ab ba => absurd ab ba.asymm) hl hr

/-- An ascending list has one entry for each of its keys. -/
theorem Ascending.entry_unique {entries : List (κ × ν)} (ascending : Ascending entries)
    {left right : κ × ν} (hl : left ∈ entries) (hr : right ∈ entries)
    (same : left.1 = right.1)
    : left = right := by
  induction entries with
  | nil => exact absurd hl List.not_mem_nil
  | cons first rest ih =>
      obtain ⟨before, tail⟩ := List.pairwise_cons.mp ascending
      rcases List.mem_cons.mp hl with rfl | ml <;> rcases List.mem_cons.mp hr with rfl | mr
      · rfl
      · exact absurd same (before right mr).ne
      · exact absurd same (before left ml).ne'
      · exact ih tail ml mr

/-- The part before a key and the part from it on make up the list. -/
theorem Ascending.below_append_atLeast {entries : List (κ × ν)}
    (ascending : Ascending entries) (key : κ)
    : SortedEntries.below key entries ++ SortedEntries.atLeast key entries = entries := by
  refine Ascending.ext ?_ ascending ?_
  · refine (ascending.below key).append (ascending.atLeast key) ?_
    intro earlier before later after
    exact (mem_below.mp before).2.trans_le (mem_atLeast.mp after).2
  · intro entry
    have split := lt_or_ge entry.1 key
    simp only [List.mem_append, mem_below, mem_atLeast]
    tauto

/-- The part up to a key and the part after it make up the list. -/
theorem Ascending.upTo_append_above {entries : List (κ × ν)}
    (ascending : Ascending entries) (key : κ)
    : upTo key entries ++ SortedEntries.above key entries = entries := by
  refine Ascending.ext ?_ ascending ?_
  · refine Ascending.append (ascending.sublist List.filter_sublist) (ascending.above key) ?_
    intro earlier before later after
    exact (mem_upTo.mp before).2.trans_lt (mem_above.mp after).2
  · intro entry
    have split := le_or_gt entry.1 key
    simp only [List.mem_append, mem_upTo, mem_above]
    tauto

/-- A list with no entry at a key is the part before the key and the part after it. -/
theorem Ascending.below_append_above {entries : List (κ × ν)}
    (ascending : Ascending entries) {key : κ} (absent : ∀ entry ∈ entries, entry.1 ≠ key)
    : SortedEntries.below key entries ++ SortedEntries.above key entries = entries := by
  have same : SortedEntries.atLeast key entries = SortedEntries.above key entries := by
    refine List.filter_congr (fun entry member => ?_)
    exact decide_eq_decide.mpr
      ⟨fun h => lt_of_le_of_ne h (absent entry member).symm, le_of_lt⟩
  rw [← same]
  exact ascending.below_append_atLeast key

-----------------------------------------------------------------------------------------
-- Cuts of joined lists
-----------------------------------------------------------------------------------------

@[simp] theorem below_append (key : κ) (left right : List (κ × ν))
    : below key (left ++ right) = below key left ++ below key right :=
  List.filter_append ..

@[simp] theorem above_append (key : κ) (left right : List (κ × ν))
    : above key (left ++ right) = above key left ++ above key right :=
  List.filter_append ..

@[simp] theorem upTo_append (key : κ) (left right : List (κ × ν))
    : upTo key (left ++ right) = upTo key left ++ upTo key right :=
  List.filter_append ..

@[simp] theorem atLeast_append (key : κ) (left right : List (κ × ν))
    : atLeast key (left ++ right) = atLeast key left ++ atLeast key right :=
  List.filter_append ..

/-- Cutting at two keys gives the same part in either order. -/
theorem above_below (low high : κ) (entries : List (κ × ν))
    : above low (below high entries) = below high (above low entries) := by
  simp only [above, below, List.filter_filter, Bool.and_comm]

/-- Of two cuts after a key the later one decides. -/
theorem above_above_of_lt {low high : κ} (ordered : low < high) (entries : List (κ × ν))
    : above high (above low entries) = above high entries := by
  rw [above, above, above, List.filter_filter]
  refine List.filter_congr (fun entry _ => ?_)
  simpa using ordered.trans

/-- A cut after a key drops what an earlier cut would. -/
theorem above_atLeast_of_le {low high : κ} (ordered : low ≤ high)
    (entries : List (κ × ν))
    : above high (atLeast low entries) = above high entries := by
  rw [above, atLeast, above, List.filter_filter]
  refine List.filter_congr (fun entry _ => ?_)
  simpa using fun after : high < entry.1 => ordered.trans after.le

/-- Of two cuts from a key on the later one decides. -/
theorem atLeast_atLeast_of_le {low high : κ} (ordered : low ≤ high) (entries : List (κ × ν))
    : atLeast high (atLeast low entries) = atLeast high entries := by
  rw [atLeast, atLeast, atLeast, List.filter_filter]
  refine List.filter_congr (fun entry _ => ?_)
  simpa using ordered.trans

/-- Of two cuts before a key the earlier one decides. -/
theorem below_below_of_le {low high : κ} (ordered : low ≤ high) (entries : List (κ × ν))
    : below low (below high entries) = below low entries := by
  rw [below, below, below, List.filter_filter]
  refine List.filter_congr (fun entry _ => ?_)
  simpa using fun before : entry.1 < low => before.trans_le ordered

@[simp] theorem below_below_self (key : κ) (entries : List (κ × ν))
    : below key (below key entries) = below key entries :=
  below_below_of_le le_rfl entries

@[simp] theorem below_upTo_self (key : κ) (entries : List (κ × ν))
    : below key (upTo key entries) = below key entries := by
  rw [below, upTo, below, List.filter_filter]
  refine List.filter_congr (fun entry _ => ?_)
  simpa using le_of_lt

/-- A cut up to a key is untouched by a cut before a later key. -/
theorem upTo_below_of_lt {low high : κ} (ordered : low < high) (entries : List (κ × ν))
    : upTo low (below high entries) = upTo low entries := by
  rw [upTo, below, upTo, List.filter_filter]
  refine List.filter_congr (fun entry _ => ?_)
  simpa using fun before : entry.1 ≤ low => before.trans_lt ordered

/-- A list that lies before the key is its own part before the key. -/
theorem below_of_forall {key : κ} {entries : List (κ × ν)}
    (all : ∀ entry ∈ entries, entry.1 < key)
    : below key entries = entries :=
  List.filter_eq_self.mpr (fun entry member => decide_eq_true (all entry member))

/-- A list that lies from the key on has no part before the key. -/
theorem below_eq_nil {key : κ} {entries : List (κ × ν)}
    (none : ∀ entry ∈ entries, key ≤ entry.1)
    : below key entries = [] :=
  List.filter_eq_nil_iff.mpr (fun entry member => by simpa using none entry member)

/-- A list that lies from the key on is its own part from the key on. -/
theorem atLeast_of_forall {key : κ} {entries : List (κ × ν)}
    (all : ∀ entry ∈ entries, key ≤ entry.1)
    : atLeast key entries = entries :=
  List.filter_eq_self.mpr (fun entry member => decide_eq_true (all entry member))

/-- A list that lies before the key has no part from the key on. -/
theorem atLeast_eq_nil {key : κ} {entries : List (κ × ν)}
    (none : ∀ entry ∈ entries, entry.1 < key)
    : atLeast key entries = [] :=
  List.filter_eq_nil_iff.mpr (fun entry member => by simpa using none entry member)

/-- The part before a key is cut in two at an earlier key. -/
theorem Ascending.below_eq_append {entries : List (κ × ν)} (ascending : Ascending entries)
    {low high : κ} (ordered : low ≤ high)
    : SortedEntries.below high entries
      = SortedEntries.below low entries
        ++ SortedEntries.below high (SortedEntries.atLeast low entries) := by
  have early : SortedEntries.below high (SortedEntries.below low entries)
      = SortedEntries.below low entries :=
    below_of_forall (fun _ member => (mem_below.mp member).2.trans_le ordered)
  conv_lhs => rw [← ascending.below_append_atLeast low]
  rw [below_append, early]

/-- A list that lies after the key is its own part after the key. -/
theorem above_of_forall {key : κ} {entries : List (κ × ν)}
    (all : ∀ entry ∈ entries, key < entry.1)
    : above key entries = entries :=
  List.filter_eq_self.mpr (fun entry member => decide_eq_true (all entry member))

/-- A list has no part after the key exactly when it lies up to the key. -/
theorem above_eq_nil_iff {key : κ} {entries : List (κ × ν)}
    : above key entries = [] ↔ ∀ entry ∈ entries, entry.1 ≤ key := by
  simp [above]

theorem above_eq_nil {key : κ} {entries : List (κ × ν)}
    (none : ∀ entry ∈ entries, entry.1 ≤ key)
    : above key entries = [] :=
  above_eq_nil_iff.mpr none

/-- A list has as many entries after the key as in all only if it lies after the key. -/
theorem length_above_eq_iff {key : κ} {entries : List (κ × ν)}
    : (above key entries).length = entries.length ↔ ∀ entry ∈ entries, key < entry.1 := by
  simp [above, List.length_filter_eq_length_iff]

/-- A list that lies after the key has no part up to the key. -/
theorem upTo_eq_nil {key : κ} {entries : List (κ × ν)}
    (none : ∀ entry ∈ entries, key < entry.1)
    : upTo key entries = [] :=
  List.filter_eq_nil_iff.mpr (fun entry member => by simpa using none entry member)

/-- In an ascending list the entries after a stored key are those listed behind it. -/
theorem above_split {front back : List (κ × ν)} {entry : κ × ν}
    (ascending : Ascending (front ++ entry :: back))
    : above entry.1 (front ++ entry :: back) = back := by
  obtain ⟨apart, after⟩ := ascending.around
  have none : above entry.1 front = [] :=
    above_eq_nil (fun earlier member => (apart earlier member).le)
  have self : above entry.1 [entry] = [] := above_eq_nil (by simp)
  rw [above_append, none, List.nil_append, ← List.singleton_append, above_append, self,
    List.nil_append, above_of_forall after]

/-- In an ascending list the entries before a stored key are those listed ahead of it. -/
theorem below_split {front back : List (κ × ν)} {entry : κ × ν}
    (ascending : Ascending (front ++ entry :: back))
    : below entry.1 (front ++ entry :: back) = front := by
  obtain ⟨apart, after⟩ := ascending.around
  have ahead : below entry.1 front = front := below_of_forall apart
  have none : below entry.1 (entry :: back) = [] := by
    refine below_eq_nil (fun later member => ?_)
    rcases List.mem_cons.mp member with rfl | member
    · exact le_rfl
    · exact (after later member).le
  rw [below_append, ahead, none, List.append_nil]

/-- Nothing from a key on lies before it. -/
@[simp] theorem below_atLeast_self (key : κ) (entries : List (κ × ν))
    : below key (atLeast key entries) = [] :=
  below_eq_nil (fun _ member => (mem_atLeast.mp member).2)

/-- No entry lies both before and after a key. -/
theorem length_below_add_above_le (key : κ) (entries : List (κ × ν))
    : (below key entries).length + (above key entries).length ≤ entries.length := by
  have rest : (above key entries).Sublist
      (entries.filter (fun entry => !decide (entry.1 < key))) := by
    refine List.monotone_filter_right entries (fun entry after => ?_)
    have later : key < entry.1 := of_decide_eq_true after
    simpa using later.le
  have parts := List.length_eq_length_filter_add (l := entries) (fun entry => entry.1 < key)
  rw [parts]
  exact Nat.add_le_add_left rest.length_le _

end SortedEntries
