import Contime.Library.BTreeMap
import Contime.Library.PeriodicReplay

/-! What pruning keeps of a log, apart from how it is stored. Every `interval`-th entry has a
mark, pruning cuts at a key, and the entries behind the last cut mark are lost: no longer kept,
but still part of the marks until these are made anew.
-/

open SortedEntries PeriodicReplay

universe u v

/-- The entries that only the marks still cover, and those that are kept. -/
structure Retention (κ : Type u) (ε : Type v) [LinearOrder κ] where
  lost : List (κ × ε)
  kept : BTreeMap κ ε

namespace Retention
variable {κ : Type u} {ε : Type v} [LinearOrder κ]

/-- Nothing was delivered yet. -/
def empty : Retention κ ε := ⟨[], .empty⟩

/-- The entries that the marks are made of. -/
def all (retention : Retention κ ε) : List (κ × ε) := retention.lost ++ retention.kept.entries

/-- A mark lies before the key. -/
def Covers (interval : Nat) (retention : Retention κ ε) (key : κ) : Prop :=
  interval ≤ (below key retention.all).length

instance (interval : Nat) (retention : Retention κ ε) (key : κ)
    : Decidable (retention.Covers interval key) :=
  inferInstanceAs (Decidable (_ ≤ _))

/-- The entries that make up the state before a key, which is read from the last mark before
it if there is one.
-/
def visible (interval : Nat) (retention : Retention κ ε) (key : κ) : List (κ × ε) :=
  below key (if retention.Covers interval key then retention.all else retention.kept.entries)

/-- Keep one more entry, unless its key is kept. Marks behind it are made anew from the last one
before it; where there is none, they are made of the kept entries alone.
-/
def deliver (interval : Nat) (retention : Retention κ ε) (entry : κ × ε) : Retention κ ε :=
  if retention.kept.containsKey entry.1 then retention
  else
    {
      lost := if retention.Covers interval entry.1 then retention.lost else [],
      kept := retention.kept.insert entry.1 entry.2
    }

/-- Drop all entries before a key. Those up to the last mark go into the base, those behind it
are lost; without a mark left nothing covers them.
-/
def prune (interval : Nat) (retention : Retention κ ε) (bound : κ) : Retention κ ε :=
  let uncovered := pending interval (retention.lost ++ below bound retention.kept.entries)
  let kept := (retention.kept.splitOff bound).2
  {
    lost := if interval ≤ (uncovered ++ kept.entries).length then uncovered else [],
    kept
  }

/-- The lost entries lie before the kept ones, too few for a mark of their own, and some mark
covers them.
-/
structure WellFormed (interval : Nat) (retention : Retention κ ε) : Prop where
  ascending : Ascending retention.all
  short : retention.lost.length < interval
  marked : retention.lost ≠ [] → interval ≤ retention.all.length

theorem empty_wellFormed {interval : Nat} (positive : 0 < interval)
    : (empty : Retention κ ε).WellFormed interval where
  ascending := List.Pairwise.nil
  short := positive
  marked none := absurd rfl none

variable {interval : Nat} {retention : Retention κ ε} {key : κ} {entry : κ × ε}

/-- Where a mark lies before the key, so do all lost entries: the mark is a kept one. -/
theorem WellFormed.below_lost (formed : retention.WellFormed interval)
    (covers : retention.Covers interval key)
    : below key retention.lost = retention.lost := by
  refine below_of_forall (fun old member => ?_)
  by_contra behind
  have apart := (List.pairwise_append.mp formed.ascending).2.2 old member
  have none : below key retention.kept.entries = [] :=
    below_eq_nil (fun kept stored => (not_lt.mp behind).trans (apart kept stored).le)
  have few := (List.filter_sublist (l := retention.lost)
    (p := fun entry => decide (entry.1 < key))).length_le
  have short := formed.short
  rw [Covers, all, below_append, none, List.append_nil] at covers
  exact absurd (covers.trans few) (not_le.mpr short)

/-- The fresh entry joins the kept ones. -/
theorem deliver_kept (fresh : entry.1 ∉ retention.kept.keys)
    : (retention.deliver interval entry).kept = retention.kept.insert entry.1 entry.2 := by
  have absent := BTreeMap.containsKey_eq_false.mpr fresh
  rw [deliver, if_neg (by simp [absent])]

theorem deliver_lost (fresh : entry.1 ∉ retention.kept.keys)
    : (retention.deliver interval entry).lost
      = if retention.Covers interval entry.1 then retention.lost else [] := by
  have absent := BTreeMap.containsKey_eq_false.mpr fresh
  rw [deliver, if_neg (by simp [absent])]

theorem deliver_stored (stored : entry.1 ∈ retention.kept.keys)
    : retention.deliver interval entry = retention := by
  rw [deliver, if_pos (BTreeMap.containsKey_iff.mpr stored)]

/-- A delivery keeps the lost entries in front. -/
theorem WellFormed.deliver (formed : retention.WellFormed interval) (entry : κ × ε)
    : (retention.deliver interval entry).WellFormed interval := by
  by_cases stored : entry.1 ∈ retention.kept.keys
  · rwa [deliver_stored stored]
  have kept : (retention.deliver interval entry).kept
      = retention.kept.insert entry.1 entry.2 :=
    deliver_kept stored
  have lost : (retention.deliver interval entry).lost
      = if retention.Covers interval entry.1 then retention.lost else [] :=
    deliver_lost stored
  obtain ⟨ascending, short, marked⟩ := formed
  by_cases covers : retention.Covers interval entry.1
  · rw [if_pos covers] at lost
    have grown : (retention.deliver interval entry).all.Perm (entry :: retention.all) := by
      rw [all, all, lost, kept]
      exact ((retention.kept.insert_perm stored entry.2).append_left _).trans List.perm_middle
    refine ⟨?_, lost ▸ short, fun some => ?_⟩
    · have before : Ascending retention.lost :=
        ascending.sublist (List.sublist_append_left _ _)
      have low := WellFormed.below_lost ⟨ascending, short, marked⟩ covers
      rw [all, lost, kept]
      refine before.append (retention.kept.insert entry.1 entry.2).ascending ?_
      intro old member later inserted
      rcases BTreeMap.mem_insert.mp inserted with rfl | ⟨stored, _⟩
      · rw [← low] at member
        exact (mem_below.mp member).2
      · exact (List.pairwise_append.mp ascending).2.2 old member later stored
    · rw [lost] at some
      rw [grown.length_eq, List.length_cons]
      exact (marked some).trans (Nat.le_succ _)
  · rw [if_neg covers] at lost
    refine ⟨?_, ?_, ?_⟩
    · rw [all, lost, List.nil_append]
      exact (retention.deliver interval entry).kept.ascending
    · rw [lost]
      exact Nat.zero_lt_of_lt short
    · exact fun some => absurd lost some

/-- What pruning puts into the base and what it leaves make up all entries. -/
theorem all_eq_cut (retention : Retention κ ε) (bound : κ)
    : (retention.lost ++ below bound retention.kept.entries)
        ++ atLeast bound retention.kept.entries
      = retention.all := by
  rw [List.append_assoc, retention.kept.ascending.below_append_atLeast bound, all]

/-- Pruning leaves the entries behind the last cut mark in front. -/
theorem WellFormed.prune (formed : retention.WellFormed interval) (bound : κ)
    : (retention.prune interval bound).WellFormed interval := by
  have positive : 0 < interval := Nat.zero_lt_of_lt formed.short
  have ascending := formed.ascending
  rw [← all_eq_cut retention bound] at ascending
  have part : Ascending
      (pending interval (retention.lost ++ below bound retention.kept.entries)
        ++ atLeast bound retention.kept.entries) :=
    ascending.sublist ((List.drop_sublist _ _).append_right _)
  by_cases long
    : interval
      ≤ (pending interval (retention.lost ++ below bound retention.kept.entries)
          ++ atLeast bound retention.kept.entries).length
  · have lost : (retention.prune interval bound).lost
        = pending interval (retention.lost ++ below bound retention.kept.entries) := if_pos long
    have whole : (retention.prune interval bound).all
        = pending interval (retention.lost ++ below bound retention.kept.entries)
          ++ atLeast bound retention.kept.entries := congrArg (· ++ _) lost
    refine ⟨whole ▸ part, ?_, fun _ => whole ▸ long⟩
    rw [lost, length_pending]
    exact Nat.mod_lt _ positive
  · have lost : (retention.prune interval bound).lost = [] := if_neg long
    refine ⟨?_, ?_, fun some => absurd lost some⟩
    · rw [all, lost]
      exact (retention.prune interval bound).kept.ascending
    · rw [lost]
      exact positive

-- What a delivery makes visible

/-- An earlier key is covered where a later one is not only if no mark lies before either. -/
theorem not_covers_of_le {low high : κ} (ordered : low ≤ high)
    (uncovered : ¬ retention.Covers interval high)
    : ¬ retention.Covers interval low := by
  have fewer : (below low retention.all).length ≤ (below high retention.all).length := by
    rw [← below_below_of_le ordered]
    exact List.filter_sublist.length_le
  exact fun covers => uncovered (Nat.le_trans covers fewer)

/-- Where a mark lies before it, a delivery leaves the entries before it alone. -/
theorem below_all_deliver_of_covers (fresh : entry.1 ∉ retention.kept.keys)
    (covers : retention.Covers interval entry.1)
    : below entry.1 (retention.deliver interval entry).all = below entry.1 retention.all := by
  rw [all, all, deliver_lost fresh, if_pos covers, deliver_kept fresh, below_append,
    below_append, retention.kept.below_insert_of_le le_rfl]

/-- Where no mark lies before it, none does after the delivery. -/
theorem below_all_deliver_lt (fresh : entry.1 ∉ retention.kept.keys)
    (uncovered : ¬ retention.Covers interval entry.1)
    : (below entry.1 (retention.deliver interval entry).all).length < interval := by
  rw [all, deliver_lost fresh, if_neg uncovered, deliver_kept fresh, List.nil_append,
    retention.kept.below_insert_of_le le_rfl]
  refine lt_of_le_of_lt ?_ (Nat.not_le.mp uncovered)
  rw [all, below_append]
  exact (List.sublist_append_right _ _).length_le

/-- A delivery at or behind a key is not visible at it. -/
theorem visible_deliver_of_le (fresh : entry.1 ∉ retention.kept.keys) (behind : key ≤ entry.1)
    : (retention.deliver interval entry).visible interval key
      = retention.visible interval key := by
  have kept : (retention.deliver interval entry).kept
      = retention.kept.insert entry.1 entry.2 :=
    deliver_kept fresh
  have lost : (retention.deliver interval entry).lost
      = if retention.Covers interval entry.1 then retention.lost else [] :=
    deliver_lost fresh
  have same : below key (retention.kept.insert entry.1 entry.2).entries
      = below key retention.kept.entries :=
    retention.kept.below_insert_of_le behind entry.2
  by_cases covers : retention.Covers interval entry.1
  · rw [if_pos covers] at lost
    have whole : below key (retention.deliver interval entry).all = below key retention.all := by
      rw [all, all, lost, kept, below_append, below_append, same]
    have covers_iff : (retention.deliver interval entry).Covers interval key
        ↔ retention.Covers interval key := by
      rw [Covers, Covers, whole]
    by_cases here : retention.Covers interval key
    · rw [visible, visible, if_pos here, if_pos (covers_iff.mpr here), whole]
    · rw [visible, visible, if_neg here, if_neg (covers_iff.not.mpr here), kept, same]
  · rw [if_neg covers] at lost
    have here := not_covers_of_le behind covers
    have all : (retention.deliver interval entry).all
        = (retention.deliver interval entry).kept.entries := by
      rw [all, lost, List.nil_append]
    rw [visible, visible, if_neg here, all, ite_self, kept, same]

/-- Behind a mark a delivery joins what is visible, before any mark the kept entries. -/
theorem visible_deliver_of_lt
    (fresh : entry.1 ∉ retention.kept.keys) (before : entry.1 < key)
    : ((retention.deliver interval entry).visible interval key).Perm
        (entry
          :: if retention.Covers interval entry.1 then retention.visible interval key
            else below key retention.kept.entries) := by
  have kept : (retention.deliver interval entry).kept
      = retention.kept.insert entry.1 entry.2 :=
    deliver_kept fresh
  have lost : (retention.deliver interval entry).lost
      = if retention.Covers interval entry.1 then retention.lost else [] :=
    deliver_lost fresh
  have joined : (below key (retention.kept.insert entry.1 entry.2).entries).Perm
      (entry :: below key retention.kept.entries) := by
    have perm := (retention.kept.insert_perm fresh entry.2).filter
      (fun other => decide (other.1 < key))
    rwa [List.filter_cons_of_pos (by simpa using before)] at perm
  by_cases covers : retention.Covers interval entry.1
  · rw [if_pos covers] at lost ⊢
    have later : retention.Covers interval key := by
      by_contra uncovered
      exact not_covers_of_le before.le uncovered covers
    have whole : (below key (retention.deliver interval entry).all).Perm
        (entry :: below key retention.all) := by
      rw [all, all, lost, kept, below_append, below_append]
      exact (joined.append_left _).trans List.perm_middle
    have still : (retention.deliver interval entry).Covers interval key := by
      rw [Covers, whole.length_eq, List.length_cons]
      exact Nat.le_trans later (Nat.le_succ _)
    rw [visible, visible, if_pos later, if_pos still]
    exact whole
  · rw [if_neg covers] at lost ⊢
    have all : (retention.deliver interval entry).all
        = (retention.deliver interval entry).kept.entries := by
      rw [all, lost, List.nil_append]
    rw [visible, all, ite_self, kept]
    exact joined

/-- The only lost entry is restored by its delivery. -/
theorem deliver_sole (formed : retention.WellFormed interval) (sole : retention.lost = [entry])
    : entry.1 ∉ retention.kept.keys
      ∧ (retention.deliver interval entry).lost = []
      ∧ (retention.deliver interval entry).kept.entries = retention.all := by
  have apart := (List.pairwise_append.mp formed.ascending).2.2 entry (by simp [sole])
  have fresh : entry.1 ∉ retention.kept.keys := by
    intro stored
    obtain ⟨value, member⟩ := BTreeMap.mem_keys.mp stored
    exact (apart _ member).false
  have uncovered : ¬ retention.Covers interval entry.1 := by
    intro covers
    have low := formed.below_lost covers
    have own : entry ∈ retention.lost := by simp [sole]
    rw [← low] at own
    exact (mem_below.mp own).2.false
  have below : below entry.1 retention.kept.entries = [] :=
    below_eq_nil (fun other member => (apart other member).le)
  have above : above entry.1 retention.kept.entries = retention.kept.entries :=
    above_of_forall apart
  refine ⟨fresh, ?_, ?_⟩
  · rw [deliver_lost fresh, if_neg uncovered]
  · rw [deliver_kept fresh, BTreeMap.insert_entries, below, above, all, sole]
    rfl

/-- A delivery that no weight of the visible entries shows has restored the only lost entry,
where a mark still covers it.
-/
theorem sole_of_same_weights (formed : retention.WellFormed interval)
    (fresh : entry.1 ∉ retention.kept.keys) (before : entry.1 < key)
    (same
      : ∀ weight : ε → Nat,
        (((retention.deliver interval entry).visible interval key).map
            (fun other => weight other.2)).sum
          = ((retention.visible interval key).map (fun other => weight other.2)).sum)
    : retention.Covers interval key ∧ ∃ old, retention.lost = [(old, entry.2)] := by
  have joined : ((retention.deliver interval entry).visible interval key).Perm
      (entry
        :: if retention.Covers interval entry.1 then retention.visible interval key
          else below key retention.kept.entries) :=
    visible_deliver_of_lt fresh before
  have grown (weight : ε → Nat)
      : weight entry.2
          + ((if retention.Covers interval entry.1 then retention.visible interval key
              else below key retention.kept.entries).map (fun other => weight other.2)).sum
        = ((retention.visible interval key).map (fun other => weight other.2)).sum := by
    have sums := (joined.map (fun other => weight other.2)).sum_nat
    rw [List.map_cons, List.sum_cons] at sums
    exact sums.symm.trans (same weight)
  have counted := grown (fun _ => 1)
  by_cases covers : retention.Covers interval entry.1
  · simp only [if_pos covers] at counted
    omega
  simp only [if_neg covers] at grown counted
  by_cases here : retention.Covers interval key
  · have whole : retention.visible interval key
        = retention.lost ++ below key retention.kept.entries := by
      rw [visible, if_pos here, all, below_append, formed.below_lost here]
    rw [whole] at grown counted
    simp only [List.map_append, List.sum_append, List.map_const', List.sum_replicate_nat,
      Nat.mul_one] at counted
    obtain ⟨old, sole⟩ := List.length_eq_one_iff.mp (by omega : retention.lost.length = 1)
    classical
    have own := grown (fun other => if other = entry.2 then 1 else 0)
    rw [sole] at own
    simp only [List.map_append, List.sum_append, List.map_cons, List.map_nil, List.sum_cons,
      List.sum_nil, if_true] at own
    have value : old.2 = entry.2 := by
      by_contra differ
      rw [if_neg differ] at own
      omega
    exact ⟨here, old.1, sole.trans (by rw [← value])⟩
  · rw [visible, if_neg here] at counted
    omega

end Retention
