import Contime.Library.AnchoredReplay
import Contime.Library.BTreeMap

/-! A log with states fixed by authority, apart from how it is stored. Entries count from the
last anchor before them, a late entry removes the anchors from its key on, and pruning cuts at a
key: the entries behind the last mark before it are lost, but part of the marks before the first
anchor until these are made anew.
-/

open SortedEntries PeriodicReplay AnchoredReplay

universe u v w

/-- A base state, the entries that only marks still cover, the kept ones, and the anchors. -/
structure Chronicle (κ : Type u) (ε : Type v) (σ : Type w) [LinearOrder κ] where
  base : σ
  lost : List (κ × ε)
  kept : BTreeMap κ ε
  anchors : BTreeMap κ σ

namespace Chronicle
variable {κ : Type u} {ε : Type v} {σ : Type w} [LinearOrder κ]

/-- Nothing was delivered yet. -/
def new (base : σ) : Chronicle κ ε σ where
  base := base
  lost := []
  kept := .empty
  anchors := .empty

/-- The entries that the marks are made of. -/
def all (chronicle : Chronicle κ ε σ) : List (κ × ε) := chronicle.lost ++ chronicle.kept.entries

/-- The anchors and, between them, the mark of every `interval`-th entry. -/
def marked (step : σ → ε → σ) (interval : Nat) (chronicle : Chronicle κ ε σ) : List (κ × σ) :=
  layout step interval chronicle.base chronicle.anchors.entries chronicle.all

/-- A mark lies before the key and before all anchors. -/
def Covers (interval : Nat) (chronicle : Chronicle κ ε σ) (key : κ) : Prop :=
  interval ≤ (below key (leading chronicle.anchors.entries chronicle.all)).length

instance (interval : Nat) (chronicle : Chronicle κ ε σ) (key : κ)
    : Decidable (chronicle.Covers interval key) :=
  inferInstanceAs (Decidable (_ ≤ _))

/-- The lost entries that stay covered when the marks from a key on are made anew. -/
def covered (interval : Nat) (chronicle : Chronicle κ ε σ) (key : κ) : List (κ × ε) :=
  if chronicle.Covers interval key then chronicle.lost else []

/-- The anchors after a new entry. Before a later entry it removes those from its key on. As the
last entry it removes none, but anchors its own key to the state of the last one if that lies
behind it.
-/
def anchorsWith (chronicle : Chronicle κ ε σ) (key : κ) : BTreeMap κ σ :=
  if (above key chronicle.kept.entries).isEmpty then
    match chronicle.anchors.entries.getLast? with
    | some last => if key ≤ last.1 then chronicle.anchors.insert key last.2 else chronicle.anchors
    | none => chronicle.anchors
  else
    (chronicle.anchors.splitOff key).1

/-- Keep one more entry, unless its key is kept. -/
def deliver (interval : Nat) (chronicle : Chronicle κ ε σ) (entry : κ × ε) : Chronicle κ ε σ :=
  if chronicle.kept.containsKey entry.1 then chronicle
  else
    {
      chronicle with
      lost := chronicle.covered interval entry.1,
      kept := chronicle.kept.insert entry.1 entry.2,
      anchors := chronicle.anchorsWith entry.1
    }

/-- Fix the state at a key, in place of the anchors from it on. -/
def authorize (interval : Nat) (chronicle : Chronicle κ ε σ) (key : κ) (state : σ)
    : Chronicle κ ε σ :=
  {
    chronicle with
    lost := chronicle.covered interval key,
    anchors := (chronicle.anchors.splitOff key).1.insert key state
  }

/-- Drop all entries and anchors before a key. The base moves to the last mark or anchor before
it, and the entries behind that are lost; where no mark is left they are forgotten.
-/
def prune (step : σ → ε → σ) (interval : Nat) (chronicle : Chronicle κ ε σ) (bound : κ)
    : Chronicle κ ε σ :=
  let gone := chronicle.lost ++ below bound chronicle.kept.entries
  let origin := resume (below bound (chronicle.marked step interval)) chronicle.base gone
  let kept := (chronicle.kept.splitOff bound).2
  let anchors := (chronicle.anchors.splitOff bound).2
  {
    base := origin.1,
    lost :=
      if interval ≤ (leading anchors.entries (origin.2 ++ kept.entries)).length then origin.2
      else [],
    kept,
    anchors
  }

/-- The state and the entries that make up the state before a key: the last anchor before it with
the kept entries between the two, or the base with all earlier entries, the lost ones among them
if a mark before the key covers them.
-/
def visible (interval : Nat) (chronicle : Chronicle κ ε σ) (key : κ) : σ × List (κ × ε) :=
  match (below key chronicle.anchors.entries).getLast? with
  | some anchor => (anchor.2, below key (above anchor.1 chronicle.kept.entries))
  | none => (chronicle.base, below key (chronicle.covered interval key ++ chronicle.kept.entries))

/-- The lost entries lie before the kept ones and the anchors, too few for a mark of their own,
and some mark covers them.
-/
structure WellFormed (interval : Nat) (chronicle : Chronicle κ ε σ) : Prop where
  ascending : Ascending chronicle.all
  short : chronicle.lost.length < interval
  before : ∀ entry ∈ chronicle.lost, ∀ anchor ∈ chronicle.anchors.entries, entry.1 < anchor.1
  marked
    : chronicle.lost ≠ [] → interval ≤ (leading chronicle.anchors.entries chronicle.all).length

theorem new_wellFormed {interval : Nat} (positive : 0 < interval) (base : σ)
    : (new base : Chronicle κ ε σ).WellFormed interval where
  ascending := List.Pairwise.nil
  short := positive
  before _ member := absurd member List.not_mem_nil
  marked none := absurd rfl none

variable {step : σ → ε → σ} {interval : Nat} {chronicle : Chronicle κ ε σ} {key bound : κ}
  {entry : κ × ε} {state : σ}

theorem deliver_stored (stored : entry.1 ∈ chronicle.kept.keys)
    : chronicle.deliver interval entry = chronicle := by
  rw [deliver, if_pos (BTreeMap.containsKey_iff.mpr stored)]

/-- All that the delivery of a fresh entry does. -/
theorem deliver_fresh (fresh : entry.1 ∉ chronicle.kept.keys)
    : chronicle.deliver interval entry
      = {
        chronicle with
        lost := chronicle.covered interval entry.1,
        kept := chronicle.kept.insert entry.1 entry.2,
        anchors := chronicle.anchorsWith entry.1
      } := by
  have absent := BTreeMap.containsKey_eq_false.mpr fresh
  rw [deliver, if_neg (by simp [absent])]

/-- Only lost entries stay covered. -/
theorem mem_covered (member : entry ∈ chronicle.covered interval key)
    : entry ∈ chronicle.lost ∧ chronicle.Covers interval key := by
  unfold covered at member
  split at member
  next covers => exact ⟨member, covers⟩
  next => cases member

/-- Where a mark lies before the key, so do all lost entries: the mark is a kept one. -/
theorem WellFormed.lost_lt (formed : chronicle.WellFormed interval)
    (covers : chronicle.Covers interval key)
    : ∀ entry ∈ chronicle.lost, entry.1 < key := by
  intro old member
  by_contra behind
  have apart := (List.pairwise_append.mp formed.ascending).2.2 old member
  have none : below key chronicle.kept.entries = [] :=
    below_eq_nil (fun kept stored => (not_lt.mp behind).trans (apart kept stored).le)
  have few : (below key chronicle.all).length ≤ chronicle.lost.length := by
    rw [all, below_append, none, List.append_nil]
    exact List.filter_sublist.length_le
  have fewer : (below key (leading chronicle.anchors.entries chronicle.all)).length
      ≤ (below key chronicle.all).length :=
    (leading_sublist.filter _).length_le
  have short := formed.short
  exact absurd (Nat.le_trans covers (fewer.trans few)) (not_le.mpr short)

/-- All entries lie before a key that the kept ones lie before, as some kept one lies behind the
lost ones.
-/
theorem WellFormed.all_lt (formed : chronicle.WellFormed interval)
    (kept : ∀ entry ∈ chronicle.kept.entries, entry.1 < key)
    : ∀ entry ∈ chronicle.all, entry.1 < key := by
  intro entry member
  rcases List.mem_append.mp member with old | stored
  · have many := formed.marked (List.ne_nil_of_mem old)
    have bound : (leading chronicle.anchors.entries chronicle.all).length
        ≤ chronicle.lost.length + chronicle.kept.entries.length := by
      rw [← List.length_append]
      exact leading_sublist.length_le
    have short := formed.short
    obtain ⟨later, found⟩ := List.exists_mem_of_length_pos
      (show 0 < chronicle.kept.entries.length by omega)
    exact ((List.pairwise_append.mp formed.ascending).2.2 entry old later found).trans
      (kept later found)
  · exact kept entry stored

/-- Making the marks anew from a key on, over more entries from it on and other anchors from it
on, leaves a well-formed chronicle.
-/
theorem WellFormed.renew (formed : chronicle.WellFormed interval) {kept : BTreeMap κ ε}
    {anchors : BTreeMap κ σ} (grown : chronicle.kept.entries.Sublist kept.entries)
    (newer : ∀ entry ∈ kept.entries, entry ∈ chronicle.kept.entries ∨ key ≤ entry.1)
    (behind : ∀ anchor ∈ anchors.entries, anchor ∈ chronicle.anchors.entries ∨ key ≤ anchor.1)
    : WellFormed interval
        { chronicle with lost := chronicle.covered interval key, kept, anchors } := by
  by_cases covers : chronicle.Covers interval key
  · have low := formed.lost_lt covers
    have lost : chronicle.covered interval key = chronicle.lost := if_pos covers
    have sub : chronicle.all.Sublist (chronicle.lost ++ kept.entries) :=
      (List.Sublist.refl _).append grown
    rw [lost]
    refine ⟨?_, formed.short, ?_, ?_⟩
    · have parts := List.pairwise_append.mp formed.ascending
      refine Ascending.append parts.1 kept.ascending (fun old member entry stored => ?_)
      rcases newer entry stored with present | later
      · exact parts.2.2 old member entry present
      · exact (low old member).trans_le later
    · intro old member anchor present
      rcases behind anchor present with known | later
      · exact formed.before old member anchor known
      · exact (low old member).trans_le later
    · intro _
      exact Nat.le_trans covers (below_leading_sublist sub behind).length_le
  · have lost : chronicle.covered interval key = [] := if_neg covers
    rw [lost]
    refine ⟨kept.ascending, Nat.zero_lt_of_lt formed.short, ?_, fun some => absurd rfl some⟩
    exact fun _ member => absurd member List.not_mem_nil

/-- New anchors lie at the key, all others were there before. -/
theorem mem_anchorsWith {anchor : κ × σ}
    (member : anchor ∈ (chronicle.anchorsWith key).entries)
    : anchor ∈ chronicle.anchors.entries ∨ key ≤ anchor.1 := by
  unfold anchorsWith at member
  split at member
  · split at member
    next =>
      split at member
      · rcases BTreeMap.mem_insert.mp member with rfl | ⟨known, _⟩
        · exact Or.inr le_rfl
        · exact Or.inl known
      · exact Or.inl member
    next => exact Or.inl member
  · exact Or.inl (mem_below.mp member).1

/-- Marks are few: one for each anchor, and one for each interval of entries. -/
theorem WellFormed.length_marked_lt (formed : chronicle.WellFormed interval) (step : σ → ε → σ)
    : interval * (chronicle.marked step interval).length
      < chronicle.kept.entries.length + interval * (1 + chronicle.anchors.entries.length) := by
  have most : interval * (chronicle.marked step interval).length
      ≤ interval * chronicle.anchors.entries.length + chronicle.all.length :=
    length_layout_le step interval chronicle.base chronicle.anchors.entries chronicle.all
  have short := formed.short
  rw [all, List.length_append] at most
  rw [Nat.mul_add, Nat.mul_one]
  omega

theorem WellFormed.deliver (formed : chronicle.WellFormed interval) (entry : κ × ε)
    : (chronicle.deliver interval entry).WellFormed interval := by
  by_cases stored : entry.1 ∈ chronicle.kept.keys
  · rwa [deliver_stored stored]
  rw [deliver_fresh stored]
  refine formed.renew (BTreeMap.sublist_insert stored _) (fun other member => ?_)
    (fun anchor member => mem_anchorsWith member)
  rcases BTreeMap.mem_insert.mp member with rfl | ⟨known, _⟩
  · exact Or.inr le_rfl
  · exact Or.inl known

theorem WellFormed.authorize (formed : chronicle.WellFormed interval) (key : κ) (state : σ)
    : (chronicle.authorize interval key state).WellFormed interval := by
  refine formed.renew (.refl _) (fun _ member => Or.inl member) (fun anchor member => ?_)
  rcases BTreeMap.mem_insert.mp member with rfl | ⟨known, _⟩
  · exact Or.inr le_rfl
  · exact Or.inl (mem_below.mp known).1

/-- What a cut removes and what it keeps make up all entries. -/
theorem all_eq_cut (chronicle : Chronicle κ ε σ) (bound : κ)
    : (chronicle.lost ++ below bound chronicle.kept.entries)
        ++ atLeast bound chronicle.kept.entries
      = chronicle.all := by
  rw [List.append_assoc, chronicle.kept.ascending.below_append_atLeast bound, all]

/-- Too few entries for a mark lie behind the last mark before a cut. -/
theorem WellFormed.gone_short (formed : chronicle.WellFormed interval) (step : σ → ε → σ)
    (bound : κ)
    : (resume (below bound (chronicle.marked step interval)) chronicle.base
        (chronicle.lost ++ below bound chronicle.kept.entries)).2.length
      < interval := by
  have positive : 0 < interval := Nat.zero_lt_of_lt formed.short
  by_cases low : ∀ entry ∈ chronicle.lost, entry.1 < bound
  · have cut : chronicle.lost ++ below bound chronicle.kept.entries
        = below bound chronicle.all := by
      rw [all, below_append, below_of_forall low]
    rw [cut, resume_below]
    exact resume_layout_short positive chronicle.base bound chronicle.anchors.ascending
      formed.ascending
  · push Not at low
    obtain ⟨old, member, behind⟩ := low
    have apart := (List.pairwise_append.mp formed.ascending).2.2 old member
    have none : below bound chronicle.kept.entries = [] :=
      below_eq_nil (fun entry stored => behind.trans (apart entry stored).le)
    rw [none, List.append_nil]
    exact (resume_sublist _ _ _).length_le.trans_lt formed.short

/-- What a cut loses lies before the anchors from the cut on. -/
theorem WellFormed.gone_before (formed : chronicle.WellFormed interval)
    (member : entry ∈ chronicle.lost ++ below bound chronicle.kept.entries)
    : ∀ anchor ∈ atLeast bound chronicle.anchors.entries, entry.1 < anchor.1 := by
  intro anchor present
  obtain ⟨known, late⟩ := mem_atLeast.mp present
  rcases List.mem_append.mp member with old | dropped
  · exact formed.before entry old anchor known
  · exact (mem_below.mp dropped).2.trans_le late

theorem WellFormed.prune (formed : chronicle.WellFormed interval) (bound : κ)
    : (chronicle.prune step interval bound).WellFormed interval := by
  have positive : 0 < interval := Nat.zero_lt_of_lt formed.short
  have short := formed.gone_short step bound
  have sub := resume_sublist (below bound (chronicle.marked step interval)) chronicle.base
    (chronicle.lost ++ below bound chronicle.kept.entries)
  have whole := formed.ascending
  rw [← all_eq_cut chronicle bound] at whole
  unfold Chronicle.prune
  dsimp only
  generalize (resume (below bound (chronicle.marked step interval)) chronicle.base
    (chronicle.lost ++ below bound chronicle.kept.entries)) = origin at short sub ⊢
  split
  next many =>
    refine ⟨whole.sublist (sub.append_right _), short, ?_, fun _ => many⟩
    exact fun entry member => formed.gone_before (sub.subset member)
  next =>
    refine ⟨(chronicle.kept.splitOff bound).2.ascending, positive, ?_,
      fun some => absurd rfl some⟩
    exact fun _ member => absurd member List.not_mem_nil

-----------------------------------------------------------------------------------------
-- The marks after each change
-----------------------------------------------------------------------------------------

/-- Every mark is an anchor or lies at a kept entry. -/
theorem WellFormed.mem_marked (formed : chronicle.WellFormed interval) {mark : κ × σ}
    (member : mark ∈ chronicle.marked step interval)
    : mark ∈ chronicle.anchors.entries ∨ ∃ entry ∈ chronicle.kept.entries, entry.1 = mark.1 :=
  mem_layout_append formed.short formed.before member

/-- Every mark lies behind all lost entries. -/
theorem WellFormed.lost_before (formed : chronicle.WellFormed interval) {mark : κ × σ}
    (member : mark ∈ chronicle.marked step interval)
    : ∀ entry ∈ chronicle.lost, entry.1 < mark.1 := by
  intro old lost
  rcases formed.mem_marked member with anchor | ⟨entry, kept, same⟩
  · exact formed.before old lost mark anchor
  · exact same ▸ (List.pairwise_append.mp formed.ascending).2.2 old lost entry kept

/-- Before a key lie the marks of the kept entries and of the lost ones that stay covered. -/
theorem WellFormed.below_marked (formed : chronicle.WellFormed interval)
    : below key (chronicle.marked step interval)
      = layout step interval chronicle.base (below key chronicle.anchors.entries)
          (below key (chronicle.covered interval key ++ chronicle.kept.entries)) := by
  rw [Chronicle.marked, below_layout _ _ chronicle.anchors.ascending formed.ascending]
  by_cases covers : chronicle.Covers interval key
  · rw [covered, if_pos covers, all]
  · have few : (leading (below key chronicle.anchors.entries)
        (below key chronicle.lost ++ below key chronicle.kept.entries)).length < interval := by
      rw [← below_append, leading_below]
      exact Nat.not_le.mp covers
    rw [covered, if_neg covers, List.nil_append, all, below_append]
    refine layout_forget (chronicle.anchors.ascending.below key) (fun old lost anchor member => ?_)
      few
    exact formed.before old (mem_below.mp lost).1 anchor (mem_below.mp member).1

/-- Where a mark lies before a key, some mark is found before it. -/
theorem WellFormed.below_marked_ne_nil (formed : chronicle.WellFormed interval)
    (covers : chronicle.Covers interval key)
    : below key (chronicle.marked step interval) ≠ [] := by
  rw [formed.below_marked, covered, if_pos covers]
  refine layout_ne_nil (Nat.zero_lt_of_lt formed.short) (chronicle.anchors.ascending.below key) ?_
  have many : interval ≤ (below key (leading chronicle.anchors.entries chronicle.all)).length :=
    covers
  rwa [← leading_below] at many

/-- A replay behind the marks before a key does not notice the lost entries. -/
theorem WellFormed.resume_covered (formed : chronicle.WellFormed interval) (step : σ → ε → σ)
    (key : κ) (entries : List (κ × ε))
    : resume (below key (chronicle.marked step interval)) chronicle.base
        (chronicle.covered interval key ++ entries)
      = resume (below key (chronicle.marked step interval)) chronicle.base entries := by
  by_cases covers : chronicle.Covers interval key
  · refine resume_forget (formed.below_marked_ne_nil covers) (fun mark member old lost => ?_)
    exact formed.lost_before (mem_below.mp member).1 old (mem_covered lost).1
  · rw [covered, if_neg covers, List.nil_append]

/-- Over more entries from a key on, the marks from the key on are made anew behind those before
it.
-/
theorem WellFormed.renew_marked (formed : chronicle.WellFormed interval) {kept : BTreeMap κ ε}
    (grown : chronicle.kept.entries.Sublist kept.entries)
    (newer : ∀ entry ∈ kept.entries, entry ∈ chronicle.kept.entries ∨ key ≤ entry.1)
    (same : below key kept.entries = below key chronicle.kept.entries)
    : let front := below key (chronicle.marked step interval)
      let origin := resume front chronicle.base kept.entries
      layout step interval chronicle.base (below key chronicle.anchors.entries)
          (chronicle.covered interval key ++ kept.entries)
        = front ++ marks step interval 0 origin.1 origin.2 := by
  intro front origin
  have positive : 0 < interval := Nat.zero_lt_of_lt formed.short
  have ascending : Ascending (chronicle.covered interval key ++ kept.entries) := by
    have next := formed.renew grown newer (fun _ member => Or.inl member)
    exact next.ascending
  have kept_front
      : below key
          (layout step interval chronicle.base (below key chronicle.anchors.entries)
            (chronicle.covered interval key ++ kept.entries))
        = front := by
    rw [below_layout _ _ (chronicle.anchors.ascending.below key) ascending,
      below_below_self, below_append, same, ← below_append, ← formed.below_marked]
  have picked : resume front chronicle.base (chronicle.covered interval key ++ kept.entries)
      = origin :=
    formed.resume_covered step key kept.entries
  have rebuilt
      : _ = layout step interval chronicle.base (below key chronicle.anchors.entries)
          (chronicle.covered interval key ++ kept.entries) :=
    layout_rebuild positive chronicle.base (chronicle.anchors.ascending.below key) ascending
      (fun anchor member => (mem_below.mp member).2)
  rw [kept_front, picked] at rebuilt
  exact rebuilt.symm

/-- A state fixed at a key stands between the marks before the key and those behind it. -/
theorem WellFormed.fix_marked (formed : chronicle.WellFormed interval) {kept : BTreeMap κ ε}
    (same : below key kept.entries = below key chronicle.kept.entries) (later : List (κ × σ))
    : layout step interval chronicle.base
        (below key chronicle.anchors.entries ++ (key, state) :: later)
        (chronicle.covered interval key ++ kept.entries)
      = below key (chronicle.marked step interval)
        ++ (key, state) :: layout step interval state later (above key kept.entries) := by
  have none : above key (chronicle.covered interval key) = [] := by
    refine above_eq_nil (fun old lost => ?_)
    exact (formed.lost_lt (mem_covered lost).2 old (mem_covered lost).1).le
  have front : ∀ anchor ∈ below key chronicle.anchors.entries, anchor.1 < (key, state).1 :=
    fun anchor member => (mem_below.mp member).2
  rw [layout_append_anchor front, below_append, above_append, same, none, List.nil_append,
    ← below_append, ← formed.below_marked]

/-- A fresh entry makes the marks anew from its key on, unless it is the last entry and some
anchor lies at its key or behind.
-/
theorem WellFormed.deliver_marked (formed : chronicle.WellFormed interval)
    (fresh : entry.1 ∉ chronicle.kept.keys)
    (tight
      : above entry.1 chronicle.kept.entries = []
        → ∀ anchor ∈ chronicle.anchors.entries, anchor.1 < entry.1)
    : let next := chronicle.deliver interval entry
      let front := below entry.1 (chronicle.marked step interval)
      let origin := resume front chronicle.base next.kept.entries
      next.marked step interval = front ++ marks step interval 0 origin.1 origin.2 := by
  have anchors : (chronicle.anchorsWith entry.1).entries
      = below entry.1 chronicle.anchors.entries := by
    by_cases latest : above entry.1 chronicle.kept.entries = []
    · have low := tight latest
      rw [anchorsWith, if_pos (by simp [latest]), below_of_forall low]
      cases last : chronicle.anchors.entries.getLast? with
      | none => rfl
      | some anchor =>
          have behind : ¬ entry.1 ≤ anchor.1 :=
            not_le.mpr (low anchor (List.mem_of_getLast? last))
          simp only [if_neg behind]
    · rw [anchorsWith, if_neg (by simpa using latest)]
      rfl
  rw [deliver_fresh fresh]
  dsimp only
  rw [Chronicle.marked, anchors]
  refine formed.renew_marked (BTreeMap.sublist_insert fresh _) (fun other member => ?_)
    (chronicle.kept.below_insert_of_le le_rfl entry.2)
  rcases BTreeMap.mem_insert.mp member with rfl | ⟨known, _⟩
  · exact Or.inr le_rfl
  · exact Or.inl known

/-- A fresh last entry before the last anchor takes the state of that anchor. -/
theorem WellFormed.deliver_marked_behind (formed : chronicle.WellFormed interval)
    (fresh : entry.1 ∉ chronicle.kept.keys) (latest : above entry.1 chronicle.kept.entries = [])
    {last : κ × σ} (found : chronicle.anchors.entries.getLast? = some last)
    (behind : entry.1 ≤ last.1)
    : (chronicle.deliver interval entry).marked step interval
      = below entry.1 (chronicle.marked step interval)
        ++ (entry.1, last.2) :: above entry.1 (chronicle.marked step interval) := by
  have anchors : chronicle.anchorsWith entry.1 = chronicle.anchors.insert entry.1 last.2 := by
    rw [anchorsWith, if_pos (by simp [latest]), found]
    exact if_pos behind
  have none : above entry.1 (chronicle.kept.insert entry.1 entry.2).entries = [] := by
    refine above_eq_nil (fun other member => ?_)
    rcases BTreeMap.mem_insert.mp member with rfl | ⟨known, _⟩
    · exact le_rfl
    · exact above_eq_nil_iff.mp latest other known
  have later : above entry.1 (chronicle.marked step interval)
      = above entry.1 chronicle.anchors.entries := by
    have whole : Ascending (chronicle.marked step interval) :=
      layout_ascending _ chronicle.anchors.ascending formed.ascending
    refine (whole.above entry.1).ext (chronicle.anchors.ascending.above entry.1) (fun mark => ?_)
    simp only [mem_above]
    refine and_congr_left (fun late => ⟨fun member => ?_, mem_layout_of_anchor⟩)
    refine (formed.mem_marked member).resolve_right (fun stored => ?_)
    obtain ⟨other, known, same⟩ := stored
    exact (same ▸ above_eq_nil_iff.mp latest other known).not_gt late
  rw [deliver_fresh fresh, Chronicle.marked, anchors, later]
  refine (formed.fix_marked (chronicle.kept.below_insert_of_le le_rfl entry.2) _).trans ?_
  rw [none, layout_no_entries]

/-- An authorized state replaces the marks from its key on. -/
theorem WellFormed.authorize_marked (formed : chronicle.WellFormed interval) (key : κ)
    (state : σ)
    : (chronicle.authorize interval key state).marked step interval
      = below key (chronicle.marked step interval)
        ++ (key, state) :: marks step interval 0 state (above key chronicle.kept.entries) := by
  have anchors : (chronicle.authorize interval key state).anchors.entries
      = below key chronicle.anchors.entries ++ [(key, state)] := by
    have none : above key (below key chronicle.anchors.entries) = [] :=
      above_eq_nil (fun anchor member => (mem_below.mp member).2.le)
    simp [Chronicle.authorize, BTreeMap.splitOff, none]
  rw [Chronicle.marked, anchors]
  exact formed.fix_marked rfl []

/-- A cut keeps the marks from its key on. -/
theorem WellFormed.prune_marked (formed : chronicle.WellFormed interval) (bound : κ)
    : (chronicle.prune step interval bound).marked step interval
      = atLeast bound (chronicle.marked step interval) := by
  have positive : 0 < interval := Nat.zero_lt_of_lt formed.short
  have cut : atLeast bound (chronicle.marked step interval) = _ :=
    atLeast_layout positive chronicle.base bound chronicle.anchors.ascending formed.ascending
  have apart : ∀ mark ∈ below bound (chronicle.marked step interval),
      ∀ entry ∈ atLeast bound chronicle.kept.entries, mark.1 < entry.1 :=
    fun mark early entry late => (mem_below.mp early).2.trans_le (mem_atLeast.mp late).2
  have sub := resume_sublist (below bound (chronicle.marked step interval)) chronicle.base
    (chronicle.lost ++ below bound chronicle.kept.entries)
  rw [← Chronicle.marked, ← all_eq_cut chronicle bound, resume_append _ _ apart] at cut
  rw [cut, Chronicle.marked, Chronicle.all, Chronicle.prune]
  dsimp only
  split
  next => rfl
  next few =>
    refine (layout_forget (chronicle.anchors.ascending.atLeast bound) (fun entry member => ?_)
      (Nat.not_le.mp few)).symm
    exact formed.gone_before (sub.subset member)

-----------------------------------------------------------------------------------------
-- What a replay up to a key sees
-----------------------------------------------------------------------------------------

/-- Without an anchor before it, what is visible before a key is what its marks are made of. -/
theorem visible_of_base (none : below key chronicle.anchors.entries = [])
    : chronicle.visible interval key
      = (chronicle.base,
          below key (chronicle.covered interval key ++ chronicle.kept.entries)) := by
  rw [visible, none]
  rfl

/-- Behind an anchor, the anchor is visible with the entries behind it. -/
theorem visible_of_anchor {front : List (κ × σ)} {anchor : κ × σ}
    (shape : below key chronicle.anchors.entries = front ++ [anchor])
    : chronicle.visible interval key
      = (anchor.2, below key (above anchor.1 chronicle.kept.entries)) := by
  rw [visible, shape, List.getLast?_concat]

/-- What is visible before a key is where a replay over the anchors before it picks up. -/
theorem WellFormed.visible_eq (formed : chronicle.WellFormed interval)
    : let origin :=
        resume (below key chronicle.anchors.entries) chronicle.base
          (chronicle.covered interval key ++ chronicle.kept.entries)
      chronicle.visible interval key = (origin.1, below key origin.2) := by
  rcases List.eq_nil_or_concat (below key chronicle.anchors.entries) with none | ⟨front, last, some⟩
  · dsimp only
    rw [visible_of_base none, none]
    rfl
  · rw [List.concat_eq_append] at some
    have present : last ∈ below key chronicle.anchors.entries := by simp [some]
    have forgotten : above last.1 (chronicle.covered interval key) = [] := by
      refine above_eq_nil (fun old lost => ?_)
      exact (formed.before old (mem_covered lost).1 last (mem_below.mp present).1).le
    dsimp only
    rw [visible_of_anchor some, some, resume_append_singleton, above_append, forgotten,
      List.nil_append]

/-- A replay up to a key over the marks before it picks up at the settled part of what is visible
and goes on with the pending part.
-/
theorem WellFormed.resume_visible (formed : chronicle.WellFormed interval) (step : σ → ε → σ)
    (key : κ)
    : let start :=
        resume (below key (chronicle.marked step interval)) chronicle.base
          chronicle.kept.entries
      let view := chronicle.visible interval key
      start.1 = replay step view.1 (settled interval view.2)
      ∧ below key start.2 = pending interval view.2 := by
  have next : WellFormed interval { chronicle with lost := chronicle.covered interval key } :=
    formed.renew (.refl _) (fun _ member => Or.inl member) (fun _ member => Or.inl member)
  have ascending : Ascending (chronicle.covered interval key ++ chronicle.kept.entries) :=
    next.ascending
  have front
      : below key (chronicle.marked step interval)
        = below key
            (layout step interval chronicle.base chronicle.anchors.entries
              (chronicle.covered interval key ++ chronicle.kept.entries)) := by
    rw [formed.below_marked, below_layout _ _ chronicle.anchors.ascending ascending]
  have picked := formed.resume_covered step key chronicle.kept.entries
  rw [front, resume_below_layout _ _ chronicle.anchors.ascending ascending, ← front] at picked
  have part : Ascending
      (resume (below key chronicle.anchors.entries) chronicle.base
        (chronicle.covered interval key ++ chronicle.kept.entries)).2 :=
    ascending.sublist (resume_sublist _ _ _)
  intro start view
  have view_eq : view = _ := formed.visible_eq
  have start_eq : start = _ := picked.symm
  generalize resume (below key chronicle.anchors.entries) chronicle.base
    (chronicle.covered interval key ++ chronicle.kept.entries) = origin at part view_eq start_eq
  have low : ∀ entry ∈ pending interval (below key origin.2), entry.1 < key :=
    fun entry member => (mem_below.mp (List.mem_of_mem_drop member)).2
  rw [view_eq, start_eq,
    resume_marks_below (Nat.zero_lt_of_lt formed.short) origin.1 key part]
  refine ⟨rfl, ?_⟩
  rw [below_append, below_of_forall low, below_atLeast_self, List.append_nil]

end Chronicle
