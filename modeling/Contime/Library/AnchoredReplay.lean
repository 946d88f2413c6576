import Contime.Library.PeriodicReplay

/-! Periodic replay that anchors interrupt. An anchor fixes the state at its key, whatever the
entries before it make of it, and the marks count anew behind it. A cut of the marks at any key
leaves the marks of a replay that picks up at the last one before the cut.
-/

open SortedEntries PeriodicReplay

namespace AnchoredReplay

universe u v w
variable {κ : Type u} {ε : Type v} {σ : Type w} [LinearOrder κ]

/-- The marks of the entries before the first anchor, then each anchor followed by the marks of
the entries between it and the next one.
-/
def layout (step : σ → ε → σ) (interval : Nat) : σ → List (κ × σ) → List (κ × ε) → List (κ × σ)
  | start, [], entries => marks step interval 0 start entries
  | start, anchor :: rest, entries =>
      marks step interval 0 start (below anchor.1 entries)
        ++ anchor :: layout step interval anchor.2 rest (above anchor.1 entries)

/-- The entries before all anchors. -/
def leading (anchors : List (κ × σ)) (entries : List (κ × ε)) : List (κ × ε) :=
  entries.filter (fun entry => anchors.all (fun anchor => decide (entry.1 < anchor.1)))

variable {step : σ → ε → σ} {interval : Nat} {start : σ} {key : κ} {anchors : List (κ × σ)}
  {entries : List (κ × ε)}

@[simp] theorem layout_nil
    : layout step interval start [] entries = marks step interval 0 start entries := rfl

@[simp] theorem layout_cons {anchor : κ × σ} {rest : List (κ × σ)}
    : layout step interval start (anchor :: rest) entries
      = marks step interval 0 start (below anchor.1 entries)
        ++ anchor :: layout step interval anchor.2 rest (above anchor.1 entries) := rfl

@[simp] theorem mem_leading {entry : κ × ε}
    : entry ∈ leading anchors entries
      ↔ entry ∈ entries ∧ ∀ anchor ∈ anchors, entry.1 < anchor.1 := by
  simp [leading]

@[simp] theorem leading_nil : leading ([] : List (κ × σ)) entries = entries := by
  simp [leading]

theorem leading_sublist : (leading anchors entries).Sublist entries := List.filter_sublist

/-- The first anchor decides what lies before all of them. -/
theorem leading_cons {anchor : κ × σ} {rest : List (κ × σ)}
    (ascending : Ascending (anchor :: rest))
    : leading (anchor :: rest) entries = below anchor.1 entries := by
  refine List.filter_congr (fun entry _ => ?_)
  have later : entry.1 < anchor.1 → ∀ other ∈ rest, entry.1 < other.1 :=
    fun before other member => before.trans ((List.pairwise_cons.mp ascending).1 other member)
  simpa using later

/-- A cut before a key keeps the leading entries before it. -/
theorem leading_below
    : leading (below key anchors) (below key entries) = below key (leading anchors entries) := by
  simp only [leading, below, List.filter_filter]
  refine List.filter_congr (fun entry _ => ?_)
  rw [Bool.eq_iff_iff]
  simp only [Bool.and_eq_true, List.all_eq_true, List.mem_filter, decide_eq_true_eq]
  constructor
  · intro cut
    obtain ⟨before, low⟩ := cut
    refine ⟨low, fun anchor member => ?_⟩
    rcases lt_or_ge anchor.1 key with early | late
    · exact before anchor ⟨member, early⟩
    · exact low.trans_le late
  · intro cut
    obtain ⟨low, before⟩ := cut
    exact ⟨fun anchor member => before anchor member.1, low⟩

/-- Fewer anchors before a key and more entries leave at least as many leading ones. -/
theorem below_leading_sublist {fewer : List (κ × σ)} {more : List (κ × ε)}
    (sub : entries.Sublist more)
    (behind : ∀ anchor ∈ fewer, anchor ∈ anchors ∨ key ≤ anchor.1)
    : (below key (leading anchors entries)).Sublist (leading fewer more) := by
  rw [below, leading, List.filter_filter]
  refine (List.monotone_filter_right entries (fun entry cut => ?_)).trans (sub.filter _)
  simp only [Bool.and_eq_true, List.all_eq_true, decide_eq_true_eq] at cut ⊢
  intro anchor member
  rcases behind anchor member with found | late
  · exact cut.2 anchor found
  · exact cut.1.trans_le late

/-- Everything in the layout is an anchor or lies at an entry. -/
theorem mem_layout {mark : κ × σ} (member : mark ∈ layout step interval start anchors entries)
    : mark ∈ anchors ∨ ∃ entry ∈ entries, entry.1 = mark.1 := by
  induction anchors generalizing start entries with
  | nil => exact Or.inr (mem_keys_of_mem_marks member)
  | cons anchor rest ih =>
      rcases List.mem_append.mp member with early | later
      · obtain ⟨entry, found, same⟩ := mem_keys_of_mem_marks early
        exact Or.inr ⟨entry, (mem_below.mp found).1, same⟩
      rcases List.mem_cons.mp later with rfl | later
      · exact Or.inl (.head _)
      · rcases ih later with found | ⟨entry, found, same⟩
        · exact Or.inl (.tail _ found)
        · exact Or.inr ⟨entry, (mem_above.mp found).1, same⟩

/-- Every anchor is in the layout. -/
theorem mem_layout_of_anchor {anchor : κ × σ} (member : anchor ∈ anchors)
    : anchor ∈ layout step interval start anchors entries := by
  induction anchors generalizing start entries with
  | nil => exact absurd member List.not_mem_nil
  | cons first rest ih =>
      refine List.mem_append_right _ ?_
      rcases List.mem_cons.mp member with rfl | later
      · exact .head _
      · exact .tail _ (ih later)

/-- Each mark of the layout is an anchor or takes a whole interval of entries. -/
theorem length_layout_le (step : σ → ε → σ) (interval : Nat) (start : σ)
    (anchors : List (κ × σ)) (entries : List (κ × ε))
    : interval * (layout step interval start anchors entries).length
      ≤ interval * anchors.length + entries.length := by
  have first (start : σ) (entries : List (κ × ε))
      : interval * (marks step interval 0 start entries).length ≤ entries.length := by
    have marked := length_marks_le step interval 0 start entries
    rwa [Nat.zero_mod, Nat.zero_add] at marked
  induction anchors generalizing start entries with
  | nil =>
      rw [layout_nil, List.length_nil, Nat.mul_zero, Nat.zero_add]
      exact first start entries
  | cons anchor rest ih =>
      have early := first start (below anchor.1 entries)
      have later := ih anchor.2 (above anchor.1 entries)
      have apart := length_below_add_above_le anchor.1 entries
      rw [layout_cons, List.length_append, List.length_cons, List.length_cons, Nat.mul_add,
        Nat.mul_succ, Nat.mul_succ]
      omega

/-- Behind an anchor lie the later anchors and the marks of later entries. -/
theorem lt_of_mem_layout_above {anchor mark : κ × σ} {rest : List (κ × σ)} {state : σ}
    (ascending : Ascending (anchor :: rest))
    (member : mark ∈ layout step interval state rest (above anchor.1 entries))
    : anchor.1 < mark.1 := by
  rcases mem_layout member with later | ⟨entry, found, same⟩
  · exact (List.pairwise_cons.mp ascending).1 mark later
  · exact same ▸ (mem_above.mp found).2

/-- The layout is in key order. -/
theorem layout_ascending (start : σ) (anchored : Ascending anchors)
    (ascending : Ascending entries)
    : Ascending (layout step interval start anchors entries) := by
  have marked (start : σ) {entries : List (κ × ε)} (ascending : Ascending entries)
      : Ascending (marks step interval 0 start entries) := by
    have keys : (entries.map Prod.fst).Pairwise (· < ·) := List.pairwise_map.mpr ascending
    exact List.pairwise_map.mp (keys.sublist (marks_keys_sublist 0 start entries))
  induction anchors generalizing start entries with
  | nil => exact marked start ascending
  | cons anchor rest ih =>
      have later := ih anchor.2 (List.pairwise_cons.mp anchored).2 (ascending.above anchor.1)
      refine (marked start (ascending.below anchor.1)).append ?_ ?_
      · exact List.pairwise_cons.mpr
          ⟨fun mark member => lt_of_mem_layout_above anchored member, later⟩
      · intro early before mark behind
        obtain ⟨entry, found, same⟩ := mem_keys_of_mem_marks before
        have low : early.1 < anchor.1 := same ▸ (mem_below.mp found).2
        rcases List.mem_cons.mp behind with rfl | behind
        · exact low
        · exact low.trans (lt_of_mem_layout_above anchored behind)

-----------------------------------------------------------------------------------------
-- Adding anchors and forgetting entries
-----------------------------------------------------------------------------------------

/-- An anchor separates the layout before it from the layout behind it. -/
theorem layout_append_anchor {front back : List (κ × σ)} {anchor : κ × σ}
    (before : ∀ early ∈ front, early.1 < anchor.1)
    : layout step interval start (front ++ anchor :: back) entries
      = layout step interval start front (below anchor.1 entries)
        ++ anchor :: layout step interval anchor.2 back (above anchor.1 entries) := by
  induction front generalizing start entries with
  | nil => rfl
  | cons first rest ih =>
      have less : first.1 < anchor.1 := before first (.head _)
      rw [List.cons_append, layout_cons, ih (fun early member => before early (.tail _ member)),
        layout_cons, below_below_of_le less.le, above_below, above_above_of_lt less,
        List.append_assoc]
      rfl

/-- Without entries the layout consists of the anchors. -/
@[simp] theorem layout_no_entries
    : layout step interval start anchors ([] : List (κ × ε)) = anchors := by
  induction anchors generalizing start with
  | nil => rfl
  | cons anchor rest ih => exact congrArg (List.cons anchor) ih

/-- Enough leading entries leave a mark. -/
theorem layout_ne_nil (positive : 0 < interval) (anchored : Ascending anchors)
    (many : interval ≤ (leading anchors entries).length)
    : layout step interval start anchors entries ≠ [] := by
  cases anchors with
  | nil =>
      rw [leading_nil] at many
      rw [layout_nil, Ne, marks_eq_nil_iff positive]
      exact Nat.not_lt.mpr many
  | cons anchor rest => simp

variable {front : List (κ × ε)}

/-- Too few entries in front for a mark, before all anchors, leave the marks to the entries
behind them.
-/
theorem mem_layout_append (few : front.length < interval)
    (before : ∀ entry ∈ front, ∀ anchor ∈ anchors, entry.1 < anchor.1) {mark : κ × σ}
    (member : mark ∈ layout step interval start anchors (front ++ entries))
    : mark ∈ anchors ∨ ∃ entry ∈ entries, entry.1 = mark.1 := by
  cases anchors with
  | nil => exact Or.inr (mem_keys_of_mem_marks_append few member)
  | cons anchor rest =>
      have none : above anchor.1 front = [] :=
        above_eq_nil (fun entry found => (before entry found anchor (.head _)).le)
      rcases List.mem_append.mp member with early | later
      · rw [below_append] at early
        have fewer : (below anchor.1 front).length < interval :=
          List.filter_sublist.length_le.trans_lt few
        obtain ⟨entry, found, same⟩ := mem_keys_of_mem_marks_append fewer early
        exact Or.inr ⟨entry, (mem_below.mp found).1, same⟩
      rcases List.mem_cons.mp later with rfl | later
      · exact Or.inl (.head _)
      · rw [above_append, none, List.nil_append] at later
        rcases mem_layout later with found | ⟨entry, found, same⟩
        · exact Or.inl (.tail _ found)
        · exact Or.inr ⟨entry, (mem_above.mp found).1, same⟩

/-- Entries in front are forgotten where no mark lies before the first anchor. -/
theorem layout_forget (anchored : Ascending anchors)
    (before : ∀ entry ∈ front, ∀ anchor ∈ anchors, entry.1 < anchor.1)
    (few : (leading anchors (front ++ entries)).length < interval)
    : layout step interval start anchors (front ++ entries)
      = layout step interval start anchors entries := by
  have unmarked {part : List (κ × ε)} (short : part.length < interval)
      : marks step interval 0 start part = [] :=
    marks_of_short (by rwa [Nat.zero_add])
  cases anchors with
  | nil =>
      rw [leading_nil] at few
      have fewer : entries.length < interval :=
        (List.sublist_append_right _ _).length_le.trans_lt few
      rw [layout_nil, layout_nil, unmarked few, unmarked fewer]
  | cons anchor rest =>
      have none : above anchor.1 front = [] :=
        above_eq_nil (fun entry found => (before entry found anchor (.head _)).le)
      rw [leading_cons anchored, below_append] at few
      have fewer : (below anchor.1 entries).length < interval :=
        (List.sublist_append_right _ _).length_le.trans_lt few
      rw [layout_cons, layout_cons, below_append, above_append, none, List.nil_append,
        unmarked few, unmarked fewer]

-----------------------------------------------------------------------------------------
-- Cutting the layout
-----------------------------------------------------------------------------------------

/-- What lies before a key depends on the anchors and the entries before it only. -/
theorem below_layout (start : σ) (key : κ) (anchored : Ascending anchors)
    (ascending : Ascending entries)
    : below key (layout step interval start anchors entries)
      = layout step interval start (below key anchors) (below key entries) := by
  induction anchors generalizing start entries with
  | nil => exact below_marks ascending
  | cons anchor rest ih =>
      have later := ih anchor.2 (List.pairwise_cons.mp anchored).2 (ascending.above anchor.1)
      have early : below key (marks step interval 0 start (below anchor.1 entries))
          = marks step interval 0 start (below key (below anchor.1 entries)) :=
        below_marks (ascending.below anchor.1)
      rcases lt_or_ge anchor.1 key with before | behind
      · have kept : below key (anchor :: rest) = anchor :: below key rest :=
          List.filter_cons_of_pos (by simpa using before)
        have same : below key (below anchor.1 entries) = below anchor.1 entries :=
          below_of_forall (fun entry member => (mem_below.mp member).2.trans before)
        have split : below key (anchor :: layout step interval anchor.2 rest
              (above anchor.1 entries))
            = anchor :: below key (layout step interval anchor.2 rest
              (above anchor.1 entries)) :=
          List.filter_cons_of_pos (by simpa using before)
        rw [layout_cons, below_append, early, same, split, later, kept, layout_cons,
          below_below_of_le before.le, above_below]
      · have dropped : below key (anchor :: rest) = [] := by
          refine below_eq_nil (fun other member => ?_)
          rcases List.mem_cons.mp member with rfl | member
          · exact behind
          · exact behind.trans ((List.pairwise_cons.mp anchored).1 other member).le
        have none : below key (anchor :: layout step interval anchor.2 rest
              (above anchor.1 entries)) = [] := by
          refine below_eq_nil (fun mark member => ?_)
          rcases List.mem_cons.mp member with rfl | member
          · exact behind
          · exact behind.trans (lt_of_mem_layout_above anchored member).le
        rw [layout_cons, below_append, early, none, List.append_nil, dropped,
          below_below_of_le behind, layout_nil]

/-- Entries before some marks are forgotten by a replay that picks up at the last of them. -/
theorem resume_forget {marked : List (κ × σ)} (some : marked ≠ []) {front : List (κ × ε)}
    (before : ∀ mark ∈ marked, ∀ entry ∈ front, entry.1 < mark.1)
    : resume marked start (front ++ entries) = resume marked start entries := by
  obtain ⟨earlier, last, shape⟩ := (List.eq_nil_or_concat marked).resolve_left some
  rw [List.concat_eq_append] at shape
  have none : above last.1 front = [] :=
    above_eq_nil (fun entry found => (before last (by simp [shape]) entry found).le)
  rw [shape, resume_append_singleton, resume_append_singleton, above_append, none,
    List.nil_append]

/-- A replay that picks up before a key leaves the entries behind the key alone. -/
theorem above_resume {marked : List (κ × σ)} (before : ∀ mark ∈ marked, mark.1 ≤ key)
    : above key (resume marked start entries).2 = above key entries := by
  rcases List.eq_nil_or_concat marked with rfl | ⟨front, last, rfl⟩
  · rfl
  · rw [List.concat_eq_append] at before ⊢
    rw [resume_append_singleton]
    rcases (before last (by simp)).lt_or_eq with less | same
    · exact above_above_of_lt less entries
    · rw [same]
      exact above_of_forall (fun _ member => (mem_above.mp member).2)

/-- A replay picks up among the entries before a key as it does among all. -/
theorem resume_below (marked : List (κ × σ))
    : resume marked start (below key entries)
      = ((resume marked start entries).1, below key (resume marked start entries).2) := by
  rcases List.eq_nil_or_concat marked with rfl | ⟨front, last, rfl⟩
  · rfl
  · rw [List.concat_eq_append, resume_append_singleton, resume_append_singleton, above_below]

/-- Cut at any key, the layout is the part before the key and the layout of a replay that picks
up behind that part, with the anchors from the key on.
-/
theorem layout_split (positive : 0 < interval) (start : σ) (key : κ)
    (anchored : Ascending anchors) (ascending : Ascending entries)
    : let kept := below key (layout step interval start anchors entries)
      let origin := resume kept start entries
      layout step interval start anchors entries
        = kept ++ layout step interval origin.1 (atLeast key anchors) origin.2 := by
  induction anchors generalizing start entries with
  | nil =>
      dsimp only
      rw [layout_nil, below_marks ascending]
      exact (marks_rebuild positive start key ascending).symm
  | cons anchor rest ih =>
      rcases lt_or_ge anchor.1 key with before | behind
      · have later := ih anchor.2 (List.pairwise_cons.mp anchored).2
          (ascending.above anchor.1)
        have dropped : atLeast key (anchor :: rest) = atLeast key rest :=
          List.filter_cons_of_neg (by simpa using before)
        have early : below key (marks step interval 0 start (below anchor.1 entries))
            = marks step interval 0 start (below anchor.1 entries) := by
          refine below_of_forall (fun mark member => ?_)
          obtain ⟨entry, found, same⟩ := mem_keys_of_mem_marks member
          exact same ▸ (mem_below.mp found).2.trans before
        have kept
            : below key (layout step interval start (anchor :: rest) entries)
              = marks step interval 0 start (below anchor.1 entries)
                ++ anchor
                  :: below key (layout step interval anchor.2 rest (above anchor.1 entries)) := by
          rw [layout_cons, below_append, early]
          exact congrArg _ (List.filter_cons_of_pos (by simpa using before))
        have picked
            : resume (below key (layout step interval start (anchor :: rest) entries)) start
                entries
              = resume (below key (layout step interval anchor.2 rest (above anchor.1 entries)))
                anchor.2 (above anchor.1 entries) := by
          rw [kept]
          exact resume_anchor
            (fun mark member => lt_of_mem_layout_above anchored (mem_below.mp member).1) _ _
        dsimp only at later ⊢
        rw [picked, kept, dropped, List.append_assoc, List.cons_append, ← later]
        rfl
      · have all : atLeast key (anchor :: rest) = anchor :: rest := by
          refine atLeast_of_forall (fun other member => ?_)
          rcases List.mem_cons.mp member with rfl | member
          · exact behind
          · exact behind.trans ((List.pairwise_cons.mp anchored).1 other member).le
        have none : below key (anchor :: rest) = [] := by
          refine below_eq_nil (fun other member => ?_)
          exact (mem_atLeast.mp (all.symm ▸ member)).2
        have kept : below key (layout step interval start (anchor :: rest) entries)
            = marks step interval 0 start (below key entries) := by
          rw [below_layout start key anchored ascending, none, layout_nil]
        have low : ∀ mark ∈ marks step interval 0 start (below key entries),
            mark.1 ≤ anchor.1 := by
          intro mark member
          obtain ⟨entry, found, same⟩ := mem_keys_of_mem_marks member
          exact same ▸ (mem_below.mp found).2.le.trans behind
        have first : _ = marks step interval 0 start (below anchor.1 entries) :=
          marks_rebuild positive start key (ascending.below anchor.1)
        dsimp only at first ⊢
        rw [below_below_of_le behind, resume_below] at first
        rw [kept, all, layout_cons, layout_cons, above_resume low, ← first, List.append_assoc]

/-- What lies from a key on is the layout of a replay that picks up behind the part before it. -/
theorem atLeast_layout (positive : 0 < interval) (start : σ) (key : κ)
    (anchored : Ascending anchors) (ascending : Ascending entries)
    : let origin :=
        resume (below key (layout step interval start anchors entries)) start entries
      atLeast key (layout step interval start anchors entries)
        = layout step interval origin.1 (atLeast key anchors) origin.2 := by
  have whole : Ascending (layout step interval start anchors entries) :=
    layout_ascending start anchored ascending
  have cut := whole.below_append_atLeast key
  exact List.append_cancel_left (cut.trans (layout_split positive start key anchored ascending))

/-- Where all anchors lie before a key, the layout is rebuilt from the part before the key. -/
theorem layout_rebuild (positive : 0 < interval) (start : σ) (anchored : Ascending anchors)
    (ascending : Ascending entries) (before : ∀ anchor ∈ anchors, anchor.1 < key)
    : let kept := below key (layout step interval start anchors entries)
      let origin := resume kept start entries
      kept ++ marks step interval 0 origin.1 origin.2
        = layout step interval start anchors entries := by
  have split : layout step interval start anchors entries = _ :=
    layout_split positive start key anchored ascending
  rw [atLeast_eq_nil before] at split
  exact split.symm

/-- A replay over the part before a key picks up behind the marks of the last anchor before it.
-/
theorem resume_below_layout (start : σ) (key : κ) (anchored : Ascending anchors)
    (ascending : Ascending entries)
    : let origin := resume (below key anchors) start entries
      resume (below key (layout step interval start anchors entries)) start entries
        = resume (marks step interval 0 origin.1 (below key origin.2)) origin.1 origin.2 := by
  induction anchors generalizing start entries with
  | nil =>
      dsimp only
      rw [layout_nil, below_marks ascending]
      rfl
  | cons anchor rest ih =>
      have tail : Ascending rest := (List.pairwise_cons.mp anchored).2
      have later := ih anchor.2 tail (ascending.above anchor.1)
      rw [below_layout start key anchored ascending]
      rcases lt_or_ge anchor.1 key with before | behind
      · have kept : below key (anchor :: rest) = anchor :: below key rest :=
          List.filter_cons_of_pos (by simpa using before)
        have apart : ∀ other ∈ below key rest, anchor.1 < other.1 :=
          fun other member =>
            (List.pairwise_cons.mp anchored).1 other (mem_below.mp member).1
        have picked : resume (anchor :: below key rest) start entries
            = resume (below key rest) anchor.2 (above anchor.1 entries) := by
          rw [← List.nil_append (anchor :: below key rest)]
          exact resume_anchor apart start entries
        rw [below_layout anchor.2 key tail (ascending.above anchor.1)] at later
        dsimp only at later ⊢
        rw [kept, picked, ← later, layout_cons, ← above_below, resume_anchor]
        intro mark member
        have ascending : Ascending (anchor :: below key rest) :=
          List.pairwise_cons.mpr ⟨apart, tail.below key⟩
        exact lt_of_mem_layout_above ascending member
      · have none : below key (anchor :: rest) = [] := by
          refine below_eq_nil (fun other member => ?_)
          rcases List.mem_cons.mp member with rfl | member
          · exact behind
          · exact behind.trans ((List.pairwise_cons.mp anchored).1 other member).le
        rw [none]
        rfl

/-- A replay over the part before a key picks up less than an interval before it. -/
theorem resume_layout_short (positive : 0 < interval) (start : σ) (key : κ)
    (anchored : Ascending anchors) (ascending : Ascending entries)
    : let kept := below key (layout step interval start anchors entries)
      (below key (resume kept start entries).2).length < interval := by
  have part : Ascending (resume (below key anchors) start entries).2 :=
    ascending.sublist (resume_sublist _ _ _)
  dsimp only
  rw [resume_below_layout start key anchored ascending]
  generalize resume (below key anchors) start entries = origin at part ⊢
  have low : ∀ entry ∈ pending interval (below key origin.2), entry.1 < key :=
    fun entry member => (mem_below.mp (List.mem_of_mem_drop member)).2
  rw [resume_marks_below positive origin.1 key part, below_append, below_of_forall low,
    below_atLeast_self, List.append_nil, length_pending]
  exact Nat.mod_lt _ positive

end AnchoredReplay
