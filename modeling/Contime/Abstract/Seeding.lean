import Contime.Abstract.Chronicle

/-! Chronicles behind a key. What is visible behind a key is made of the state before the key and
of the entries and anchors behind it, so chronicles that agree on these can stand in for each
other.
-/

open SortedEntries PeriodicReplay AnchoredReplay

universe u v w

namespace Chronicle
variable {κ : Type u} {ε : Type v} {σ : Type w} [LinearOrder κ] {left right : Chronicle κ ε σ}
  {chronicle : Chronicle κ ε σ} {interval first second : Nat} {bound key : κ} {entry : κ × ε}
  {state : σ}

/-- The chronicles keep the same entries and anchors behind the bound. -/
structure AgreeBehind (bound : κ) (left right : Chronicle κ ε σ) : Prop where
  kept : above bound left.kept.entries = above bound right.kept.entries
  anchors : above bound left.anchors.entries = above bound right.anchors.entries

/-- Behind a bound before its key, an insertion depends on the entries behind the bound. -/
theorem above_insert_of_lt {ν : Type*} (map : BTreeMap κ ν) (behind : bound < key) (value : ν)
    : above bound (map.insert key value).entries
      = below key (above bound map.entries)
        ++ (key, value) :: above key (above bound map.entries) := by
  have later : above bound ((key, value) :: above key map.entries)
      = (key, value) :: above key map.entries := by
    refine above_of_forall (fun entry member => ?_)
    rcases List.mem_cons.mp member with rfl | member
    · exact behind
    · exact behind.trans (mem_above.mp member).2
  rw [BTreeMap.insert_entries, above_append, later, above_below, above_above_of_lt behind]

/-- Whether a key behind the bound is in use depends on the entries behind the bound. -/
theorem mem_keys_above {ν : Type*} {map : BTreeMap κ ν} (behind : bound < key)
    : key ∈ map.keys ↔ ∃ value, (key, value) ∈ above bound map.entries := by
  simp [behind]

/-- Behind the bound, the anchors after a new entry depend on what lies behind the bound. -/
theorem above_anchorsWith (behind : bound < key)
    : above bound (chronicle.anchorsWith key).entries
      = if (above key (above bound chronicle.kept.entries)).isEmpty then
          match (above bound chronicle.anchors.entries).getLast? with
          | some last =>
              if key ≤ last.1 then
                below key (above bound chronicle.anchors.entries)
                  ++ (key, last.2) :: above key (above bound chronicle.anchors.entries)
              else
                above bound chronicle.anchors.entries
          | none => above bound chronicle.anchors.entries
        else
          below key (above bound chronicle.anchors.entries) := by
  rw [above_above_of_lt behind, anchorsWith]
  split
  next =>
    rcases List.eq_nil_or_concat chronicle.anchors.entries with none | ⟨front, last, some⟩
    · simp [none, above]
    rw [List.concat_eq_append] at some
    have found : chronicle.anchors.entries.getLast? = Option.some last := by
      rw [some, List.getLast?_concat]
    rw [found]
    dsimp only
    rcases lt_or_ge bound last.1 with late | early
    · have kept : (above bound chronicle.anchors.entries).getLast? = Option.some last := by
        have single : above bound [last] = [last] := above_of_forall (by simpa using late)
        rw [some, above_append, single, List.getLast?_concat]
      rw [kept]
      dsimp only
      split
      · exact above_insert_of_lt _ behind _
      · rfl
    · -- All anchors lie up to the bound, so none lies at the key or behind it.
      have ascending := chronicle.anchors.ascending
      rw [some] at ascending
      have none : above bound chronicle.anchors.entries = [] := by
        refine above_eq_nil (fun anchor member => ?_)
        rw [some] at member
        exact (ascending.le_last member).trans early
      have apart : ¬ key ≤ last.1 := fun reached => (behind.trans_le reached).not_ge early
      rw [if_neg apart, none]
      rfl
  next => exact above_below _ _ _

/-- A delivery behind the bound keeps chronicles in agreement. -/
theorem AgreeBehind.deliver (agree : AgreeBehind bound left right) (behind : bound < entry.1)
    : AgreeBehind bound (left.deliver first entry) (right.deliver second entry) := by
  have same : entry.1 ∈ left.kept.keys ↔ entry.1 ∈ right.kept.keys := by
    rw [mem_keys_above behind, mem_keys_above behind, agree.kept]
  by_cases stored : entry.1 ∈ left.kept.keys
  · rwa [deliver_stored stored, deliver_stored (same.mp stored)]
  · rw [deliver_fresh stored, deliver_fresh (mt same.mpr stored)]
    refine ⟨?_, ?_⟩
    · rw [above_insert_of_lt _ behind, above_insert_of_lt _ behind, agree.kept]
    · rw [above_anchorsWith behind, above_anchorsWith behind, agree.kept, agree.anchors]

/-- An authority behind the bound keeps chronicles in agreement. -/
theorem AgreeBehind.authorize (agree : AgreeBehind bound left right) (behind : bound < key)
    (state : σ)
    : AgreeBehind bound (left.authorize first key state) (right.authorize second key state) where
  kept := agree.kept
  anchors := by
    have cut (chronicle : Chronicle κ ε σ) (interval : Nat)
        : above bound (chronicle.authorize interval key state).anchors.entries
          = below key (above bound chronicle.anchors.entries)
            ++ (key, state) :: above key
                (below key (above bound chronicle.anchors.entries)) := by
      have front : above bound (below key chronicle.anchors.entries)
          = below key (above bound chronicle.anchors.entries) := above_below _ _ _
      rw [Chronicle.authorize, above_insert_of_lt _ behind]
      simp only [BTreeMap.splitOff, front, below_below_self]
    rw [cut, cut, agree.anchors]

-----------------------------------------------------------------------------------------
-- What stays as it is up to a key
-----------------------------------------------------------------------------------------

/-- The chronicles have the same base and the same entries and anchors up to the bound. -/
structure SameUpTo (bound : κ) (left right : Chronicle κ ε σ) : Prop where
  base : left.base = right.base
  lost : left.lost = right.lost
  kept : upTo bound left.kept.entries = upTo bound right.kept.entries
  anchors : upTo bound left.anchors.entries = upTo bound right.anchors.entries

/-- A chronicle is the same as itself up to every key. -/
theorem SameUpTo.refl (bound : κ) (chronicle : Chronicle κ ε σ)
    : SameUpTo bound chronicle chronicle :=
  ⟨rfl, rfl, rfl, rfl⟩

/-- Chronicles that are the same up to a key can be exchanged one after the other. -/
theorem SameUpTo.trans {middle : Chronicle κ ε σ} (hl : SameUpTo bound left middle)
    (hr : SameUpTo bound middle right)
    : SameUpTo bound left right where
  base := hl.base.trans hr.base
  lost := hl.lost.trans hr.lost
  kept := hl.kept.trans hr.kept
  anchors := hl.anchors.trans hr.anchors

/-- Lists with the same part up to a key have the same part before it. -/
theorem below_eq_of_upTo {ν : Type*} {left right : List (κ × ν)}
    (same : upTo bound left = upTo bound right)
    : below bound left = below bound right := by
  have cut := congrArg (below bound) same
  rwa [below_upTo_self, below_upTo_self] at cut

theorem SameUpTo.covered (same : SameUpTo bound left right)
    : left.covered interval bound = right.covered interval bound := by
  have leading : below bound (leading left.anchors.entries left.all)
      = below bound (leading right.anchors.entries right.all) := by
    rw [← leading_below, ← leading_below, all, all, below_append, below_append, same.lost,
      below_eq_of_upTo same.kept, below_eq_of_upTo same.anchors]
  rw [Chronicle.covered, Chronicle.covered, same.lost]
  exact if_congr (by rw [Covers, Covers, leading]) rfl rfl

/-- What is visible before a key depends on what lies up to it. -/
theorem SameUpTo.visible (same : SameUpTo bound left right)
    : left.visible interval bound = right.visible interval bound := by
  have anchors := below_eq_of_upTo same.anchors
  have kept := below_eq_of_upTo same.kept
  rcases List.eq_nil_or_concat (below bound right.anchors.entries) with none | ⟨front, last, some⟩
  · rw [visible_of_base none, visible_of_base (anchors.trans none), same.base, same.covered,
      below_append, below_append, kept]
  · rw [List.concat_eq_append] at some
    rw [visible_of_anchor some, visible_of_anchor (anchors.trans some), ← above_below,
      ← above_below, kept]

/-- Nothing lies at the bound, and no lost entry is covered only behind it. -/
structure SettledAt (interval : Nat) (bound : κ) (chronicle : Chronicle κ ε σ) : Prop where
  formed : chronicle.WellFormed interval
  kept : bound ∉ chronicle.kept.keys
  anchors : bound ∉ chronicle.anchors.keys
  lost : chronicle.covered interval bound = chronicle.lost

/-- What is covered before the bound is covered before every later key. -/
theorem SettledAt.covered_eq (settled : chronicle.SettledAt interval bound) (behind : bound ≤ key)
    : chronicle.covered interval key = chronicle.lost := by
  have more : (below bound (leading chronicle.anchors.entries chronicle.all)).length
      ≤ (below key (leading chronicle.anchors.entries chronicle.all)).length := by
    rw [← below_below_of_le behind]
    exact List.filter_sublist.length_le
  have lost := settled.lost
  unfold covered at lost ⊢
  split at lost
  next covers => exact if_pos (Nat.le_trans covers more)
  next => rw [← lost, ite_self]

/-- Maps with the same part up to a key hold the same value under it. -/
theorem mem_iff_of_upTo {ν : Type*} {left right : BTreeMap κ ν}
    (same : upTo bound left.entries = upTo bound right.entries) (value : ν)
    : (bound, value) ∈ left.entries ↔ (bound, value) ∈ right.entries := by
  have both := congrArg ((bound, value) ∈ ·) same
  simpa using both

/-- Maps with the same part up to a key both use it or both do not. -/
theorem mem_keys_iff_of_upTo {ν : Type*} {left right : BTreeMap κ ν}
    (same : upTo bound left.entries = upTo bound right.entries)
    : bound ∈ left.keys ↔ bound ∈ right.keys := by
  rw [BTreeMap.mem_keys, BTreeMap.mem_keys]
  exact exists_congr (mem_iff_of_upTo same)

/-- A chronicle that is the same up to the bound is settled there too. -/
theorem SettledAt.of_same (settled : chronicle.SettledAt interval bound)
    {next : Chronicle κ ε σ} (formed : next.WellFormed interval)
    (same : SameUpTo bound next chronicle)
    : next.SettledAt interval bound where
  formed := formed
  kept := mt (mem_keys_iff_of_upTo same.kept).mp settled.kept
  anchors := mt (mem_keys_iff_of_upTo same.anchors).mp settled.anchors
  lost := by rw [same.covered, settled.lost, same.lost]

/-- An insertion behind the bound leaves what lies up to it alone. -/
theorem upTo_insert_of_lt {ν : Type*} (map : BTreeMap κ ν) (behind : bound < key) (value : ν)
    : upTo bound (map.insert key value).entries = upTo bound map.entries := by
  have none : upTo bound ((key, value) :: above key map.entries) = [] := by
    refine upTo_eq_nil (fun entry member => ?_)
    rcases List.mem_cons.mp member with rfl | member
    · exact behind
    · exact behind.trans (mem_above.mp member).2
  rw [BTreeMap.insert_entries, upTo_append, none, List.append_nil, upTo_below_of_lt behind]

/-- A new entry behind the bound leaves the anchors up to it alone. -/
theorem upTo_anchorsWith (behind : bound < key)
    : upTo bound (chronicle.anchorsWith key).entries = upTo bound chronicle.anchors.entries := by
  unfold anchorsWith
  split
  · split
    next =>
      split
      · exact upTo_insert_of_lt _ behind _
      · rfl
    next => rfl
  · exact upTo_below_of_lt behind _

/-- So does an authority behind the bound. -/
theorem upTo_authorize (behind : bound < key)
    : upTo bound (chronicle.authorize interval key state).anchors.entries
      = upTo bound chronicle.anchors.entries := by
  rw [authorize, upTo_insert_of_lt _ behind]
  exact upTo_below_of_lt behind _

/-- So does a delivery behind the bound. -/
theorem upTo_deliver (behind : bound < entry.1)
    : upTo bound (chronicle.deliver interval entry).anchors.entries
      = upTo bound chronicle.anchors.entries := by
  by_cases stored : entry.1 ∈ chronicle.kept.keys
  · rw [deliver_stored stored]
  · rw [deliver_fresh stored]
    exact upTo_anchorsWith behind

/-- A delivery behind the bound changes nothing up to it. -/
theorem SettledAt.deliver (settled : chronicle.SettledAt interval bound)
    (behind : bound < entry.1)
    : SameUpTo bound (chronicle.deliver interval entry) chronicle := by
  by_cases stored : entry.1 ∈ chronicle.kept.keys
  · rw [deliver_stored stored]
    exact .refl bound chronicle
  rw [deliver_fresh stored]
  exact ⟨rfl, settled.covered_eq behind.le, upTo_insert_of_lt _ behind _,
    upTo_anchorsWith behind⟩

/-- Nor does an authority behind it. -/
theorem SettledAt.authorize (settled : chronicle.SettledAt interval bound) (behind : bound < key)
    (state : σ)
    : SameUpTo bound (chronicle.authorize interval key state) chronicle where
  base := rfl
  lost := settled.covered_eq behind.le
  kept := rfl
  anchors := upTo_authorize behind

-----------------------------------------------------------------------------------------
-- The state before a key as a start
-----------------------------------------------------------------------------------------

/-- Where a replay picks up that starts with a state at the bound and goes on to the key. -/
def continued (chronicle : Chronicle κ ε σ) (bound : κ) (state : σ) (key : κ)
    : σ × List (κ × ε) :=
  let origin :=
    resume (below key (above bound chronicle.anchors.entries)) state
      (above bound chronicle.kept.entries)
  (origin.1, below key origin.2)

/-- An anchor behind the bound is where both the replay from the bound and the one from the base
pick up.
-/
theorem visible_eq_continued {front : List (κ × σ)} {last : κ × σ}
    (shape : below key (above bound chronicle.anchors.entries) = front ++ [last]) (state : σ)
    : chronicle.visible interval key = chronicle.continued bound state key := by
  have present : last ∈ below key (above bound chronicle.anchors.entries) := by simp [shape]
  obtain ⟨found, low⟩ := mem_below.mp present
  have behind : bound < last.1 := (mem_above.mp found).2
  have whole : below key chronicle.anchors.entries
      = (upTo bound (below key chronicle.anchors.entries) ++ front) ++ [last] := by
    have split := (chronicle.anchors.ascending.below key).upTo_append_above bound
    rw [above_below, shape, ← List.append_assoc] at split
    exact split.symm
  rw [visible_of_anchor whole, continued, shape, resume_append_singleton,
    above_above_of_lt behind]

/-- Without an anchor behind the bound, the replay from the bound goes through the entries. -/
theorem continued_of_none (none : below key (above bound chronicle.anchors.entries) = [])
    : chronicle.continued bound state key
      = (state, below key (above bound chronicle.kept.entries)) := by
  rw [continued, none]
  rfl

/-- The state before a key is made of the state before an earlier one. -/
theorem SettledAt.replay_visible (settled : chronicle.SettledAt interval bound)
    (behind : bound < key) (step : σ → ε → σ)
    : let seen := chronicle.visible interval bound
      let later := chronicle.continued bound (replay step seen.1 seen.2) key
      replay step (chronicle.visible interval key).1 (chronicle.visible interval key).2
        = replay step later.1 later.2 := by
  intro seen later
  rcases List.eq_nil_or_concat (below key (above bound chronicle.anchors.entries))
    with none | ⟨front, last, some⟩
  · have anchors : below key chronicle.anchors.entries = below bound chronicle.anchors.entries := by
      have split := chronicle.anchors.below_append_above settled.anchors
      conv_lhs => rw [← split]
      rw [below_append, none, List.append_nil]
      exact below_of_forall (fun anchor member => (mem_below.mp member).2.trans behind)
    have kept : below key chronicle.kept.entries
        = below bound chronicle.kept.entries
          ++ below key (above bound chronicle.kept.entries) := by
      have split := chronicle.kept.below_append_above settled.kept
      conv_lhs => rw [← split]
      rw [below_append]
      exact congrArg (· ++ _)
        (below_of_forall (fun entry member => (mem_below.mp member).2.trans behind))
    have continued : later = _ := continued_of_none none
    have whole
        : chronicle.visible interval key
          = (seen.1, seen.2 ++ below key (above bound chronicle.kept.entries)) := by
      rcases List.eq_nil_or_concat (below bound chronicle.anchors.entries)
        with base | ⟨front, last, some⟩
      · have seen_eq : seen = _ := visible_of_base base
        have lost (end_key : κ) (late : bound ≤ end_key)
            : below end_key (chronicle.covered interval bound)
              = chronicle.covered interval bound := by
          refine below_of_forall (fun old member => ?_)
          obtain ⟨gone, covers⟩ := mem_covered member
          exact (settled.formed.lost_lt covers old gone).trans_le late
        rw [visible_of_base (anchors.trans base), seen_eq, settled.covered_eq behind.le,
          ← settled.lost, below_append, below_append, lost key behind.le, lost bound le_rfl, kept,
          List.append_assoc]
      · rw [List.concat_eq_append] at some
        have seen_eq : seen = _ := visible_of_anchor some
        have low : last.1 < bound := by
          have member : last ∈ below bound chronicle.anchors.entries := by simp [some]
          exact (mem_below.mp member).2
        have late : above last.1 (below key (above bound chronicle.kept.entries))
            = below key (above bound chronicle.kept.entries) :=
          above_of_forall (fun entry member =>
            low.trans (mem_above.mp (mem_below.mp member).1).2)
        rw [visible_of_anchor (anchors.trans some), seen_eq, ← above_below, kept, above_append,
          late, above_below]
    rw [whole, continued, replay_append]
  · rw [List.concat_eq_append] at some
    rw [visible_eq_continued some (replay step seen.1 seen.2)]

/-- Behind an anchor at the bound, exactly the anchor, the entries and the other anchors behind it
are visible.
-/
theorem visible_of_seed (seed : (bound, state) ∈ chronicle.anchors.entries) (behind : bound < key)
    : chronicle.visible interval key = chronicle.continued bound state key := by
  rcases List.eq_nil_or_concat (below key (above bound chronicle.anchors.entries))
    with none | ⟨front, last, some⟩
  · obtain ⟨front, back, split⟩ := List.append_of_mem seed
    have ascending := chronicle.anchors.ascending
    rw [split] at ascending
    have later : above bound chronicle.anchors.entries = back := by
      rw [split]
      exact above_split ascending
    have low : below key front = front :=
      below_of_forall (fun anchor member => (ascending.around.1 anchor member).trans behind)
    have own : below key [(bound, state)] = [(bound, state)] :=
      below_of_forall (by simpa using behind)
    have shape : below key chronicle.anchors.entries = front ++ [(bound, state)] := by
      rw [split, ← List.singleton_append, below_append, below_append, low, own, ← later, none,
        List.append_nil]
    rw [visible_of_anchor shape, continued_of_none none]
  · rw [List.concat_eq_append] at some
    exact visible_eq_continued some state

end Chronicle
