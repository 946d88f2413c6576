import Contime.Library.SortedEntries
import Mathlib.Algebra.GroupWithZero.Nat

/-! An ordered map kept as its key-ascending entries, with the key ranges of a B-tree map.
The structure carries the ascending order, so no operation can build an unsorted map.
-/

open SortedEntries

universe u v

/-- One end of a key range. -/
inductive Bound (κ : Type u) where
  | included (key : κ)
  | excluded (key : κ)
  | unbounded
  deriving DecidableEq, Repr

/-- An ordered map: its entries in ascending key order. -/
structure BTreeMap (κ : Type u) (ν : Type v) [LinearOrder κ] where
  entries : List (κ × ν)
  ascending : Ascending entries

variable {κ : Type u} {ν : Type v} [LinearOrder κ]

/-- A key on the inner side of the lower end. -/
def Bound.opensAt : Bound κ → κ → Bool
  | .included low, key => low ≤ key
  | .excluded low, key => low < key
  | .unbounded, _ => true

/-- A key on the inner side of the upper end. -/
def Bound.closesAt : Bound κ → κ → Bool
  | .included high, key => key ≤ high
  | .excluded high, key => key < high
  | .unbounded, _ => true

/-- The ends a range call panics on: the start after the end, or both ends excluding the
same key.
-/
def Bound.malformed : Bound κ → Bound κ → Bool
  | .excluded low, .excluded high => high ≤ low
  | .excluded low, .included high => high < low
  | .included low, .excluded high => high < low
  | .included low, .included high => high < low
  | _, _ => false

namespace BTreeMap

def empty : BTreeMap κ ν := ⟨[], List.Pairwise.nil⟩

instance [DecidableEq ν] : DecidableEq (BTreeMap κ ν) := fun left right =>
  decidable_of_iff (left.entries = right.entries)
    ⟨fun same => by cases left; cases right; cases same; rfl, fun same => same ▸ rfl⟩

def isEmpty (map : BTreeMap κ ν) : Bool := map.entries.isEmpty

def keys (map : BTreeMap κ ν) : List κ := map.entries.map Prod.fst

def get? (map : BTreeMap κ ν) (key : κ) : Option ν :=
  (map.entries.find? (fun entry => decide (entry.1 = key))).map Prod.snd

def containsKey (map : BTreeMap κ ν) (key : κ) : Bool :=
  map.entries.any (fun entry => decide (entry.1 = key))

/-- Put a value under a key, replacing the value already there. -/
def insert (map : BTreeMap κ ν) (key : κ) (value : ν) : BTreeMap κ ν where
  entries := below key map.entries ++ (key, value) :: above key map.entries
  ascending := map.ascending.insert key value

def remove (map : BTreeMap κ ν) (key : κ) : BTreeMap κ ν where
  entries := map.entries.filter (fun entry => decide (entry.1 ≠ key))
  ascending := map.ascending.sublist List.filter_sublist

/-- The entries between two ends, in ascending order. -/
def range (map : BTreeMap κ ν) (start stop : Bound κ) : List (κ × ν) :=
  map.entries.filter (fun entry => start.opensAt entry.1 && stop.closesAt entry.1)

/-- A range call that reports its panic: `none` for malformed ends. A map that was never filled has
no root and answers before it looks at the ends; one that was emptied by a cut keeps its root.
-/
def range? (map : BTreeMap κ ν) (emptied : Bool) (start stop : Bound κ)
    : Option (List (κ × ν)) :=
  if map.isEmpty && !emptied then some []
  else if start.malformed stop then none
  else some (map.range start stop)

/-- Cut the map at a key: what stays before it, and the split-off part from it on. The part of a
map with entries has a root also when it is empty.
-/
def splitOff (map : BTreeMap κ ν) (key : κ) : BTreeMap κ ν × BTreeMap κ ν :=
  (⟨below key map.entries, map.ascending.below key⟩,
    ⟨atLeast key map.entries, map.ascending.atLeast key⟩)

/-- The entries in the order of another table: those under the first of the keys come first, and so
on; the others follow in ascending order.
-/
def inOrder (map : BTreeMap κ ν) (keys : List κ) : List (κ × ν) :=
  keys.foldr
    (fun key rest =>
      rest.filter (fun entry => decide (entry.1 = key))
        ++ rest.filter (fun entry => !decide (entry.1 = key)))
    map.entries

/-- Change every value in place. -/
def mapValues {ω : Type v} (change : ν → ω) (map : BTreeMap κ ν) : BTreeMap κ ω where
  entries := map.entries.map (fun entry => (entry.1, change entry.2))
  ascending := List.pairwise_map.mpr (map.ascending.imp id)

/-- Put a value under a key that has none yet; a key in use keeps its value. -/
def insertNew (map : BTreeMap κ ν) (key : κ) (value : ν) : BTreeMap κ ν :=
  if map.containsKey key then map else map.insert key value

-----------------------------------------------------------------------------------------
-- Maps are their entries
-----------------------------------------------------------------------------------------

@[ext] theorem ext_entries {left right : BTreeMap κ ν} (same : left.entries = right.entries)
    : left = right := by
  cases left; cases right; cases same; rfl

/-- Maps with the same members are equal, since both list them in ascending order. -/
theorem ext_mem {left right : BTreeMap κ ν}
    (same : ∀ entry, entry ∈ left.entries ↔ entry ∈ right.entries)
    : left = right :=
  ext_entries (left.ascending.ext right.ascending same)

@[simp] theorem empty_entries : (empty : BTreeMap κ ν).entries = [] := rfl

@[simp] theorem isEmpty_iff {map : BTreeMap κ ν} : map.isEmpty = true ↔ map.entries = [] := by
  simp [isEmpty]

@[simp] theorem insert_entries (map : BTreeMap κ ν) (key : κ) (value : ν)
    : (map.insert key value).entries
      = below key map.entries ++ (key, value) :: above key map.entries := rfl

@[simp] theorem mem_keys {map : BTreeMap κ ν} {key : κ}
    : key ∈ map.keys ↔ ∃ value, (key, value) ∈ map.entries := by
  simp [keys]

@[simp] theorem containsKey_iff {map : BTreeMap κ ν} {key : κ}
    : map.containsKey key = true ↔ key ∈ map.keys := by
  simp [containsKey]

theorem containsKey_eq_false {map : BTreeMap κ ν} {key : κ}
    : map.containsKey key = false ↔ key ∉ map.keys := by
  rw [← containsKey_iff, Bool.not_eq_true]

/-- A map is what lies before and after a key it does not hold. -/
theorem below_append_above (map : BTreeMap κ ν) {key : κ} (absent : key ∉ map.keys)
    : below key map.entries ++ above key map.entries = map.entries :=
  map.ascending.below_append_above (fun entry member same =>
    absent (mem_keys.mpr ⟨entry.2, same ▸ member⟩))

/-- A fresh entry joins the others. -/
theorem insert_perm (map : BTreeMap κ ν) {key : κ} (fresh : key ∉ map.keys) (value : ν)
    : (map.insert key value).entries.Perm ((key, value) :: map.entries) := by
  rw [insert_entries]
  conv_rhs => rw [← map.below_append_above fresh]
  exact List.perm_middle

/-- Insertion adds one entry at most. -/
theorem length_insert_le (map : BTreeMap κ ν) (key : κ) (value : ν)
    : (map.insert key value).entries.length ≤ map.entries.length + 1 := by
  have apart := length_below_add_above_le key map.entries
  rw [insert_entries, List.length_append, List.length_cons]
  omega

/-- Lookup finds exactly the value stored under the key. -/
theorem get?_eq_some {map : BTreeMap κ ν} {key : κ} {value : ν}
    : map.get? key = some value ↔ (key, value) ∈ map.entries := by
  simp only [get?, Option.map_eq_some_iff]
  constructor
  · intro lookup
    obtain ⟨entry, found, rfl⟩ := lookup
    have same : entry.1 = key := by simpa using List.find?_some found
    exact same ▸ List.mem_of_find?_eq_some found
  · intro member
    have present : (map.entries.find? (fun entry => decide (entry.1 = key))).isSome := by
      simpa using ⟨value, member⟩
    obtain ⟨entry, found⟩ := Option.isSome_iff_exists.mp present
    have same : entry.1 = key := by simpa using List.find?_some found
    have unique := map.ascending.entry_unique (List.mem_of_find?_eq_some found) member same
    exact ⟨entry, found, by rw [unique]⟩

/-- Insertion adds the new entry and keeps every entry under another key. -/
theorem mem_insert {map : BTreeMap κ ν} {key : κ} {value : ν} {entry : κ × ν}
    : entry ∈ (map.insert key value).entries
      ↔ entry = (key, value) ∨ (entry ∈ map.entries ∧ entry.1 ≠ key) := by
  have split := lt_or_lt_iff_ne (a := entry.1) (b := key)
  simp only [insert_entries, List.mem_append, List.mem_cons, mem_below, mem_above]
  tauto

/-- Lookup finds the inserted value under its key and the old values elsewhere. -/
theorem get?_insert (map : BTreeMap κ ν) (key : κ) (value : ν) (other : κ)
    : (map.insert key value).get? other
      = if other = key then some value else map.get? other := by
  refine Option.ext (fun found => ?_)
  rw [get?_eq_some, mem_insert]
  split
  next same => simp [same, eq_comm]
  next differ => simp [differ, get?_eq_some]

/-- Changing every value in place changes what lookup finds. -/
@[simp] theorem get?_mapValues {ω : Type v} (change : ν → ω) (map : BTreeMap κ ν) (key : κ)
    : (map.mapValues change).get? key = (map.get? key).map change := by
  simp [get?, mapValues, List.find?_map, Function.comp_def]

@[simp] theorem get?_empty (key : κ) : (empty : BTreeMap κ ν).get? key = none := rfl

/-- Insertion from a key on leaves the entries before the key alone. -/
theorem below_insert_of_le (map : BTreeMap κ ν) {low key : κ} (ordered : low ≤ key)
    (value : ν)
    : below low (map.insert key value).entries = below low map.entries := by
  have none : below low ((key, value) :: above key map.entries) = [] := by
    refine below_eq_nil (fun entry member => ?_)
    rcases List.mem_cons.mp member with rfl | later
    · exact ordered
    · exact ordered.trans (mem_above.mp later).2.le
  rw [insert_entries, below_append, none, List.append_nil, below_below_of_le ordered]

/-- The total weight of a map's values. -/
def weigh (weight : ν → Nat) (map : BTreeMap κ ν) : Nat :=
  (map.entries.map (fun entry => weight entry.2)).sum

theorem weigh_mapValues {ω : Type v} (weight : ω → Nat) (change : ν → ω) (map : BTreeMap κ ν)
    : (map.mapValues change).weigh weight = map.weigh (fun value => weight (change value)) := by
  rw [weigh, weigh, mapValues, List.map_map]
  rfl

/-- Insertion exchanges the weight of the value that was there for that of the new one. -/
theorem weigh_insert (weight : ν → Nat) (map : BTreeMap κ ν) (key : κ)
    : ∃ others,
        map.weigh weight = ((map.get? key).map weight).getD 0 + others
        ∧ ∀ value, (map.insert key value).weigh weight = weight value + others := by
  let weights (entries : List (κ × ν)) : Nat := (entries.map (fun entry => weight entry.2)).sum
  have joined (left right : List (κ × ν)) (value : ν)
      : weights (left ++ (key, value) :: right)
        = weight value + (weights left + weights right) := by
    simp only [weights, List.map_append, List.map_cons, List.sum_append, List.sum_cons]
    omega
  refine ⟨weights (below key map.entries) + weights (above key map.entries), ?_, ?_⟩
  · cases found : map.get? key with
    | none =>
        have absent : key ∉ map.keys := by
          intro present
          obtain ⟨old, member⟩ := mem_keys.mp present
          rw [get?_eq_some.mpr member] at found
          cases found
        have split := congrArg weights (map.below_append_above absent)
        simp only [weights, List.map_append, List.sum_append] at split
        rw [Option.map_none, Option.getD_none, Nat.zero_add]
        exact split.symm
    | some old =>
        obtain ⟨front, back, split⟩ := List.append_of_mem (get?_eq_some.mp found)
        have ascending := map.ascending
        rw [split] at ascending
        rw [Option.map_some, Option.getD_some, split, below_split ascending,
          above_split ascending, weigh, split]
        exact joined front back old
  · intro value
    exact joined _ _ value

-----------------------------------------------------------------------------------------
-- Ranges as cuts
-----------------------------------------------------------------------------------------

@[simp] theorem range_unbounded (map : BTreeMap κ ν)
    : map.range .unbounded .unbounded = map.entries := by
  simp [range, Bound.opensAt, Bound.closesAt]

@[simp] theorem range_excluded_unbounded (map : BTreeMap κ ν) (key : κ)
    : map.range (.excluded key) .unbounded = above key map.entries := by
  simp [range, Bound.opensAt, Bound.closesAt, above]

@[simp] theorem range_included_unbounded (map : BTreeMap κ ν) (key : κ)
    : map.range (.included key) .unbounded = atLeast key map.entries := by
  simp [range, Bound.opensAt, Bound.closesAt, atLeast]

@[simp] theorem range_unbounded_excluded (map : BTreeMap κ ν) (key : κ)
    : map.range .unbounded (.excluded key) = below key map.entries := by
  simp [range, Bound.opensAt, Bound.closesAt, below]

@[simp] theorem range_unbounded_included (map : BTreeMap κ ν) (key : κ)
    : map.range .unbounded (.included key) = upTo key map.entries := by
  simp [range, Bound.opensAt, Bound.closesAt, upTo]

@[simp] theorem range_excluded_excluded (map : BTreeMap κ ν) (low high : κ)
    : map.range (.excluded low) (.excluded high) = above low (below high map.entries) := by
  simp [range, Bound.opensAt, Bound.closesAt, above, below, List.filter_filter]

/-- A range that ends before a key is the part before the key, cut at the start. -/
theorem range_excluded_right (map : BTreeMap κ ν) (start : Bound κ) (high : κ)
    : map.range start (.excluded high)
      = (below high map.entries).filter (fun entry => start.opensAt entry.1) := by
  simp only [range, below, List.filter_filter, Bound.closesAt]

/-- A range call that ends before a key reads the entries before it, and whether there are
entries at all, as a map that was never filled answers for malformed ends too.
-/
theorem range?_excluded_congr {left right : BTreeMap κ ν} {high : κ}
    (alike : left.isEmpty = right.isEmpty)
    (same : below high left.entries = below high right.entries) (emptied : Bool)
    (start : Bound κ)
    : left.range? emptied start (.excluded high) = right.range? emptied start (.excluded high) := by
  rw [range?, range?, alike, range_excluded_right, range_excluded_right, same]

-----------------------------------------------------------------------------------------
-- Entries in another order
-----------------------------------------------------------------------------------------

/-- Another order has the same entries, as each key only moves its own to the front. -/
theorem inOrder_perm (map : BTreeMap κ ν) (keys : List κ)
    : (map.inOrder keys).Perm map.entries := by
  induction keys with
  | nil => exact List.Perm.refl _
  | cons key rest ih => exact (List.filter_append_perm _ _).trans ih

theorem weigh_inOrder (weight : ν → Nat) (map : BTreeMap κ ν) (keys : List κ)
    : ((map.inOrder keys).map (fun entry => weight entry.2)).sum = map.weigh weight :=
  ((map.inOrder_perm keys).map _).sum_nat

/-- Every order of the entries is that of their keys, by induction on the keys moved so far. -/
theorem inOrder_of_perm (map : BTreeMap κ ν) {entries : List (κ × ν)}
    (perm : entries.Perm map.entries)
    : map.inOrder (entries.map Prod.fst) = entries := by
  have distinct : entries.Pairwise (fun first second => first.1 ≠ second.1) :=
    (map.ascending.imp (fun before => before.ne)).perm perm.symm (fun apart => apart.symm)
  have moved (front back : List (κ × ν)) (split : entries = front ++ back)
      : map.inOrder (back.map Prod.fst)
        = back ++ map.entries.filter (fun entry => decide (entry.1 ∉ back.map Prod.fst)) := by
    induction back generalizing front with
    | nil => simp [inOrder]
    | cons entry back ih =>
        have rest := ih (front ++ [entry]) (by simp [split])
        rw [split] at distinct perm
        obtain ⟨_, later, earlier⟩ := List.pairwise_append.mp distinct
        have apart : ∀ other ∈ back, ¬ other.1 = entry.1 :=
          fun other member same => (List.pairwise_cons.mp later).1 other member same.symm
        have before : ∀ other ∈ front, ¬ other.1 = entry.1 :=
          fun other member => earlier other member entry (.head _)
        have none {list : List (κ × ν)} (all : ∀ other ∈ list, ¬ other.1 = entry.1)
            : list.filter (fun other => decide (other.1 = entry.1)) = [] :=
          List.filter_eq_nil_iff.mpr (fun other member => by simpa using all other member)
        have first : (map.inOrder (back.map Prod.fst)).filter
              (fun other => decide (other.1 = entry.1))
            = [entry] := by
          have whole := ((map.inOrder_perm (back.map Prod.fst)).trans perm.symm).filter
            (fun other => decide (other.1 = entry.1))
          rw [List.filter_append front, List.filter_cons_of_pos (by simp), none before,
            none apart] at whole
          exact List.perm_singleton.mp whole
        have others : (map.inOrder (back.map Prod.fst)).filter
              (fun other => !decide (other.1 = entry.1))
            = back ++ map.entries.filter
                (fun other => decide (other.1 ∉ (entry :: back).map Prod.fst)) := by
          have kept : back.filter (fun other => !decide (other.1 = entry.1)) = back :=
            List.filter_eq_self.mpr (fun other member => by simpa using apart other member)
          rw [rest, List.filter_append, kept, List.filter_filter]
          refine congrArg (back ++ ·) (List.filter_congr (fun other _ => ?_))
          simp only [List.map_cons, List.mem_cons, not_or, Bool.decide_and, decide_not]
        have step : map.inOrder ((entry :: back).map Prod.fst)
            = (map.inOrder (back.map Prod.fst)).filter (fun other => decide (other.1 = entry.1))
              ++ (map.inOrder (back.map Prod.fst)).filter
                  (fun other => !decide (other.1 = entry.1)) := rfl
        rw [step, first, others, List.singleton_append, List.cons_append]
  have all := moved [] entries rfl
  have nothing
      : map.entries.filter (fun entry => decide (entry.1 ∉ entries.map Prod.fst)) = [] :=
    List.filter_eq_nil_iff.mpr (fun entry member => by
      simpa using ⟨entry.2, perm.symm.subset member⟩)
  rwa [nothing, List.append_nil] at all

-----------------------------------------------------------------------------------------
-- Filling a map from deliveries
-----------------------------------------------------------------------------------------

/-- The map that a sequence of deliveries fills, first delivery of a key first. -/
def ofList (deliveries : List (κ × ν)) : BTreeMap κ ν :=
  deliveries.foldl (fun map entry => map.insertNew entry.1 entry.2) empty

/-- Deliveries under one key carry one value. -/
def Consistent (deliveries : List (κ × ν)) : Prop :=
  ∀ left ∈ deliveries, ∀ right ∈ deliveries, left.1 = right.1 → left = right

theorem mem_keys_insertNew {map : BTreeMap κ ν} {key other : κ} {value : ν}
    : other ∈ (map.insertNew key value).keys ↔ other = key ∨ other ∈ map.keys := by
  by_cases present : map.containsKey key = true
  · simp only [insertNew, present, if_true]
    exact ⟨Or.inr, fun h => h.elim (fun same => same ▸ containsKey_iff.mp present) id⟩
  · simp only [insertNew, present, Bool.false_eq_true, if_false, mem_keys, mem_insert,
      Prod.mk.injEq, ne_eq]
    by_cases same : other = key
    · simp [same]
    · simp [same]

/-- A value under a free key leaves the other entries in their order. -/
theorem sublist_insert {map : BTreeMap κ ν} {key : κ} (fresh : key ∉ map.keys) (value : ν)
    : map.entries.Sublist (map.insert key value).entries := by
  conv_lhs => rw [← map.below_append_above fresh]
  rw [insert_entries]
  exact (List.Sublist.refl _).append (List.sublist_cons_self _ _)

theorem sublist_insertNew (map : BTreeMap κ ν) (key : κ) (value : ν)
    : map.entries.Sublist (map.insertNew key value).entries := by
  unfold insertNew
  split
  next => exact List.Sublist.refl _
  next fresh => exact sublist_insert (mt containsKey_iff.mpr fresh) value

/-- Putting a value under a free key adds at most its entry. -/
theorem mem_insertNew_imp {map : BTreeMap κ ν} {key : κ} {value : ν} {entry : κ × ν}
    (member : entry ∈ (map.insertNew key value).entries)
    : entry = (key, value) ∨ entry ∈ map.entries := by
  unfold insertNew at member
  split at member
  · exact Or.inr member
  · exact (mem_insert.mp member).imp id And.left

/-- A map that is filled holds delivered entries only. -/
theorem mem_of_mem_ofList {deliveries : List (κ × ν)} {entry : κ × ν}
    (member : entry ∈ (ofList deliveries).entries)
    : entry ∈ deliveries := by
  have general (map : BTreeMap κ ν)
      (filled
        : entry
          ∈ (deliveries.foldl (fun map entry => map.insertNew entry.1 entry.2) map).entries)
      : entry ∈ map.entries ∨ entry ∈ deliveries := by
    clear member
    induction deliveries generalizing map with
    | nil => exact Or.inl filled
    | cons first rest ih =>
        rcases ih _ filled with earlier | later
        · rcases mem_insertNew_imp earlier with rfl | stored
          · exact Or.inr (.head _)
          · exact Or.inl stored
        · exact Or.inr (.tail _ later)
  exact (general empty member).resolve_left List.not_mem_nil

/-- Further deliveries leave the entries that a map has in their order. -/
theorem sublist_ofList_append (first second : List (κ × ν))
    : (ofList first).entries.Sublist (ofList (first ++ second)).entries := by
  rw [ofList, ofList, List.foldl_append]
  generalize first.foldl (fun map entry => map.insertNew entry.1 entry.2) empty = map
  induction second generalizing map with
  | nil => exact List.Sublist.refl _
  | cons entry rest ih => exact (map.sublist_insertNew entry.1 entry.2).trans (ih _)

/-- Filling a map uses exactly the delivered keys. -/
theorem mem_keys_ofList {deliveries : List (κ × ν)} {key : κ}
    : key ∈ (ofList deliveries).keys ↔ ∃ entry ∈ deliveries, entry.1 = key := by
  have general (map : BTreeMap κ ν)
      : key ∈ (deliveries.foldl (fun map entry => map.insertNew entry.1 entry.2) map).keys
        ↔ key ∈ map.keys ∨ ∃ entry ∈ deliveries, entry.1 = key := by
    induction deliveries generalizing map with
    | nil => simp
    | cons first rest ih =>
        have first_or_rest
            : (∃ entry ∈ first :: rest, entry.1 = key)
              ↔ first.1 = key ∨ ∃ entry ∈ rest, entry.1 = key := by
          simp only [List.mem_cons, or_and_right, exists_or, exists_eq_left]
        rw [List.foldl_cons, ih, mem_keys_insertNew, first_or_rest, eq_comm (a := key)]
        tauto
  have filled := general empty
  have nothing : key ∉ (empty : BTreeMap κ ν).keys := by simp
  rw [ofList, filled]
  tauto

/-- Filling on top of a map adds the deliveries under keys that it does not hold. -/
theorem mem_foldl_insertNew (deliveries : List (κ × ν)) (map : BTreeMap κ ν)
    (consistent : Consistent deliveries) (entry : κ × ν)
    : entry ∈ (deliveries.foldl (fun map entry => map.insertNew entry.1 entry.2) map).entries
      ↔ entry ∈ map.entries ∨ (entry ∈ deliveries ∧ entry.1 ∉ map.keys) := by
  induction deliveries generalizing map with
  | nil => simp
  | cons first rest ih =>
      have kept : Consistent rest := fun left ml right mr =>
        consistent left (.tail _ ml) right (.tail _ mr)
      rw [List.foldl_cons, ih _ kept]
      by_cases present : first.1 ∈ map.keys
      · have unchanged : map.insertNew first.1 first.2 = map := by
          rw [insertNew, if_pos (containsKey_iff.mpr present)]
        rw [unchanged]
        refine or_congr_right (and_congr_left (fun fresh => ?_))
        have differ : entry ≠ first := fun same => fresh (same ▸ present)
        simp [differ]
      · have inserted : map.insertNew first.1 first.2 = map.insert first.1 first.2 := by
          rw [insertNew, if_neg (by simpa using present)]
        have stored (member : entry ∈ map.entries) : entry.1 ≠ first.1 :=
          fun same => present (mem_keys.mpr ⟨entry.2, same ▸ member⟩)
        rw [mem_keys_insertNew, inserted, mem_insert]
        constructor
        · intro filled
          rcases filled with (rfl | ⟨member, _⟩) | ⟨member, fresh⟩
          · exact Or.inr ⟨.head _, present⟩
          · exact Or.inl member
          · exact Or.inr ⟨.tail _ member, fun found => fresh (Or.inr found)⟩
        · intro filled
          rcases filled with member | ⟨member, fresh⟩
          · exact Or.inl (Or.inr ⟨member, stored member⟩)
          rcases List.mem_cons.mp member with rfl | later
          · exact Or.inl (Or.inl rfl)
          · -- A later delivery under the first one's key is the first one.
            by_cases same : entry.1 = first.1
            · exact Or.inl (Or.inl (consistent entry member first (.head _) same))
            · exact Or.inr ⟨later, fun found => found.elim same fresh⟩

/-- On top of any map, the order and the repetition of consistent deliveries leave no trace.
-/
theorem foldl_insertNew_eq_of_same_members {left right : List (κ × ν)} (map : BTreeMap κ ν)
    (consistent : Consistent left) (same : ∀ entry, entry ∈ left ↔ entry ∈ right)
    : left.foldl (fun map entry => map.insertNew entry.1 entry.2) map
      = right.foldl (fun map entry => map.insertNew entry.1 entry.2) map := by
  have other : Consistent right := fun a ma b mb =>
    consistent a ((same a).mpr ma) b ((same b).mpr mb)
  refine ext_mem (fun entry => ?_)
  rw [mem_foldl_insertNew left map consistent, mem_foldl_insertNew right map other, same]

/-- Consistent deliveries fill a map with exactly the delivered entries. -/
theorem mem_ofList {deliveries : List (κ × ν)} (consistent : Consistent deliveries)
    (entry : κ × ν)
    : entry ∈ (ofList deliveries).entries ↔ entry ∈ deliveries := by
  have filled := mem_foldl_insertNew deliveries empty consistent entry
  simpa [ofList] using filled

/-- The order and the repetition of consistent deliveries leave no trace in the map. -/
theorem ofList_eq_of_same_members {left right : List (κ × ν)} (consistent : Consistent left)
    (same : ∀ entry, entry ∈ left ↔ entry ∈ right)
    : ofList left = ofList right :=
  foldl_insertNew_eq_of_same_members empty consistent same

end BTreeMap
