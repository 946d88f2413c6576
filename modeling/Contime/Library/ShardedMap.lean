import Contime.Library.BTreeMap
import Mathlib.Algebra.BigOperators.Group.Finset.Basic
import Mathlib.Data.Fintype.Basic

/-! One map whose entries are spread over several ones, each key with its owner. What all of them
hold together depends on the lookups alone, and neither on their number nor on the owners.
-/

open scoped BigOperators
open SortedEntries

universe u v w x
variable {κ : Type u} {ν : Type v} [LinearOrder κ] {Index : Type w} {Other : Type x}

/-- Maps, one for each index, that have only the keys they own. -/
structure ShardedMap (κ : Type u) (ν : Type v) [LinearOrder κ] (Index : Type w) where
  owner : κ → Index
  shards : Index → BTreeMap κ ν
  owned : ∀ index key value, (shards index).get? key = some value → owner key = index

namespace ShardedMap

/-- The value of a key is with its owner. -/
def get? (map : ShardedMap κ ν Index) (key : κ) : Option ν := (map.shards (map.owner key)).get? key

/-- All entries, shard after shard. -/
noncomputable def entries [Fintype Index] (map : ShardedMap κ ν Index) : List (κ × ν) :=
  Finset.univ.toList.flatMap (fun index => (map.shards index).entries)

variable [Fintype Index] [Fintype Other]

theorem mem_entries {map : ShardedMap κ ν Index} {key : κ} {value : ν}
    : (key, value) ∈ map.entries ↔ map.get? key = some value := by
  rw [entries, List.mem_flatMap]
  constructor
  · intro present
    obtain ⟨index, _, member⟩ := present
    have found := BTreeMap.get?_eq_some.mpr member
    rw [get?, map.owned index key value found]
    exact found
  · intro found
    exact ⟨map.owner key, Finset.mem_toList.mpr (Finset.mem_univ _),
      BTreeMap.get?_eq_some.mp found⟩

/-- No entry stands twice. -/
theorem nodup_entries (map : ShardedMap κ ν Index) : map.entries.Nodup := by
  refine List.nodup_flatMap.mpr ⟨fun index _ => ?_, ?_⟩
  · exact (map.shards index).ascending.imp (fun before same => absurd (same ▸ before) (lt_irrefl _))
  · refine (Finset.nodup_toList Finset.univ).imp (fun differ => ?_)
    intro entry first second
    have one := map.owned _ entry.1 entry.2 (BTreeMap.get?_eq_some.mpr first)
    have two := map.owned _ entry.1 entry.2 (BTreeMap.get?_eq_some.mpr second)
    exact differ (one.symm.trans two)

/-- The same lookups come from the same entries. -/
theorem entries_perm {left : ShardedMap κ ν Index} {right : ShardedMap κ ν Other}
    (same : ∀ key, left.get? key = right.get? key)
    : left.entries.Perm right.entries := by
  refine (List.perm_ext_iff_of_nodup left.nodup_entries right.nodup_entries).mpr ?_
  intro entry
  rw [mem_entries, mem_entries, same]

theorem sum_weigh (map : ShardedMap κ ν Index) (weight : ν → Nat)
    : ∑ index, (map.shards index).weigh weight
      = (map.entries.map (fun entry => weight entry.2)).sum := by
  rw [← Finset.sum_map_toList, entries, List.map_flatMap, List.flatMap_def, List.sum_flatten,
    List.map_map]
  rfl

/-- The same lookups weigh the same in total, however they are spread. -/
theorem sum_weigh_congr {left : ShardedMap κ ν Index} {right : ShardedMap κ ν Other}
    (same : ∀ key, left.get? key = right.get? key) (weight : ν → Nat)
    : ∑ index, (left.shards index).weigh weight = ∑ index, (right.shards index).weigh weight := by
  rw [sum_weigh, sum_weigh]
  exact ((entries_perm same).map _).sum_eq

end ShardedMap
