import Mathlib.Algebra.BigOperators.Group.Finset.Basic
import Mathlib.Algebra.GroupWithZero.Nat
import Mathlib.Algebra.Order.BigOperators.Group.Finset
import Mathlib.Algebra.Ring.Int.Defs
import Mathlib.Data.Fintype.Basic

/-! Sums in which one summand is exchanged for another. -/

open scoped BigOperators

namespace Exchange

universe u v w
variable {Entry : Type u} {Index : Type v}

/-- Changing one entry of a list exchanges its weight. -/
theorem sum_modify {Weight : Type w} [AddCommMonoid Weight] (weight : Entry → Weight)
    (change : Entry → Entry) {entries : List Entry} {index : Nat} {entry : Entry}
    (found : entries[index]? = some entry)
    : ((entries.modify index change).map weight).sum + weight entry
      = (entries.map weight).sum + weight (change entry) := by
  induction entries generalizing index with
  | nil => simp at found
  | cons first rest ih =>
      cases index with
      | zero =>
          obtain rfl : first = entry := by simpa using found
          rw [List.modify_zero_cons, List.map_cons, List.map_cons, List.sum_cons, List.sum_cons]
          ac_rfl
      | succ index =>
          have later := ih (by simpa using found)
          rw [List.modify_succ_cons, List.map_cons, List.map_cons, List.sum_cons, List.sum_cons,
            add_assoc, later, add_assoc]

/-- Updating a family at one index exchanges the weight there. -/
theorem sum_update [Fintype Index] [DecidableEq Index] (weight : Entry → Nat)
    (family : Index → Entry) (index : Index) (entry : Entry)
    : (∑ other, weight (Function.update family index entry other)) + weight (family index)
      = (∑ other, weight (family other)) + weight entry := by
  have others : ∑ other ∈ Finset.univ.erase index, weight (Function.update family index entry other)
      = ∑ other ∈ Finset.univ.erase index, weight (family other) := by
    refine Finset.sum_congr rfl (fun other member => ?_)
    rw [Function.update_of_ne (Finset.ne_of_mem_erase member)]
  have before := Finset.add_sum_erase Finset.univ (fun other => weight (family other))
    (Finset.mem_univ index)
  have after := Finset.add_sum_erase Finset.univ
    (fun other => weight (Function.update family index entry other)) (Finset.mem_univ index)
  rw [others, Function.update_self] at after
  omega

/-- A sum over a family falls when one summand falls and no other rises. -/
theorem sum_lt_of_update [Fintype Index] {before after : Index → Nat}
    (changed : Index) (falls : after changed < before changed)
    (others : ∀ index, index ≠ changed → after index = before index)
    : ∑ index, after index < ∑ index, before index := by
  refine Finset.sum_lt_sum (fun index _ => ?_) ⟨changed, Finset.mem_univ _, falls⟩
  by_cases own : index = changed
  · exact Nat.le_of_lt (own ▸ falls)
  · exact Nat.le_of_eq (others index own)

/-- A sum over a list falls when one entry changes to a lighter one. -/
theorem sum_lt_of_modify (weight : Entry → Nat) (change : Entry → Entry) {entries : List Entry}
    {index : Nat} {entry : Entry} (found : entries[index]? = some entry)
    (falls : weight (change entry) < weight entry)
    : ((entries.modify index change).map weight).sum < (entries.map weight).sum := by
  have exchanged := sum_modify weight change found
  omega

/-- Weights that are not positive have no positive sum. -/
theorem sum_nonpos {weights : List Int} (nonpos : ∀ weight ∈ weights, weight ≤ 0)
    : weights.sum ≤ 0 := by
  induction weights with
  | nil => exact Int.le_refl 0
  | cons weight rest ih =>
      have first := nonpos weight (.head _)
      have later := ih (fun other member => nonpos other (.tail _ member))
      rw [List.sum_cons]
      omega

end Exchange
