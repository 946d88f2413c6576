import Mathlib.Algebra.BigOperators.Group.Finset.Piecewise
import Mathlib.Algebra.Order.BigOperators.Group.Finset
import Mathlib.Algebra.Ring.Int.Defs
import Mathlib.Data.Fintype.Basic

/-! A ledger of signed postings by several accounts, and balances that no posting overdraws. -/

open scoped BigOperators

namespace Ledger

universe u
variable {Account : Type u}

/-- The sum of all postings. -/
def total (postings : List (Account × Int)) : Int := (postings.map Prod.snd).sum

@[simp] theorem total_nil : total ([] : List (Account × Int)) = 0 := rfl

@[simp] theorem total_append (left right : List (Account × Int))
    : total (left ++ right) = total left + total right := by
  simp [total]

@[simp] theorem total_singleton (account : Account) (amount : Int)
    : total [(account, amount)] = amount := by
  simp [total]

section Balance
variable [DecidableEq Account]

/-- What one account has posted, in order. -/
def amounts (account : Account) (postings : List (Account × Int)) : List Int :=
  (postings.filter (fun posting => decide (posting.1 = account))).map Prod.snd

/-- The sum of what one account has posted. -/
def balance (account : Account) (postings : List (Account × Int)) : Int :=
  (amounts account postings).sum

@[simp] theorem amounts_nil (account : Account) : amounts account [] = [] := rfl

@[simp] theorem amounts_append (account : Account) (left right : List (Account × Int))
    : amounts account (left ++ right) = amounts account left ++ amounts account right := by
  simp [amounts]

@[simp] theorem amounts_own (account : Account) (values : List Int)
    : amounts account (values.map (account, ·)) = values := by
  simp [amounts, List.filter_map, Function.comp_def]

theorem amounts_other {account other : Account} (differ : other ≠ account) (values : List Int)
    : amounts account (values.map (other, ·)) = [] := by
  simp [amounts, List.filter_map, Function.comp_def, differ]

@[simp] theorem balance_append (account : Account) (left right : List (Account × Int))
    : balance account (left ++ right) = balance account left + balance account right := by
  simp [balance]

/-- The total is the sum of the balances. -/
theorem total_eq_sum_balance [Fintype Account] (postings : List (Account × Int))
    : total postings = ∑ account, balance account postings := by
  induction postings with
  | nil => simp [total, balance]
  | cons posting rest ih =>
      have split (account : Account)
          : balance account (posting :: rest)
            = (if posting.1 = account then posting.2 else 0) + balance account rest := by
        by_cases own : posting.1 = account <;> simp [balance, amounts, own]
      have own : ∑ account, (if posting.1 = account then posting.2 else 0) = posting.2 := by
        simp
      rw [Finset.sum_congr rfl (fun account _ => split account), Finset.sum_add_distrib, own, ← ih]
      simp [total]

/-- Where no account is overdrawn, the total is not. -/
theorem total_nonneg [Fintype Account] {postings : List (Account × Int)}
    (balances : ∀ account, 0 ≤ balance account postings)
    : 0 ≤ total postings := by
  rw [total_eq_sum_balance]
  exact Finset.sum_nonneg (fun account _ => balances account)

/-- Where no account is overdrawn, none has more than the total. -/
theorem balance_le_total [Fintype Account] {postings : List (Account × Int)}
    (account : Account) (balances : ∀ account, 0 ≤ balance account postings)
    : balance account postings ≤ total postings := by
  rw [total_eq_sum_balance]
  exact Finset.single_le_sum (fun other _ => balances other) (Finset.mem_univ account)

end Balance

/-- No amount that is still to be posted overdraws the balance. -/
def Solvent : Int → List Int → Prop
  | balance, [] => 0 ≤ balance
  | balance, amount :: rest => 0 ≤ balance ∧ Solvent (balance + amount) rest

theorem Solvent.nonneg {balance : Int} {pending : List Int} (solvent : Solvent balance pending)
    : 0 ≤ balance := by
  cases pending with
  | nil => exact solvent
  | cons amount rest => exact solvent.1

/-- A larger balance is no harder to keep. -/
theorem Solvent.mono {balance larger : Int} {pending : List Int}
    (solvent : Solvent balance pending) (more : balance ≤ larger)
    : Solvent larger pending := by
  induction pending generalizing balance larger with
  | nil => exact Int.le_trans solvent more
  | cons amount rest ih =>
      exact ⟨Int.le_trans solvent.1 more, ih solvent.2 (Int.add_le_add_right more amount)⟩

theorem Solvent.append {balance : Int} {first second : List Int}
    (before : Solvent balance first) (after : Solvent (balance + first.sum) second)
    : Solvent balance (first ++ second) := by
  induction first generalizing balance with
  | nil => simpa using after
  | cons amount rest ih =>
      rw [List.sum_cons, ← Int.add_assoc] at after
      exact ⟨before.1, ih before.2 after⟩

/-- The amounts lead from any balance that covers the need before to one that covers the need
after, and overdraw none of them.
-/
def Pays (before after : Nat) (pending : List Int) : Prop :=
  ∀ balance : Int, (before : Int) ≤ balance
  → Solvent balance pending ∧ (after : Int) ≤ balance + pending.sum

theorem Pays.nil (need : Nat) : Pays need need [] := by
  intro balance covered
  refine ⟨?_, by simpa using covered⟩
  exact Int.le_trans (Int.natCast_nonneg need) covered

theorem pays_singleton {before after : Nat} {amount : Int}
    (enough : (after : Int) ≤ before + amount)
    : Pays before after [amount] := by
  intro balance covered
  have least : (after : Int) ≤ balance + amount := by omega
  refine ⟨⟨?_, ?_⟩, by simpa using least⟩
  · exact Int.le_trans (Int.natCast_nonneg before) covered
  · exact Int.le_trans (Int.natCast_nonneg after) least

theorem Pays.append {before between after : Nat} {first second : List Int}
    (left : Pays before between first) (right : Pays between after second)
    : Pays before after (first ++ second) := by
  intro balance covered
  obtain ⟨solvent, enough⟩ := left balance covered
  obtain ⟨later, last⟩ := right (balance + first.sum) enough
  refine ⟨solvent.append later, ?_⟩
  rw [List.sum_append, ← Int.add_assoc]
  exact last

/-- Needs that stay the same may be added on both sides. -/
theorem Pays.frame {before after : Nat} {pending : List Int} (pays : Pays before after pending)
    (others : Nat)
    : Pays (before + others) (after + others) pending := by
  intro balance covered
  obtain ⟨solvent, enough⟩ := pays (balance - others) (by omega)
  exact ⟨solvent.mono (by omega), by omega⟩

end Ledger
