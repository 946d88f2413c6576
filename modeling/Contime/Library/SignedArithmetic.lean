import Mathlib.Algebra.Ring.Int.Defs
import Mathlib.Algebra.Group.Nat.Defs

/-! Sums and differences of 64-bit integers, which are exact where they do not overflow and
residues of the exact values where they do.
-/

namespace SignedArithmetic

/-- The integers that a 64-bit integer holds. -/
def Fits (value : Int) : Prop := -2 ^ 63 ≤ value ∧ value < 2 ^ 63

instance (value : Int) : Decidable (Fits value) := inferInstanceAs (Decidable (_ ∧ _))

variable {left right : Int64}

/-- A sum that fits is exact. -/
theorem toInt_add_of_fits (fits : Fits (left.toInt + right.toInt))
    : (left + right).toInt = left.toInt + right.toInt := by
  obtain ⟨low, high⟩ := fits
  rw [Int64.toInt_add]
  exact Int.bmod_eq_of_le (by omega) (by omega)

/-- A difference that fits is exact. -/
theorem toInt_sub_of_fits (fits : Fits (left.toInt - right.toInt))
    : (left - right).toInt = left.toInt - right.toInt := by
  obtain ⟨low, high⟩ := fits
  rw [Int64.toInt_sub]
  exact Int.bmod_eq_of_le (by omega) (by omega)

/-- A difference of small counts is exact. -/
theorem toInt_ofNat_sub {before after : Nat} (start : before < 2 ^ 63) (stop : after < 2 ^ 63)
    : (Int64.ofNat after - Int64.ofNat before).toInt = after - before := by
  have first := Int64.toInt_ofNat_of_lt start
  have second := Int64.toInt_ofNat_of_lt stop
  have fits : Fits ((Int64.ofNat after).toInt - (Int64.ofNat before).toInt) := by
    rw [first, second]
    constructor <;> omega
  rw [toInt_sub_of_fits fits, first, second]

/-- A wrapping difference of small counts is the difference of the integers. -/
theorem eq_ofNat_sub_iff {delta : Int64} {before after : Nat} (start : before < 2 ^ 63)
    (stop : after < 2 ^ 63)
    : delta = Int64.ofNat after - Int64.ofNat before ↔ delta.toInt = after - before := by
  rw [← Int64.toInt_inj, toInt_ofNat_sub start stop]

-----------------------------------------------------------------------------------------
-- Residues of exact values
-----------------------------------------------------------------------------------------

/-- Adding to the residue of an exact value gives the residue of the exact sum. -/
theorem toInt_add_of_residue {exact : Int} (residue : left.toInt = exact.bmod (2 ^ 64))
    : (left + right).toInt = (exact + right.toInt).bmod (2 ^ 64) := by
  rw [Int64.toInt_add, residue]
  exact Int.bmod_add_bmod

/-- Subtracting from the residue of an exact value gives that of the exact difference. -/
theorem toInt_sub_of_residue {exact : Int} (residue : left.toInt = exact.bmod (2 ^ 64))
    : (left - right).toInt = (exact - right.toInt).bmod (2 ^ 64) := by
  rw [Int64.toInt_sub, residue]
  exact Int.bmod_sub_bmod

/-- A machine integer is its own residue. -/
theorem toInt_eq_residue (value : Int64) : value.toInt = value.toInt.bmod (2 ^ 64) := by
  have low := Int64.le_toInt value
  have high := Int64.toInt_lt value
  exact (Int.bmod_eq_of_le (by omega) (by omega)).symm

/-- Only an exact value below the range has a larger residue. -/
theorem residue_le {exact : Int} (low : -2 ^ 63 ≤ exact) : exact.bmod (2 ^ 64) ≤ exact := by
  rw [Int.bmod]
  split <;> omega

/-- The machine sum of a sequence is the residue of the exact one, by induction on the
sequence from any sum that is such a residue.
-/
theorem toInt_foldl_add (start : Int64) (amounts : List Int64)
    : (amounts.foldl (· + ·) start).toInt
      = (start.toInt + (amounts.map Int64.toInt).sum).bmod (2 ^ 64) := by
  have general (exact : Int) (value : Int64) (residue : value.toInt = exact.bmod (2 ^ 64))
      : (amounts.foldl (· + ·) value).toInt
        = (exact + (amounts.map Int64.toInt).sum).bmod (2 ^ 64) := by
    induction amounts generalizing exact value with
    | nil => simpa using residue
    | cons amount rest ih =>
        rw [List.foldl_cons, ih _ _ (toInt_add_of_residue residue), List.map_cons,
          List.sum_cons, Int.add_assoc]
  exact general _ _ (toInt_eq_residue start)

/-- The exact sums of the first numbers of a sequence, one for each number. -/
def runningSums (start : Int) : List Int64 → List Int
  | [] => []
  | amount :: rest => (start + amount.toInt) :: runningSums (start + amount.toInt) rest

/-- The running sums of a sequence go on from the sum of its first part. -/
theorem runningSums_append (start : Int) (first second : List Int64)
    : runningSums start (first ++ second)
      = runningSums start first
        ++ runningSums (start + (first.map Int64.toInt).sum) second := by
  induction first generalizing start with
  | nil => simp [runningSums]
  | cons amount rest ih =>
      simp only [List.cons_append, runningSums, ih, List.map_cons, List.sum_cons,
        Int.add_assoc]

/-- Numbers that are not negative keep every running sum from falling below the start. -/
theorem le_of_mem_runningSums {start sum : Int} {amounts : List Int64}
    (forward : ∀ amount ∈ amounts, 0 ≤ amount.toInt) (member : sum ∈ runningSums start amounts)
    : start ≤ sum := by
  induction amounts generalizing start with
  | nil => exact absurd member List.not_mem_nil
  | cons amount rest ih =>
      have own := forward amount (.head _)
      rcases List.mem_cons.mp member with rfl | later
      · omega
      · have behind := ih (fun other found => forward other (.tail _ found)) later
        omega

-----------------------------------------------------------------------------------------
-- Signed and unsigned readings
-----------------------------------------------------------------------------------------

variable {value : Int64}

/-- The bits of an integer read as an unsigned one. -/
theorem toInt_eq_toUInt64 (value : Int64)
    : value.toInt
      = if 2 * value.toUInt64.toNat < 2 ^ 64 then (value.toUInt64.toNat : Int)
        else value.toUInt64.toNat - (2 ^ 64 : Nat) :=
  BitVec.toInt_eq_toNat_cond value.toBitVec

/-- A positive integer keeps its value as an unsigned one. -/
theorem toUInt64_of_nonneg (nonneg : 0 ≤ value)
    : (value.toUInt64.toNat : Int) = value.toInt := by
  have signed := toInt_eq_toUInt64 value
  have positive : 0 ≤ value.toInt := by simpa using Int64.le_iff_toInt_le.mp nonneg
  have range := value.toUInt64.toNat_lt
  split at signed <;> omega

/-- The amount of a negative integer is its negation, even for the least one. -/
theorem neg_toUInt64_of_neg (negative : value < 0)
    : ((-value).toUInt64.toNat : Int) = -value.toInt := by
  have signed := toInt_eq_toUInt64 value
  have below : value.toInt < 0 := by simpa using Int64.lt_iff_toInt_lt.mp negative
  have negated : (-value).toUInt64.toNat = (2 ^ 64 - value.toUInt64.toNat) % 2 ^ 64 :=
    BitVec.toNat_neg value.toBitVec
  have range := value.toUInt64.toNat_lt
  split at signed <;> omega

end SignedArithmetic
