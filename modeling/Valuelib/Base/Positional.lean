import Mathlib.Algebra.Ring.Int.Defs
import Mathlib.Data.List.Basic
import Mathlib.Algebra.Ring.Nat

namespace Positional

variable {b k : Nat}

/-- The last `k` digits, by division that truncates toward zero: those of a
negative number are negative. -/
def digits (b : Nat) : Nat → Int → List Int
  | 0, _ => []
  | k + 1, n => digits b k (n.tdiv b) ++ [n.tmod b]

def value (b : Nat) (ds : List Int) : Int := ds.foldl (fun n d => b * n + d) 0

theorem tdiv_sign (n : Int) : (0 ≤ n → 0 ≤ n.tdiv b) ∧ (n ≤ 0 → n.tdiv b ≤ 0) := by
  have hb : (0 : Int) ≤ b := Int.natCast_nonneg b
  constructor
  · intro h
    exact Int.tdiv_nonneg h hb
  · intro h
    have hneg := Int.tdiv_nonneg (show 0 ≤ -n by omega) hb
    rw [Int.neg_tdiv] at hneg
    omega

/-- Division brings a number closer to zero, so it keeps to any bounds around it. -/
theorem le_tdiv {l n : Int} (hl : l ≤ 0) (h : l ≤ n) : l ≤ n.tdiv b := by
  have habs := Int.natAbs_tdiv_le_natAbs n b
  have hsign := tdiv_sign (b := b) n
  omega

theorem tdiv_lt {u n : Int} (hu : 0 < u) (h : n < u) : n.tdiv b < u := by
  have habs := Int.natAbs_tdiv_le_natAbs n b
  have hsign := tdiv_sign (b := b) n
  omega

@[simp] theorem value_concat (ds : List Int) (d : Int) :
    value b (ds ++ [d]) = b * value b ds + d := by
  simp [value]

@[simp] theorem digits_length (n : Int) : (digits b k n).length = k := by
  induction k generalizing n with
  | zero => rfl
  | succ k ih => simp [digits, ih]

/-- Every digit is smaller than the base, whatever its sign. -/
theorem natAbs_lt_of_mem_digits (hb : 0 < b) {n d : Int} (h : d ∈ digits b k n) :
    d.natAbs < b := by
  induction k generalizing n with
  | zero => cases h
  | succ k ih =>
    rw [digits, List.mem_append, List.mem_singleton] at h
    cases h with
    | inl h => exact ih h
    | inr h =>
      rw [h, Int.natAbs_tmod, Int.natAbs_natCast]
      exact Nat.mod_lt _ hb

/-- Enough digits give back the number, whatever its sign. -/
theorem value_digits {n : Int} (h : n.natAbs < b ^ k) : value b (digits b k n) = n := by
  induction k generalizing n with
  | zero =>
    have hzero : n = 0 := by
      rw [Nat.pow_zero] at h
      omega
    rw [hzero]
    rfl
  | succ k ih =>
    have hquotient : (n.tdiv b).natAbs < b ^ k := by
      rw [Int.natAbs_tdiv, Int.natAbs_natCast]
      apply Nat.div_lt_of_lt_mul
      rwa [Nat.pow_succ, Nat.mul_comm] at h
    rw [digits, value_concat, ih hquotient]
    exact Int.mul_tdiv_add_tmod n b

end Positional
