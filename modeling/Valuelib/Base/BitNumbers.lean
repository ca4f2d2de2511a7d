import Mathlib.Data.Finset.BooleanAlgebra
import Mathlib.Data.Finset.Disjoint
import Mathlib.Data.Finset.Filter
import Mathlib.Data.Finset.Range

/-! A machine word as the set of the numbers of its set bits. -/

namespace BitNumbers

variable {w : Nat}

def bitNumbers (b : BitVec w) : Finset Nat := (Finset.range w).filter (fun n => b.getLsbD n)

@[simp] theorem mem_bitNumbers {b : BitVec w} {n : Nat} :
    n ∈ bitNumbers b ↔ b.getLsbD n = true := by
  simp only [bitNumbers, Finset.mem_filter, Finset.mem_range, and_iff_right_iff_imp]
  exact BitVec.lt_of_getLsbD

/-- A vector is determined by the numbers of its set bits. -/
theorem bitNumbers_inj {a b : BitVec w} : bitNumbers a = bitNumbers b ↔ a = b := by
  constructor
  · intro h
    apply BitVec.eq_of_getLsbD_eq
    intro n _
    rw [Bool.eq_iff_iff, ← mem_bitNumbers, h, mem_bitNumbers]
  · intro h
    rw [h]

@[simp] theorem bitNumbers_zero : bitNumbers (0#w) = ∅ := by
  ext n
  simp

@[simp] theorem bitNumbers_or (a b : BitVec w) :
    bitNumbers (a ||| b) = bitNumbers a ∪ bitNumbers b := by
  ext n
  simp

@[simp] theorem bitNumbers_clear (a b : BitVec w) :
    bitNumbers (a &&& ~~~b) = bitNumbers a \ bitNumbers b := by
  ext n
  simp only [mem_bitNumbers, BitVec.getLsbD_and, BitVec.getLsbD_not, Finset.mem_sdiff,
    Bool.and_eq_true, Bool.not_eq_true', decide_eq_true_eq]
  constructor
  · rintro ⟨ha, _, hb⟩
    exact ⟨ha, by simp [hb]⟩
  · rintro ⟨ha, hb⟩
    exact ⟨ha, BitVec.lt_of_getLsbD ha, by simpa using hb⟩

/-- The bits of `b` are all set in `a` when masking leaves them as they are. -/
theorem bitNumbers_subset {a b : BitVec w} :
    bitNumbers b ⊆ bitNumbers a ↔ a &&& b = b := by
  rw [← bitNumbers_inj, Finset.subset_iff, Finset.ext_iff]
  apply forall_congr'
  intro n
  simp

theorem bitNumbers_disjoint {a b : BitVec w} :
    Disjoint (bitNumbers a) (bitNumbers b) ↔ a &&& b = 0#w := by
  rw [← bitNumbers_inj, Finset.disjoint_left, Finset.ext_iff]
  apply forall_congr'
  intro n
  simp

theorem bitNumbers_one {n : Nat} (h : n < w) : bitNumbers (1#w <<< n) = {n} := by
  ext k
  rw [← BitVec.twoPow_eq]
  simp only [mem_bitNumbers, BitVec.getLsbD_twoPow, Finset.mem_singleton, Bool.and_eq_true,
    decide_eq_true_eq]
  constructor
  · rintro ⟨_, rfl⟩
    rfl
  · rintro rfl
    exact ⟨h, rfl⟩

theorem and_one {a : BitVec w} {n : Nat} (h : n < w) :
    a &&& 1#w <<< n ≠ 0#w ↔ a.getLsbD n = true := by
  rw [ne_eq, ← bitNumbers_disjoint, bitNumbers_one h, Finset.disjoint_singleton_right,
    mem_bitNumbers, not_not]

end BitNumbers
