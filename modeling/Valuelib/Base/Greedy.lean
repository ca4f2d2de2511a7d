import Mathlib.Data.List.Perm.Basic
import Mathlib.Order.BooleanAlgebra.Basic

namespace Greedy

variable {ι α : Type} [GeneralizedBooleanAlgebra α] {part : ι → α}

/-- The parts of a table are taken away from `a` one after the other, each if it
is still wholly there. -/
inductive Takes (part : ι → α) : α → List ι → List ι → α → Prop where
  | nil (a : α) : Takes part a [] [] a
  | take {a rest : α} {i : ι} {table taken : List ι} (here : part i ≤ a)
      (later : Takes part (a \ part i) table taken rest) :
      Takes part a (i :: table) (i :: taken) rest
  | skip {a rest : α} {i : ι} {table taken : List ι} (gone : ¬ part i ≤ a)
      (later : Takes part a table taken rest) : Takes part a (i :: table) taken rest

def join (part : ι → α) : List ι → α
  | [] => ⊥
  | i :: is => part i ⊔ join part is

theorem le_join {i : ι} {is : List ι} (hi : i ∈ is) : part i ≤ join part is := by
  induction is with
  | nil => cases hi
  | cons j is ih =>
    rcases List.mem_cons.mp hi with rfl | hi
    · exact le_sup_left
    · exact le_sup_of_le_right (ih hi)

theorem join_perm {is js : List ι} (h : is.Perm js) : join part is = join part js := by
  induction h with
  | nil => rfl
  | cons i _ ih => rw [join, join, ih]
  | swap i j is => exact sup_left_comm _ _ _
  | trans _ _ ih₁ ih₂ => exact ih₁.trans ih₂

namespace Takes

variable {a rest rest' : α} {table taken taken' : List ι}

theorem sublist (h : Takes part a table taken rest) : taken.Sublist table := by
  induction h with
  | nil => exact .slnil
  | take _ _ ih => exact ih.cons_cons _
  | skip _ _ ih => exact ih.cons _

/-- What is left is what the parts taken do not cover. -/
theorem rest_eq (h : Takes part a table taken rest) : rest = a \ join part taken := by
  induction h with
  | nil a => exact sdiff_bot.symm
  | take _ _ ih => rw [ih, join, sdiff_sdiff_left]
  | skip _ _ ih => exact ih

theorem join_le (h : Takes part a table taken rest) : join part taken ≤ a := by
  induction h with
  | nil a => exact bot_le
  | take here _ ih => exact sup_le here (ih.trans sdiff_le)
  | skip _ _ ih => exact ih

/-- Nothing is lost. -/
theorem join_sup_rest (h : Takes part a table taken rest) : join part taken ⊔ rest = a := by
  rw [h.rest_eq, sup_sdiff_cancel_right h.join_le]

theorem disjoint_rest (h : Takes part a table taken rest) {i : ι} (hi : i ∈ taken) :
    Disjoint (part i) rest := by
  rw [h.rest_eq]
  exact disjoint_sdiff_self_right.mono_left (le_join hi)

/-- What is taken does not overlap. -/
theorem pairwise (h : Takes part a table taken rest) :
    taken.Pairwise (fun i j => Disjoint (part i) (part j)) := by
  induction h with
  | nil => exact .nil
  | take _ later ih =>
    refine .cons ?_ ih
    intro j hj
    exact disjoint_sdiff_self_right.mono_right ((le_join hj).trans later.join_le)
  | skip _ _ ih => exact ih

/-- The parts taken and what is left are determined by the table. -/
theorem unique (h : Takes part a table taken rest) (h' : Takes part a table taken' rest') :
    taken = taken' ∧ rest = rest' := by
  induction h generalizing taken' with
  | nil => cases h' with | nil => exact ⟨rfl, rfl⟩
  | take here _ ih =>
    cases h' with
    | take _ later =>
      obtain ⟨rfl, hr⟩ := ih later
      exact ⟨rfl, hr⟩
    | skip gone _ => exact absurd here gone
  | skip gone _ ih =>
    cases h' with
    | take here _ => exact absurd here gone
    | skip _ later => exact ih later

/-- From a table without overlaps exactly the parts of `a` are taken: what was
taken before never counts. -/
theorem eq_filter [DecidableLE α] (h : Takes part a table taken rest)
    (hd : table.Pairwise (fun i j => Disjoint (part i) (part j))) :
    taken = table.filter (fun i => decide (part i ≤ a)) := by
  induction h with
  | nil => rfl
  | @take a _ i table taken here _ ih =>
    obtain ⟨hi, htable⟩ := List.pairwise_cons.mp hd
    have hsame : ∀ j ∈ table, decide (part j ≤ a \ part i) = decide (part j ≤ a) := by
      intro j hj
      simp [le_sdiff, (hi j hj).symm]
    rw [List.filter_cons_of_pos (by simpa using here), ih htable, List.filter_congr hsame]
  | skip gone _ ih =>
    obtain ⟨_, htable⟩ := List.pairwise_cons.mp hd
    rw [List.filter_cons_of_neg (by simpa using gone), ih htable]

/-- Then the order of the table does not matter. -/
theorem perm {table' : List ι} (h : Takes part a table taken rest)
    (h' : Takes part a table' taken' rest') (hp : table.Perm table')
    (hd : table.Pairwise (fun i j => Disjoint (part i) (part j))) :
    taken.Perm taken' ∧ rest = rest' := by
  classical
  have hd' : table'.Pairwise (fun i j => Disjoint (part i) (part j)) :=
    hp.pairwise hd (fun hij => hij.symm)
  have htaken : taken.Perm taken' := by
    rw [h.eq_filter hd, h'.eq_filter hd']
    exact hp.filter _
  exact ⟨htaken, by rw [h.rest_eq, h'.rest_eq, join_perm htaken]⟩

end Takes

end Greedy
