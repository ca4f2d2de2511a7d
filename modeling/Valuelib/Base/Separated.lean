import Mathlib.Data.List.Basic
import Valuelib.Base.PrefixFree

namespace Separated
open PrefixFree

variable {α : Type} {sep : List α}

def joined (sep : List α) : List (List α) → List α
  | [] => []
  | x :: xs => x ++ xs.flatMap (sep ++ ·)

def pending (sep : List α) (items : List (List α)) : List α := if items = [] then [] else sep

@[simp] theorem pending_nil : pending sep [] = [] := rfl

@[simp] theorem pending_concat (items : List (List α)) (x : List α) :
    pending sep (items ++ [x]) = sep := by
  simp [pending]

/-- One more item at the end. -/
theorem joined_concat (items : List (List α)) (x : List α) :
    joined sep (items ++ [x]) = joined sep items ++ pending sep items ++ x := by
  cases items with
  | nil => simp [joined]
  | cons y ys => simp [joined, pending]

/-- The items come in their order, with more in between. -/
theorem sublist_joined {x : List α} {xs : List (List α)} (h : x ∈ xs) :
    x.Sublist (joined sep xs) := by
  cases xs with
  | nil => cases h
  | cons y ys =>
    cases h with
    | head => exact List.sublist_append_left _ _
    | tail _ h =>
      have hrest : (sep ++ x).Sublist (ys.flatMap (sep ++ ·)) :=
        List.sublist_flatten_of_mem (List.mem_map_of_mem h)
      exact ((List.sublist_append_right sep x).trans hrest).trans (List.sublist_append_right _ _)

theorem mem_joined {a : α} {xs : List (List α)} (h : a ∈ joined sep xs) :
    a ∈ sep ∨ ∃ x ∈ xs, a ∈ x := by
  cases xs with
  | nil => cases h
  | cons y ys =>
    rw [joined, List.mem_append, List.mem_flatMap] at h
    cases h with
    | inl h => exact .inr ⟨y, List.mem_cons_self, h⟩
    | inr h =>
      obtain ⟨x, hx, h⟩ := h
      rw [List.mem_append] at h
      cases h with
      | inl h => exact .inl h
      | inr h => exact .inr ⟨x, List.mem_cons_of_mem y hx, h⟩

/-- Items without the letter that begins a separator are read back. -/
theorem joined_inj {d : α} {x y : List α} {xs ys : List (List α)} (hx : ∀ z ∈ x :: xs, d ∉ z)
    (hy : ∀ z ∈ y :: ys, d ∉ z) (h : joined (d :: sep) (x :: xs) = joined (d :: sep) (y :: ys)) :
    x :: xs = y :: ys := by
  have hfirst := hx x List.mem_cons_self
  have hfirst' := hy y List.mem_cons_self
  induction xs generalizing x y ys with
  | nil =>
    cases ys with
    | nil => simpa [joined] using h
    | cons y' ys =>
      refine absurd ?_ hfirst
      rw [show x = joined (d :: sep) [x] by simp [joined], h]
      simp [joined]
  | cons x' xs ih =>
    cases ys with
    | nil =>
      refine absurd ?_ hfirst'
      rw [show y = joined (d :: sep) [y] by simp [joined], ← h]
      simp [joined]
    | cons y' ys =>
      obtain ⟨rfl, hrest⟩ := Splits.terminated d x y
        (sep ++ joined (d :: sep) (x' :: xs)) (sep ++ joined (d :: sep) (y' :: ys)) hfirst hfirst'
        (by simpa [joined] using h)
      have hx' := fun z hz => hx z (List.mem_cons_of_mem x hz)
      have hy' := fun z hz => hy z (List.mem_cons_of_mem x hz)
      rw [ih hx' hy' (List.append_cancel_left hrest) (hx' x' List.mem_cons_self)
        (hy' y' List.mem_cons_self)]

end Separated
