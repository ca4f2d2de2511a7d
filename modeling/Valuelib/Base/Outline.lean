import Mathlib.Data.List.Basic

namespace Outline

/-- Labelled trees in a row: the label of the first one, what is under it, and
the trees after it. -/
inductive Forest (α : Type) where
  | nil
  | cons (label : α) (under rest : Forest α)
deriving DecidableEq, Repr

variable {α : Type} {f g : Forest α} {n : Nat}

namespace Forest

def append : Forest α → Forest α → Forest α
  | .nil, g => g
  | .cons a under rest, g => .cons a under (rest.append g)

def leaf (a : α) : Forest α := .cons a .nil .nil

def lines (n : Nat) : Forest α → List (Nat × α)
  | .nil => []
  | .cons a under rest => (n, a) :: (under.lines (n + 1) ++ rest.lines n)

@[simp] theorem lines_nil : lines n (.nil : Forest α) = [] := rfl

@[simp] theorem lines_leaf (a : α) : lines n (leaf a) = [(n, a)] := rfl

@[simp] theorem lines_append : lines n (f.append g) = lines n f ++ lines n g := by
  induction f with
  | nil => rfl
  | cons a under rest _ ih => simp [append, lines, ih]

/-- A row of trees on level `n` begins on that level. -/
theorem head_lines {x : Nat × α} (h : x ∈ (lines n f).head?) : x.1 = n := by
  cases f with
  | nil => cases h
  | cons a under rest =>
    cases Option.some.inj h
    rfl

/-- The text that follows a row of trees: it goes on below their level, if at all. -/
def Below (n : Nat) (s : List (Nat × α)) : Prop := ∀ x ∈ s.head?, x.1 < n

theorem below_nil : Below n ([] : List (Nat × α)) := by
  intro x hx
  cases hx

theorem Below.under {s : List (Nat × α)} (h : Below n s) : Below (n + 1) (lines n f ++ s) := by
  intro x hx
  cases hf : lines n f with
  | nil =>
    rw [hf] at hx
    exact Nat.lt_succ_of_lt (h x hx)
  | cons y ys =>
    rw [hf] at hx
    have hx' : x ∈ (lines n f).head? := by rw [hf]; exact hx
    have := head_lines hx'
    omega

/-- Where a row of trees ends is seen from the levels, and which trees they are. -/
theorem lines_split {s t : List (Nat × α)} (hs : Below n s) (ht : Below n t)
    (h : lines n f ++ s = lines n g ++ t) : f = g ∧ s = t := by
  induction f generalizing n g s t with
  | nil =>
    cases g with
    | nil => exact ⟨rfl, h⟩
    | cons b under rest =>
      have hlt := hs (n, b) (by rw [← List.nil_append s, ← lines_nil (n := n), h]; rfl)
      exact absurd hlt (Nat.lt_irrefl n)
  | cons a under rest ihu ihr =>
    cases g with
    | nil =>
      have hlt := ht (n, a) (by rw [← List.nil_append t, ← lines_nil (n := n), ← h]; rfl)
      exact absurd hlt (Nat.lt_irrefl n)
    | cons b under' rest' =>
      simp only [lines, List.cons_append, List.append_assoc, List.cons.injEq, Prod.mk.injEq,
        true_and] at h
      obtain ⟨rfl, h⟩ := h
      obtain ⟨rfl, hrest⟩ := ihu hs.under ht.under h
      obtain ⟨rfl, hst⟩ := ihr hs ht hrest
      exact ⟨rfl, hst⟩

/-- The outline tells the whole forest. -/
theorem lines_inj (h : lines n f = lines n g) : f = g := by
  have hsplit : lines n f ++ [] = lines n g ++ [] := by rw [h]
  exact (lines_split below_nil below_nil hsplit).1

end Forest

end Outline
