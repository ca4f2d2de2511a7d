import Mathlib.Data.Option.Basic

/-- A machine that reads letters one at a time, writes as it goes, and may
refuse a letter or the end of the input. -/
structure Transducer (σ α β : Type) where
  start : σ
  step : σ → α → Option (List β × σ)
  finish : σ → Option (List β)

namespace Transducer

variable {σ α β : Type} {m : Transducer σ α β}

def runFrom (m : Transducer σ α β) : σ → List α → Option (List β)
  | s, [] => m.finish s
  | s, x :: xs => do
    let (out, s') ← m.step s x
    let rest ← m.runFrom s' xs
    return out ++ rest

def run (m : Transducer σ α β) (xs : List α) : Option (List β) := m.runFrom m.start xs

theorem runFrom_cons {s s' : σ} {x : α} {out : List β} (h : m.step s x = some (out, s'))
    (xs : List α) : m.runFrom s (x :: xs) = (m.runFrom s' xs).map (out ++ ·) := by
  cases hr : m.runFrom s' xs with
  | none => simp [runFrom, h, hr]
  | some rest => simp [runFrom, h, hr]

theorem runFrom_cons_eq_some {s : σ} {x : α} {xs : List α} {d : List β} :
    m.runFrom s (x :: xs) = some d ↔
      ∃ out s' rest, m.step s x = some (out, s') ∧ m.runFrom s' xs = some rest ∧
        d = out ++ rest := by
  simp only [runFrom, Option.bind_eq_bind, Option.bind_eq_some_iff, Option.pure_def,
    Option.some.injEq, Prod.exists]
  constructor
  · intro h
    obtain ⟨out, s', hstep, rest, hrest, rfl⟩ := h
    exact ⟨out, s', rest, hstep, hrest, rfl⟩
  · intro h
    obtain ⟨out, s', rest, hstep, hrest, rfl⟩ := h
    exact ⟨out, s', hstep, rest, hrest, rfl⟩

def total (w : α → Nat) : List α → Nat
  | [] => 0
  | x :: xs => w x + total w xs

@[simp] theorem total_nil (w : α → Nat) : total w [] = 0 := rfl

@[simp] theorem total_cons (w : α → Nat) (x : α) (xs : List α) :
    total w (x :: xs) = w x + total w xs := rfl

@[simp] theorem total_append (w : α → Nat) (xs ys : List α) :
    total w (xs ++ ys) = total w xs + total w ys := by
  induction xs with
  | nil => simp
  | cons x xs ih => simp [ih, Nat.add_assoc]

/-- What is written weighs at most what was read cost, if every step pays for
what it writes and for the potential it leaves behind. -/
theorem runFrom_bounded {potential : σ → Nat} {cost : α → Nat} {weight : β → Nat}
    (hstep : ∀ s x out s', m.step s x = some (out, s') →
      total weight out + potential s' ≤ potential s + cost x)
    (hfinish : ∀ s out, m.finish s = some out → total weight out ≤ potential s)
    {s : σ} {xs : List α} {d : List β} (h : m.runFrom s xs = some d) :
    total weight d ≤ potential s + total cost xs := by
  induction xs generalizing s d with
  | nil => exact hfinish s d h
  | cons x xs ih =>
    obtain ⟨out, s', rest, hx, hrest, rfl⟩ := runFrom_cons_eq_some.mp h
    have hfirst := hstep s x out s' hx
    have htail := ih hrest
    rw [total_append, total_cons]
    omega

end Transducer
