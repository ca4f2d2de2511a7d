import Mathlib.Logic.Basic

namespace Refinement

section Both

variable {α β γ δ φ ψ : Type} {r : α → β → Prop} {r' : γ → δ → Prop}

/-- Two computations that fail together or succeed with related results. -/
inductive Both (r : α → β → Prop) : Except φ α → Except ψ β → Prop where
  | ok {a : α} {b : β} (h : r a b) : Both r (.ok a) (.ok b)
  | error (x : φ) (y : ψ) : Both r (.error x) (.error y)

/-- Related results taken further alike stay related. -/
theorem Both.bind {x : Except φ α} {y : Except ψ β} (h : Both r x y) {f : α → Except φ γ}
    {g : β → Except ψ δ} (hfg : ∀ a b, r a b → Both r' (f a) (g b)) :
    Both r' (x >>= f) (y >>= g) := by
  cases h with
  | ok h => exact hfg _ _ h
  | error x y => exact .error x y

theorem Both.of_ok {x : Except φ α} {y : Except ψ β} {a : α} {b : β} (hx : x = .ok a)
    (hy : y = .ok b) (h : r a b) : Both r x y := by
  subst hx hy
  exact .ok h

/-- What is known of the results on the left. -/
theorem Both.and_left {x : Except φ α} {y : Except ψ β} (h : Both r x y) {p : α → Prop}
    (hp : ∀ a, x = .ok a → p a) : Both (fun a b => p a ∧ r a b) x y := by
  cases h with
  | ok h => exact .ok ⟨hp _ rfl, h⟩
  | error x y => exact .error x y

theorem Both.mono {x : Except φ α} {y : Except ψ β} (h : Both r x y) {q : α → β → Prop}
    (hr : ∀ a b, r a b → q a b) : Both q x y := by
  cases h with
  | ok h => exact .ok (hr _ _ h)
  | error x y => exact .error x y

end Both

section Answers

variable {σ τ ε ρ φ ψ : Type} {step : σ → ε → Except φ (σ × ρ)} {step' : τ → ε → Except ψ (τ × ρ)}
  {rel : σ → τ → Prop} {s : σ} {t : τ}

def answers (step : σ → ε → Except φ (σ × ρ)) : σ → List ε → Option (List ρ)
  | _, [] => some []
  | s, e :: es =>
    match step s e with
    | .ok (s', r) => (answers step s' es).map (r :: ·)
    | .error _ => none

def Alike (rel : σ → τ → Prop) (x : σ × ρ) (y : τ × ρ) : Prop := rel x.1 y.1 ∧ x.2 = y.2

/-- A relation that every request keeps makes two machines indistinguishable. -/
theorem answers_eq (hstep : ∀ s t e, rel s t → Both (Alike rel) (step s e) (step' t e))
    (h : rel s t) (es : List ε) : answers step s es = answers step' t es := by
  induction es generalizing s t with
  | nil => rfl
  | cons e es ih =>
    have hboth := hstep s t e h
    unfold answers
    cases hx : step s e with
    | error _ =>
      rw [hx] at hboth
      cases hy : step' t e with
      | error _ => rfl
      | ok _ =>
        rw [hy] at hboth
        cases hboth
    | ok x =>
      rw [hx] at hboth
      cases hy : step' t e with
      | error _ =>
        rw [hy] at hboth
        cases hboth
      | ok y =>
        rw [hy] at hboth
        cases hboth with
        | ok hxy =>
          obtain ⟨hrel, hr⟩ := hxy
          simp only [ih hrel, hr]

end Answers

end Refinement
