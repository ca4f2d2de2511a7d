import Mathlib.Logic.Basic

namespace Runs

variable {σ ε ρ φ : Type} {step : σ → ε → Except φ (σ × ρ)} {ok ok' : σ → ε → Prop}
  {s t u : σ} {es es' : List ε}

/-- A run takes the listed events one after the other. Every step succeeds, and
the given condition holds of each event in the state before it. -/
inductive Run (step : σ → ε → Except φ (σ × ρ)) (ok : σ → ε → Prop) : σ → List ε → σ → Prop where
  | nil (s : σ) : Run step ok s [] s
  | cons {s s' t : σ} {e : ε} {es : List ε} {r : ρ} (allowed : ok s e)
      (taken : step s e = .ok (s', r)) (rest : Run step ok s' es t) : Run step ok s (e :: es) t

def anything : σ → ε → Prop := fun _ _ => True

/-- What every step preserves, every run preserves. -/
theorem Run.invariant {p : σ → Prop}
    (hstep : ∀ s e s' r, p s → ok s e → step s e = .ok (s', r) → p s')
    {s t : σ} {es : List ε} (h : Run step ok s es t) (hs : p s) : p t := by
  induction h with
  | nil => exact hs
  | cons allowed taken _ ih => exact ih (hstep _ _ _ _ hs allowed taken)

/-- A transitive relation that every step from a good state keeps holds across
every run from a good state. -/
theorem Run.relation {p : σ → Prop} {r : σ → σ → Prop} (hrefl : ∀ s, r s s)
    (htrans : ∀ s t u, r s t → r t u → r s u)
    (hstep : ∀ s e s' q, p s → ok s e → step s e = .ok (s', q) → p s' ∧ r s s')
    {s t : σ} {es : List ε} (h : Run step ok s es t) (hs : p s) : r s t := by
  induction h with
  | nil => exact hrefl _
  | cons allowed taken _ ih =>
    obtain ⟨hp, hr⟩ := hstep _ _ _ _ hs allowed taken
    exact htrans _ _ _ hr (ih hp)

/-- A run of two lists of events passes through a state between them. -/
theorem Run.split (h : Run step ok s (es ++ es') u) :
    ∃ t, Run step ok s es t ∧ Run step ok t es' u := by
  induction es generalizing s with
  | nil => exact ⟨s, .nil s, h⟩
  | cons e es ih =>
    cases h with
    | cons allowed taken rest =>
      obtain ⟨t, hl, hr⟩ := ih rest
      exact ⟨t, .cons allowed taken hl, hr⟩

theorem Run.append (h : Run step ok s es t) (k : Run step ok t es' u) :
    Run step ok s (es ++ es') u := by
  induction h with
  | nil => exact k
  | cons allowed taken _ ih => exact .cons allowed taken (ih k)

/-- The condition may be any that holds of the events. -/
theorem Run.restrict (h : Run step ok s es t) (hok : ∀ s, ∀ e ∈ es, ok' s e) :
    Run step ok' s es t := by
  induction h with
  | nil => exact .nil _
  | cons _ taken _ ih =>
    exact .cons (hok _ _ List.mem_cons_self) taken
      (ih (fun s e he => hok s e (List.mem_cons_of_mem _ he)))

/-- The events determine the run. -/
theorem Run.unique (h : Run step ok s es t) (k : Run step ok' s es u) : t = u := by
  induction h with
  | nil => cases k; rfl
  | cons _ taken _ ih =>
    cases k with
    | cons _ taken' rest' =>
      rw [taken] at taken'
      cases taken'
      exact ih rest'

def runAll (step : σ → ε → Except φ (σ × ρ)) : σ → List ε → Except φ σ
  | s, [] => .ok s
  | s, e :: es =>
    match step s e with
    | .ok (s', _) => runAll step s' es
    | .error why => .error why

theorem run_of_runAll {s t : σ} {es : List ε} (h : runAll step s es = .ok t) :
    Run step anything s es t := by
  induction es generalizing s with
  | nil => cases h; exact .nil _
  | cons e es ih =>
    unfold runAll at h
    split at h
    · rename_i s' r taken
      exact .cons trivial taken (ih h)
    · cases h

/-- A list of events that can be taken is a run. -/
theorem exists_run {s : σ} (es : List ε) (h : (runAll step s es).toBool = true) :
    ∃ t, Run step anything s es t := by
  match hr : runAll step s es with
  | .ok t => exact ⟨t, run_of_runAll hr⟩
  | .error _ => rw [hr] at h; cases h

end Runs
