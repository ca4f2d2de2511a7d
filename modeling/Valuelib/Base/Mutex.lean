import Valuelib.Base.Runs

namespace Mutex
open Runs

/-- Why a thread cannot take a step: it waits for the mutex, the step is not its
next one, or the step is undefined behaviour. -/
inductive Stop where
  | waits
  | notNext
  | undefined (reason : String)
deriving DecidableEq, Repr

/-- A mutex, by the thread that holds it. Locking it twice is undefined behaviour. -/
def lock (mutex : Option Nat) (i : Nat) : Except Stop (Option Nat) :=
  match mutex with
  | some holder =>
    if holder = i then .error (.undefined "the thread holds the mutex") else .error .waits
  | none => .ok (some i)

variable {mutex mutex' : Option Nat} {i j : Nat} {inside inside' : Nat → Bool}

theorem lock_ok (h : lock mutex i = .ok mutex') : mutex = none ∧ mutex' = some i := by
  unfold lock at h
  split at h
  · split at h <;> cases h
  · cases h
    exact ⟨rfl, rfl⟩

@[simp] theorem lock_none (i : Nat) : lock none i = .ok (some i) := rfl

theorem lock_waits (h : j ≠ i) : lock (some j) i = .error .waits := if_neg h

/-- The mutex is held by the one thread that is between its lock and its unlock. -/
def Kept (mutex : Option Nat) (inside : Nat → Bool) : Prop := ∀ i, mutex = some i ↔ inside i = true

structure Turn (mutex mutex' : Option Nat) (i : Nat) (inside inside' : Nat → Bool) : Prop where
  others : ∀ j, j ≠ i → inside' j = inside j
  changed : mutex' =
    match inside i, inside' i with
    | false, true => some i
    | true, false => none
    | _, _ => mutex
  free : inside' i = true → inside i = true ∨ mutex = none

/-- The mutex is held by the thread inside, after a step as before it. -/
theorem Turn.kept (h : Turn mutex mutex' i inside inside') (hk : Kept mutex inside) :
    Kept mutex' inside' := by
  intro j
  have hi := hk i
  have hj := hk j
  have hmutex := h.changed
  have hfree := h.free
  have hothers := h.others j
  cases hold : inside i with
  | false =>
    cases hnew : inside' i with
    | false =>
      rw [hold, hnew] at hmutex
      grind
    | true =>
      rw [hold, hnew] at hmutex
      grind
  | true =>
    cases hnew : inside' i with
    | false =>
      rw [hold, hnew] at hmutex
      grind
    | true =>
      rw [hold, hnew] at hmutex
      grind

section Progress

variable {σ ε ρ : Type} {step : σ → ε → Except Stop (σ × ρ)} {s : σ}

/-- Threads with one mutex, none of which gets stuck on its own account: whoever holds
the mutex has only so many steps left with it, in which the others stay. -/
structure Fair (step : σ → ε → Except Stop (σ × ρ)) (next : Nat → ε) (p : σ → Prop)
    (mutex : σ → Option Nat) (wants ready : σ → Nat → Prop) (left : σ → Nat → Nat) : Prop where
  kept : ∀ {s s' i r}, p s → step s (next i) = .ok (s', r) → p s'
  moves : ∀ {s i}, p s → ¬ wants s i → ¬ ready s i → ∃ s' r, step s (next i) = .ok (s', r)
  locks : ∀ {s i}, wants s i → mutex s = none → ∃ s' r, step s (next i) = .ok (s', r)
  waits : ∀ {s i j}, wants s i → j ≠ i → mutex s = some j → step s (next i) = .error .waits
  busy : ∀ {s i}, p s → mutex s = some i → ¬ wants s i ∧ ¬ ready s i
  releases : ∀ {s s' i r}, p s → mutex s = some i → step s (next i) = .ok (s', r) →
    mutex s' = none ∨ mutex s' = some i ∧ left s' i < left s i
  patient : ∀ {s s' i j r}, wants s i → i ≠ j → step s (next j) = .ok (s', r) → wants s' i

variable {next : Nat → ε} {p : σ → Prop} {mutex : σ → Option Nat} {wants ready : σ → Nat → Prop}
  {left : σ → Nat → Nat}

/-- The holder can be brought to its unlock, while the others keep waiting for it. -/
theorem Fair.freed (fair : Fair step next p mutex wants ready left) {n : Nat} (hs : p s)
    (hmutex : mutex s = some j) (hleft : left s j ≤ n) (hwants : wants s i) (hij : i ≠ j) :
    ∃ m s', m ≤ n + 1 ∧ Run step anything s (List.replicate m (next j)) s' ∧ mutex s' = none ∧
      wants s' i := by
  induction n generalizing s with
  | zero =>
    obtain ⟨s', r, hstep⟩ := fair.moves hs (fair.busy hs hmutex).1 (fair.busy hs hmutex).2
    rcases fair.releases hs hmutex hstep with hnone | ⟨_, hless⟩
    · exact ⟨1, s', Nat.le_refl _, .cons trivial hstep (.nil s'), hnone,
        fair.patient hwants hij hstep⟩
    · omega
  | succ n ih =>
    obtain ⟨s', r, hstep⟩ := fair.moves hs (fair.busy hs hmutex).1 (fair.busy hs hmutex).2
    have hwants' := fair.patient hwants hij hstep
    rcases fair.releases hs hmutex hstep with hnone | ⟨hmutex', hless⟩
    · exact ⟨1, s', by omega, .cons trivial hstep (.nil s'), hnone, hwants'⟩
    · obtain ⟨m, t, hm, hrun, hnone, hwants''⟩ :=
        ih (fair.kept hs hstep) hmutex' (by omega) hwants'
      exact ⟨m + 1, t, by omega, .cons trivial hstep hrun, hnone, hwants''⟩

/-- No step of such threads is undefined, and each of them takes its next step after
the ones that another has left with the mutex. -/
theorem Fair.served (fair : Fair step next p mutex wants ready left) {n : Nat}
    (hleft : ∀ s j, left s j ≤ n) (hs : p s) (hi : ¬ ready s i) :
    (∀ reason, step s (next i) ≠ .error (.undefined reason)) ∧
      ∃ j m s', m ≤ n + 1 ∧ Run step anything s (List.replicate m (next j) ++ [next i]) s' := by
  by_cases hwants : wants s i
  · cases hmutex : mutex s with
    | none =>
      obtain ⟨s', r, hstep⟩ := fair.locks hwants hmutex
      exact ⟨by simp [hstep], i, 0, s', Nat.zero_le _, .cons trivial hstep (.nil s')⟩
    | some j =>
      have hji : j ≠ i := by
        intro heq
        subst heq
        exact (fair.busy hs hmutex).1 hwants
      obtain ⟨m, t, hm, hrun, hnone, hwants'⟩ :=
        fair.freed hs hmutex (hleft s j) hwants (Ne.symm hji)
      obtain ⟨s', r, hstep⟩ := fair.locks hwants' hnone
      exact ⟨by simp [fair.waits hwants hji hmutex], j, m, s', hm,
        hrun.append (.cons trivial hstep (.nil s'))⟩
  · obtain ⟨s', r, hstep⟩ := fair.moves hs hwants hi
    exact ⟨by simp [hstep], i, 0, s', Nat.zero_le _, .cons trivial hstep (.nil s')⟩

theorem Fair.run_kept (fair : Fair step next p mutex wants ready left) {es : List ε} {s' : σ}
    (h : Run step anything s es s') (hes : ∀ e ∈ es, ∃ i, e = next i) (hs : p s) : p s' := by
  induction h with
  | nil => exact hs
  | @cons _ _ _ e _ _ _ taken _ ih =>
    obtain ⟨i, rfl⟩ := hes e List.mem_cons_self
    exact ih (fun e he => hes e (List.mem_cons_of_mem _ he)) (fair.kept hs taken)

/-- Threads that need the mutex once, and have only so much work left. -/
def Once (step : σ → ε → Except Stop (σ × ρ)) (next : Nat → ε) (p : σ → Prop)
    (wants : σ → Nat → Prop) (work : σ → Nat → Nat) : Prop :=
  ∀ {s s' i r}, p s → step s (next i) = .ok (s', r) → ¬ wants s' i ∧ work s' i < work s i

variable {work : σ → Nat → Nat} {n l : Nat}

/-- A thread that no longer needs the mutex can be brought to its end. -/
theorem Fair.ends (fair : Fair step next p mutex wants ready left)
    (once : Once step next p wants work) (hs : p s) (hwants : ¬ wants s i) (hwork : work s i ≤ n) :
    ∃ m s', m ≤ n ∧ Run step anything s (List.replicate m (next i)) s' ∧ ready s' i := by
  induction n generalizing s with
  | zero =>
    by_cases hready : ready s i
    · exact ⟨0, s, Nat.le_refl _, .nil s, hready⟩
    · obtain ⟨s', r, hstep⟩ := fair.moves hs hwants hready
      have hless := (once hs hstep).2
      omega
  | succ n ih =>
    by_cases hready : ready s i
    · exact ⟨0, s, Nat.zero_le _, .nil s, hready⟩
    · obtain ⟨s', r, hstep⟩ := fair.moves hs hwants hready
      obtain ⟨hwants', hless⟩ := once hs hstep
      obtain ⟨m, t, hm, hrun, ht⟩ := ih (fair.kept hs hstep) hwants' (by omega)
      exact ⟨m + 1, t, by omega, .cons trivial hstep hrun, ht⟩

/-- Each such thread gets ready once another one has given up the mutex. -/
theorem Fair.returns (fair : Fair step next p mutex wants ready left)
    (once : Once step next p wants work) (hleft : ∀ s j, left s j ≤ l)
    (hwork : ∀ s j, work s j ≤ n) (hs : p s) (i : Nat) :
    ∃ j m k s', m ≤ l + 1 ∧ k ≤ n ∧
      Run step anything s (List.replicate m (next j) ++ List.replicate k (next i)) s' ∧
      ready s' i := by
  by_cases hready : ready s i
  · exact ⟨i, 0, 0, s, Nat.zero_le _, Nat.zero_le _, .nil s, hready⟩
  · obtain ⟨_, j, m, s₁, hm, hrun⟩ := fair.served hleft hs hready
    obtain ⟨s₀, hbefore, hnext⟩ := hrun.split
    have hs₀ : p s₀ := fair.run_kept hbefore (fun e he => ⟨j, List.eq_of_mem_replicate he⟩) hs
    cases hnext with
    | cons _ hstep hnil =>
      cases hnil
      obtain ⟨hwants, hless⟩ := once hs₀ hstep
      have hall := hwork s₀ i
      obtain ⟨k, s', hk, hown, hready'⟩ :=
        fair.ends once (fair.kept hs₀ hstep) hwants
          (Nat.le_sub_one_of_lt (Nat.lt_of_lt_of_le hless hall))
      exact ⟨j, m, k + 1, s', hm, by omega, hbefore.append (.cons trivial hstep hown), hready'⟩

end Progress

end Mutex
