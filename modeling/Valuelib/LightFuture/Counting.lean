import Valuelib.LightFuture.Reachable

namespace Valuelib.LightFuture
open Checked Runs

variable {V X F : Type}

def Config.Counted (c : Config V X F) : Prop :=
  ∀ (p s : Nat) cell, c.promises[p]? = some (.holds (some s)) → c.states[s]? = some cell →
    0 < cell.state.promises

/-- What the hand-kept promise count of every owned state is worth. -/
structure CountExact (c : Config V X F) : Prop where
  counted : ∀ s cell, c.states[s]? = some cell → 0 < c.owners s →
    cell.destroyed = false ∧ cell.state.promises = c.promisesOf s
  settled : ∀ s cell, c.states[s]? = some cell → 0 < c.owners s → cell.state.promises = 0 →
    cell.state.hasState = true
  removable : c.Counted
  temporary : ∀ p q c₁ c₂, c.moveConstruct q = .ok c₁ → c₁.swap p q = .ok c₂ → c₂.Counted
  silent : ∀ (e : Event V X F) text, step c e ≠ .error (.assertion text)

theorem Consistent.owned {c : Config V X F} (hc : Consistent c) {s : Nat} {cell : Cell V X F}
    (hs : c.states[s]? = some cell) (ho : 0 < c.owners s) : cell.destroyed = false := by
  have halive : c.Alive s := by
    rcases Nat.add_pos_iff_pos_or_pos.mp ho with hp | hf
    · exact hc.promises s (List.count_pos_iff.mp hp)
    · exact hc.futures s (List.count_pos_iff.mp hf)
  obtain ⟨_, hs', hd⟩ := halive
  rw [hs] at hs'
  cases hs'
  exact hd

theorem Consistent.removable {c : Config V X F} (hc : Consistent c) : c.Counted := by
  intro p s cell hp hs
  obtain ⟨_, hs', hd⟩ := hc.held hp
  rw [hs] at hs'
  cases hs'
  rw [(hc.cells s cell hs).counted hd]
  exact List.count_pos_iff.mpr (List.mem_of_getElem? hp)

/-- In every reachable configuration the counts are those of the promises. -/
theorem counts_exact {es : List (Event V X F)} {c : Config V X F}
    (h : Run step anything Config.initial es c) : CountExact c := by
  have hc := reachable_consistent h
  refine ⟨?_, ?_, hc.removable, ?_, ?_⟩
  · intro s cell hs ho
    exact ⟨hc.owned hs ho, (hc.cells s cell hs).counted (hc.owned hs ho)⟩
  · intro s cell hs ho hzero
    have hok := hc.cells s cell hs
    exact SharedState.hasState_true.mpr
      (hok.satisfied ((hok.counted (hc.owned hs ho)).symm.trans hzero))
  · intro p q c₁ c₂ hmove hswap
    have hc₁ := ((moveConstruct_keeps hc q).of_ok hmove).1
    exact ((swap_keeps hc₁ p q).of_ok hswap).1.removable
  · intro e text
    exact (step_keeps hc e).no_assertion text

/-- Two promises, one of which is moved and destroyed while a future keeps its
state. -/
theorem counts_exact_shared :
    ∃ c : Config Nat Nat Nat,
      Run step anything Config.initial [.promiseToCall 7, .promiseToCall 8, .getFuture 0,
        .moveConstruct 0, .destroyPromise 2] c ∧ CountExact c := by
  refine (exists_run _ ?_).imp (fun c h => ⟨h, counts_exact h⟩)
  decide +kernel

end Valuelib.LightFuture
