import Valuelib.LightFuture.Reachable

namespace Valuelib.LightFuture
open Checked Runs

variable {V X F : Type} {c c' : Config V X F} {es : List (Event V X F)}

/-- Each state has invoked its completion function once if it has an outcome and
never otherwise, and the future it passed was valid and had that outcome. -/
def CalledOnce (c : Config V X F) : Prop :=
  ∀ (s : Nat) cell, c.states[s]? = some cell →
    (c.callsOf s).length = (if cell.state.hasState then 1 else 0) ∧
      ∀ call ∈ c.callsOf s, call.valid = true ∧ call.outcome = cell.state.get

def Delivered (c : Config V X F) : Prop :=
  ∀ (s : Nat) cell, c.states[s]? = some cell → cell.state.which ≠ .noState →
    cell.state.function = none

/-- The completion functions were called as they should if no state with an outcome has kept its
own. -/
theorem calledOnce_iff_delivered (hc : Consistent c) : CalledOnce c ↔ Delivered c := by
  refine ⟨?_, fun h s cell hs => ⟨?_, (hc.cells s cell hs).reported⟩⟩
  · intro h s cell hs hset
    have hcalls := (h s cell hs).1
    rw [(hc.cells s cell hs).called, if_pos (SharedState.hasState_true.mpr hset)] at hcalls
    by_contra hf
    rw [if_neg hf] at hcalls
    cases hcalls
  · rw [(hc.cells s cell hs).called]
    by_cases hw : cell.state.which = .noState
    · rw [if_neg ((hc.cells s cell hs).armed hw), SharedState.hasState_false.mpr hw]
      rfl
    · rw [if_pos (h s cell hs hw), if_pos (SharedState.hasState_true.mpr hw)]

theorem initial_delivered : Delivered (Config.initial : Config V X F) := by
  intro s cell hs
  simp [Config.initial] at hs

/-- A step that breaks no promise sets an outcome only together with an
invocation. -/
theorem step_delivered (hc : Consistent c) (hd : Delivered c) {e : Event V X F}
    {r : Response V X} (hbreaks : ¬ Breaks c e) (h : step c e = .ok (c', r)) :
    Delivered c' := by
  intro s cell' hs' hset
  have hgrown := ((step_keeps hc e).of_ok h).2
  cases hs : c.states[s]? with
  | none => exact absurd (hgrown.new s cell' hs hs') hset
  | some cell =>
    obtain ⟨_, hs'', hev⟩ := hgrown.old s cell hs
    rw [hs'] at hs''
    cases hs''
    rcases hev.delivered hbreaks hset with hold | hf
    · exact hev.disarmed (hd s cell hs hold)
    · exact hf

/-- The broken promise is stored and its completion function stays where it is. -/
theorem destroyPromise_undelivered (hc : Consistent c) {p : Nat} (hp : c.Unfulfilled p)
    (h : c.destroyPromise p = .ok c') : ¬ Delivered c' := by
  obtain ⟨s, cell, hheld, hs, hw⟩ := hp
  obtain ⟨cell₁, state, hs₁, hremove, heq, _, halive, _⟩ := abandoned_spec hc hheld
  rw [hs] at hs₁
  cases hs₁
  have hok := hc.cells s cell hs
  obtain ⟨_, hs₁, hd⟩ := hc.held hheld
  rw [hs] at hs₁
  cases hs₁
  rw [SharedState.removePromise_spec ((hok.counted hd).trans (hc.promisesOf_held hheld)),
    if_pos hw] at hremove
  cases hremove
  rw [heq] at h
  obtain ⟨cell', hs', hstate⟩ := (release_frame h).2 s _
    (List.getElem?_set_self (List.getElem?_eq_some_iff.mp hs).1)
  intro hdelivered
  have hf := hdelivered s cell' hs' (by rw [hstate]; simp)
  rw [hstate] at hf
  exact hok.armed hw hf

/-- A step that breaks a promise leaves a state that has an outcome and its function. -/
theorem step_undelivered (hc : Consistent c) {e : Event V X F} {r : Response V X}
    (hbreaks : Breaks c e) (h : step c e = .ok (c', r)) : ¬ Delivered c' := by
  cases e with
  | destroyPromise p =>
    exact destroyPromise_undelivered hc hbreaks (answer_ok.mp h).1
  | moveAssign p q =>
    have h : c.moveAssign p q = .ok c' := (answer_ok.mp h).1
    obtain ⟨_, hcp, _⟩ := bind_ok.mp h
    have hcp := promiseAt_ok.mp hcp
    obtain ⟨s, cell, hcq, hs, hw⟩ := hbreaks
    rw [moveAssign_eq hcp hcq] at h
    refine destroyPromise_undelivered (exchanged_consistent hc hcp hcq) ⟨s, cell, ?_, hs, hw⟩ h
    simp [Config.exchanged]
  | _ => exact hbreaks.elim

/-- Without broken promises every completion function is called as it should. -/
theorem unbroken_delivered (h : Run step (fun c e => ¬ Breaks c e) c es c')
    (hc : Consistent c) (hd : Delivered c) : Delivered c' := by
  have hboth := h.invariant (p := fun c => Consistent c ∧ Delivered c) ?_ ⟨hc, hd⟩
  · exact hboth.2
  · rintro c e c' r ⟨hc, hd⟩ hbreaks taken
    have hkept := (step_keeps hc e).of_ok taken
    exact ⟨hkept.1, step_delivered hc hd hbreaks taken⟩

/-- The property in every configuration that a run goes through. -/
def CalledOnceThroughout (c : Config V X F) (es : List (Event V X F)) : Prop :=
  ∀ before c₁, before <+: es → Run step anything c before c₁ → CalledOnce c₁

theorem unbroken_of_calledOnce (h : Run step anything c es c') (hc : Consistent c)
    (hcalled : CalledOnceThroughout c es) : Run step (fun c e => ¬ Breaks c e) c es c' := by
  induction h with
  | nil => exact .nil _
  | @cons c c₁ c' e es r _ taken rest ih =>
    have hc₁ := ((step_keeps hc e).of_ok taken).1
    have hfirst : CalledOnce c₁ :=
      hcalled [e] c₁ (List.prefix_append [e] es) (.cons trivial taken (.nil c₁))
    refine .cons ?_ taken (ih hc₁ ?_)
    · intro hbreaks
      exact step_undelivered hc hbreaks taken ((calledOnce_iff_delivered hc₁).mp hfirst)
    · intro before c₂ hpre hrun
      exact hcalled (e :: before) c₂ (List.cons_prefix_cons.mpr ⟨rfl, hpre⟩)
        (.cons trivial taken hrun)

/-- The completion functions are called as they should throughout a run exactly
when no step of it breaks a promise. -/
theorem calledOnce_iff_unbroken (h : Run step anything Config.initial es c) :
    CalledOnceThroughout Config.initial es ↔
      Run step (fun c e => ¬ Breaks c e) Config.initial es c := by
  refine ⟨unbroken_of_calledOnce h initial_consistent, ?_⟩
  intro hunbroken before c₁ hpre hrun
  obtain ⟨after, rfl⟩ := hpre
  obtain ⟨c₂, hfirst, _⟩ := hunbroken.split
  rw [hrun.unique hfirst]
  exact (calledOnce_iff_delivered (reachable_consistent hfirst)).mpr
    (unbroken_delivered hfirst initial_consistent initial_delivered)

/-- A promise kept from within its program: the completion function runs, the
promise dies afterwards. -/
theorem calledOnce_iff_unbroken_kept :
    ∃ c : Config Nat Nat Nat,
      Run step anything Config.initial [.promiseToCall 7, .getFuture 0,
        .setValue 0 5 none none, .completionReturns, .destroyPromise 0] c ∧
      (CalledOnceThroughout (Config.initial : Config Nat Nat Nat) [.promiseToCall 7, .getFuture 0,
          .setValue 0 5 none none, .completionReturns, .destroyPromise 0] ↔
        Run step (fun c e => ¬ Breaks c e) Config.initial [.promiseToCall 7, .getFuture 0,
          .setValue 0 5 none none, .completionReturns, .destroyPromise 0] c) := by
  refine (exists_run _ ?_).imp (fun c h => ⟨h, calledOnce_iff_unbroken h⟩)
  decide +kernel

/-- A promise destroyed unfulfilled: the state holds the broken promise, and the
completion function was never called. -/
theorem broken_promise_uncalled :
    ∃ c : Config Nat Nat Nat,
      Run step anything Config.initial [.promiseToCall 7, .getFuture 0, .destroyPromise 0] c ∧
      c.states = [⟨⟨.exception, .exception (.futureError .brokenPromise), 0, some 7⟩, false⟩] ∧
      c.calls = [] ∧ ¬ CalledOnce c := by
  refine ⟨⟨[⟨⟨.exception, .exception (.futureError .brokenPromise), 0, some 7⟩, false⟩],
    [.gone], [.holds (some 0)], [], []⟩, run_of_runAll (by decide +kernel), rfl, rfl, ?_⟩
  intro h
  exact absurd (h 0 _ rfl).1 (by decide)

end Valuelib.LightFuture
