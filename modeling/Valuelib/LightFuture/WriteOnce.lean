import Valuelib.LightFuture.Reachable

namespace Valuelib.LightFuture
open Checked Runs

variable {V X F : Type} {c c' : Config V X F} {es : List (Event V X F)}

namespace SharedState

/-- The state holds the outcome, under the tag that belongs to it. -/
inductive Holds (s : SharedState V X F) : Outcome V X → Prop where
  | value {v : V} (tag : s.which = .value) (payload : s.storage = .value v) : Holds s (.value v)
  | exception {ep : ExceptionPtr X} (tag : s.which = .exception)
      (payload : s.storage = .exception ep) : Holds s (.throws ep)

theorem Tagged.holds {s : SharedState V X F} (h : s.Tagged) (hset : s.which ≠ .noState) :
    s.Holds s.get := by
  unfold Tagged at h
  split at h
  · rename_i hw _
    exact absurd hw hset
  · rename_i hw hs
    simpa [get, reference, hw, hs] using Holds.value hw hs
  · rename_i hw hs
    simpa [get, reference, hw, hs] using Holds.exception hw hs
  · exact h.elim

theorem get_noState {s : SharedState V X F} (h : s.which = .noState) :
    s.get = .throws (.futureError .noState) := by
  simp [get, reference, h]

end SharedState

def Reports (c : Config V X F) (s : Nat) (outcome : Outcome V X) : Prop :=
  ∀ f, c.futures[f]? = some (.holds (some s)) → step c (.get f) = .ok (c, .got outcome)

/-- Setting a state again is refused and changes nothing. An argument that
cannot be moved into the call never gets that far. -/
structure Refuses (c : Config V X F) (s : Nat) : Prop where
  exception : ∀ p ep, c.promises[p]? = some (.holds (some s)) →
    step c (.setException p ep) = .ok (c, .threw (.futureError .promiseAlreadySatisfied))
  value : ∀ p v moving, c.promises[p]? = some (.holds (some s)) →
    step c (.setValue p v none moving) = .ok (c, .threw (.futureError .promiseAlreadySatisfied))
  passing : ∀ p v e moving, c.promises[p]? = some (.holds (some s)) →
    step c (.setValue p v (some e) moving) = .ok (c, .threw e)

/-- A state without outcome is armed, stays as it is when a payload cannot be
moved into it, and has nothing to give. -/
structure Waits (c : Config V X F) (s : Nat) (cell : Cell V X F) : Prop where
  armed : cell.state.function ≠ none
  passing : ∀ p v e moving, c.promises[p]? = some (.holds (some s)) →
    step c (.setValue p v (some e) moving) = .ok (c, .threw e)
  moving : ∀ p v e, c.promises[p]? = some (.holds (some s)) →
    step c (.setValue p v none (some e)) = .ok (c, .threw e)
  unread : Reports c s (.throws (.futureError .noState))

/-- The state holds the outcome in whatever comes after `c`. -/
def Settled (c : Config V X F) (s : Nat) (cell : Cell V X F) : Prop :=
  ∃ outcome, cell.state.Holds outcome ∧
    ∀ es c', Run step anything c es c' → ∃ cell', c'.states[s]? = some cell' ∧
      cell'.state.which = cell.state.which ∧ cell'.state.storage = cell.state.storage ∧
      Refuses c' s ∧ Reports c' s outcome

def WrittenOnce (c : Config V X F) : Prop :=
  ∀ s cell, c.states[s]? = some cell →
    (cell.state.which = .noState → Waits c s cell) ∧
    (cell.state.which ≠ .noState → Settled c s cell)

theorem setValue_passing (hc : Consistent c) {p s : Nat} {cell : Cell V X F}
    (hp : c.promises[p]? = some (.holds (some s))) (hs : c.states[s]? = some cell) (v : V)
    (e : ExceptionPtr X) (moving : Option (ExceptionPtr X)) :
    step c (.setValue p v (some e) moving) = .ok (c, .threw e) := by
  apply bind_ok.mpr
  exact ⟨_, satisfier_ok hc hp hs, rfl⟩

theorem setValue_refused (hc : Consistent c) {p s : Nat} {cell : Cell V X F}
    (hp : c.promises[p]? = some (.holds (some s))) (hs : c.states[s]? = some cell) {v : V}
    {moving : Option (ExceptionPtr X)} {e : ExceptionPtr X}
    (hset : cell.state.setValue v moving = .error e) :
    step c (.setValue p v none moving) = .ok (c, .threw e) := by
  apply bind_ok.mpr
  refine ⟨_, satisfier_ok hc hp hs, ?_⟩
  simp only [hset]
  rfl

theorem setException_refused (hc : Consistent c) {p s : Nat} {cell : Cell V X F}
    (hp : c.promises[p]? = some (.holds (some s))) (hs : c.states[s]? = some cell)
    {ep e : ExceptionPtr X} (hset : cell.state.setException ep = .error e) :
    step c (.setException p ep) = .ok (c, .threw e) := by
  apply bind_ok.mpr
  refine ⟨_, satisfier_ok hc hp hs, ?_⟩
  simp only [hset]
  rfl

theorem reports_get (hc : Consistent c) {s : Nat} {cell : Cell V X F}
    (hs : c.states[s]? = some cell) : Reports c s cell.state.get := by
  intro f hf
  obtain ⟨_, hs', hd⟩ := hc.held_by_future hf
  rw [hs] at hs'
  cases hs'
  apply bind_ok.mpr
  refine ⟨_, futureAt_ok.mpr hf, ?_⟩
  apply bind_ok.mpr
  refine ⟨_, ?_, rfl⟩
  apply bind_ok.mpr
  exact ⟨cell, stateAt_ok.mpr ⟨hs, hd⟩, rfl⟩

/-- A state with an outcome refuses another. -/
theorem refuses (hc : Consistent c) {s : Nat} {cell : Cell V X F}
    (hs : c.states[s]? = some cell) (hset : cell.state.which ≠ .noState) : Refuses c s := by
  constructor
  · intro p ep hp
    apply setException_refused hc hp hs
    cases hw : cell.state.which <;> simp_all [SharedState.setException]
  · intro p v moving hp
    apply setValue_refused hc hp hs
    cases hw : cell.state.which <;> simp_all [SharedState.setValue]
  · intro p v e moving hp
    exact setValue_passing hc hp hs v e moving

theorem waits (hc : Consistent c) {s : Nat} {cell : Cell V X F}
    (hs : c.states[s]? = some cell) (hw : cell.state.which = .noState) : Waits c s cell := by
  refine ⟨(hc.cells s cell hs).armed hw, ?_, ?_, ?_⟩
  · intro p v e moving hp
    exact setValue_passing hc hp hs v e moving
  · intro p v e hp
    apply setValue_refused hc hp hs
    simp only [SharedState.setValue, hw]
  · have hreports := reports_get hc hs
    rwa [SharedState.get_noState hw] at hreports

/-- A state with an outcome keeps it in whatever comes after. -/
theorem settled (hc : Consistent c) {s : Nat} {cell : Cell V X F}
    (hs : c.states[s]? = some cell) (hset : cell.state.which ≠ .noState) : Settled c s cell := by
  refine ⟨cell.state.get, (hc.cells s cell hs).tagged.holds hset, ?_⟩
  intro es c' hrun
  have hc' := run_consistent hrun hc
  obtain ⟨cell', hs', hev⟩ := run_evolves True (fun _ _ _ _ => trivial) hrun hc hs
  obtain ⟨hw, hst⟩ := hev.kept hset
  refine ⟨cell', hs', hw, hst, refuses hc' hs' (hw ▸ hset), ?_⟩
  exact SharedState.get_congr hw hst ▸ reports_get hc' hs'

/-- In every reachable configuration every state is written at most once. -/
theorem reachable_writtenOnce (h : Run step anything Config.initial es c) : WrittenOnce c := by
  have hc := reachable_consistent h
  intro s cell hs
  exact ⟨waits hc hs, settled hc hs⟩

/-- One state set from inside the completion function of another. -/
theorem reachable_writtenOnce_nested :
    ∃ c : Config Nat Nat Nat,
      Run step anything Config.initial [.promiseToCall 7, .promiseToCall 8,
        .setValue 0 5 none none, .setException 1 (.other 3), .completionThrows (.other 3)] c ∧
      WrittenOnce c := by
  refine (exists_run _ ?_).imp (fun c h => ⟨h, reachable_writtenOnce h⟩)
  decide +kernel

/-- A second value whose move into the call throws: the caller gets that
exception, not the one for a satisfied promise. -/
theorem passing_throws_first :
    ∃ (c : Config Nat Nat Nat) (cell : Cell Nat Nat Nat),
      Run step anything Config.initial [.promiseToCall 7, .setValue 0 5 none none,
        .completionReturns] c ∧
      c.states[0]? = some cell ∧ cell.state.which = .value ∧
      c.promises[0]? = some (.holds (some 0)) ∧
      step c (.setValue 0 6 (some (.other 9)) none) = .ok (c, .threw (.other 9)) := by
  let cell : Cell Nat Nat Nat := ⟨⟨.value, .value 5, 1, none⟩, false⟩
  exact ⟨⟨[cell], [.holds (some 0)], [.gone], [], [⟨0, 7, true, .value 5⟩]⟩, cell,
    run_of_runAll (by decide +kernel), rfl, rfl, rfl, rfl⟩

end Valuelib.LightFuture
