import Valuelib.LightFuture.Reachable

namespace Valuelib.LightFuture
open Checked Runs

variable {V X F : Type} {c c' : Config V X F} {es : List (Event V X F)}

/-- What moving the promise `q` into `p` is for: `p` has the state `q` had, that
state is as it was, and `p` has let go of the state it had before. -/
structure Transferred (c c' : Config V X F) (p q : Nat) : Prop where
  taken : c'.promises[p]? = c.promises[q]?
  untouched : ∀ s, c.promises[q]? = some (.holds (some s)) →
    (c'.states[s]?).map Cell.state = (c.states[s]?).map Cell.state
  dropped : ∀ s, c.promises[p]? = some (.holds (some s)) →
    c'.promises[p]? ≠ some (.holds (some s))

/-- No two live promises hold one state. -/
theorem Consistent.one_holder (hc : Consistent c) {p q s : Nat}
    (hp : c.promises[p]? = some (.holds (some s))) (hq : c.promises[q]? = some (.holds (some s))) :
    p = q := by
  obtain ⟨cell, hs, _⟩ := hc.held hp
  by_contra hne
  have hcount := count_put (x := .gone) hp (.holds (some s))
  have hq' : (c.promises.set p .gone)[q]? = some (.holds (some s)) := by
    rw [List.getElem?_set_ne hne, hq]
  have hpos := List.count_pos_iff.mpr (List.mem_of_getElem? hq')
  have hsingle := (hc.cells s cell hs).single
  simp only [Config.promisesOf, reduceCtorEq, ↓reduceIte] at hcount hsingle
  omega

theorem moveConstruct_eq {q : Nat} {h : Option Nat} (hq : c.promises[q]? = some (.holds h)) :
    step c (.moveConstruct q) =
      .ok ({ c with promises := c.promises.set q (.holds none) ++ [.holds h] }, .done) := by
  apply bind_ok.mpr
  refine ⟨_, ?_, rfl⟩
  apply bind_ok.mpr
  exact ⟨h, promiseAt_ok.mpr hq, rfl⟩

theorem swap_eq {p q : Nat} {hp hq : Option Nat} (hcp : c.promises[p]? = some (.holds hp))
    (hcq : c.promises[q]? = some (.holds hq)) :
    step c (.swap p q) =
      .ok ({ c with promises := (c.promises.set p (.holds hq)).set q (.holds hp) }, .done) := by
  apply bind_ok.mpr
  refine ⟨_, ?_, rfl⟩
  apply bind_ok.mpr
  refine ⟨hp, promiseAt_ok.mpr hcp, ?_⟩
  apply bind_ok.mpr
  exact ⟨hq, promiseAt_ok.mpr hcq, rfl⟩

/-- A move assignment leaves `p` without a state, whatever `q` had, and gives
`q` the state of `p`. States are touched only if `q` had one. -/
theorem moveAssign_spec (hc : Consistent c) {p q : Nat} {hp hq : Option Nat}
    (hcp : c.promises[p]? = some (.holds hp)) (hcq : c.promises[q]? = some (.holds hq)) :
    ∃ c', step c (.moveAssign p q) = .ok (c', .done) ∧
      c'.promises = (c.promises.set p (.holds none)).set q
        (.holds (if p = q then none else hp)) ++ [.gone] ∧
      (hq = none → c'.states = c.states) := by
  let tmp := c.promises.length
  have hlast : (c.exchanged p q (if p = q then none else hp) hq).promises[tmp]? =
      some (.holds hq) := by
    simp [Config.exchanged, tmp]
  have hset : (c.exchanged p q (if p = q then none else hp) hq).promises.set tmp .gone =
      (c.promises.set p (.holds none)).set q (.holds (if p = q then none else hp)) ++ [.gone] := by
    simp [Config.exchanged, tmp, List.set_append_right]
  obtain ⟨c', hdestroy, hpromises⟩ := destroyPromise_total (exchanged_consistent hc hcp hcq) hlast
  refine ⟨c', answer_ok.mpr ⟨(moveAssign_eq hcp hcq).trans hdestroy, rfl⟩,
    hpromises.trans hset, ?_⟩
  rintro rfl
  rw [destroyPromise_empty hlast] at hdestroy
  cases hdestroy
  rfl

/-- Without two holders of one state, a promise that took what `q` had has let
go of what it had. -/
theorem Transferred.of_taken (hc : Consistent c) {p q : Nat} (hne : p ≠ q)
    (htaken : c'.promises[p]? = c.promises[q]?) (hs : c'.states = c.states) :
    Transferred c c' p q := by
  refine ⟨htaken, fun s _ => by rw [hs], ?_⟩
  intro s hp hp'
  exact hne (hc.one_holder hp (htaken.symm.trans hp'))

theorem moveConstruct_transferred {q : Nat} {h : Option Nat}
    (hq : c.promises[q]? = some (.holds h)) :
    ∃ c', step c (.moveConstruct q) = .ok (c', .done) ∧
      Transferred c c' c.promises.length q := by
  refine ⟨_, moveConstruct_eq hq, ?_, fun _ _ => rfl, ?_⟩
  · simp [hq]
  · intro s hp
    simp at hp

theorem swap_transferred (hc : Consistent c) {p q : Nat} {hp hq : Option Nat} (hne : p ≠ q)
    (hcp : c.promises[p]? = some (.holds hp)) (hcq : c.promises[q]? = some (.holds hq)) :
    ∃ c', step c (.swap p q) = .ok (c', .done) ∧ Transferred c c' p q ∧
      Transferred c c' q p := by
  have hltp := (List.getElem?_eq_some_iff.mp hcp).1
  have hltq := (List.getElem?_eq_some_iff.mp hcq).1
  refine ⟨_, swap_eq hcp hcq, .of_taken hc hne ?_ rfl, .of_taken hc (Ne.symm hne) ?_ rfl⟩
  · dsimp only
    rw [List.getElem?_set_ne (Ne.symm hne), List.getElem?_set_self hltp, hcq]
  · dsimp only
    rw [List.getElem?_set_self (by rw [List.length_set]; exact hltq), hcp]

/-- A move assignment does what it is for only when there is nothing to move. -/
theorem moveAssign_transferred (hc : Consistent c) {p q : Nat} {hp hq : Option Nat} (hne : p ≠ q)
    (hcp : c.promises[p]? = some (.holds hp)) (hcq : c.promises[q]? = some (.holds hq)) :
    ∃ c', step c (.moveAssign p q) = .ok (c', .done) ∧ (Transferred c c' p q ↔ hq = none) := by
  obtain ⟨c', hstep, hpromises, hstates⟩ := moveAssign_spec hc hcp hcq
  have hltp := (List.getElem?_eq_some_iff.mp hcp).1
  have hleft : c'.promises[p]? = some (.holds none) := by
    rw [hpromises, List.getElem?_append_left (by simpa using hltp),
      List.getElem?_set_ne (Ne.symm hne), List.getElem?_set_self hltp]
  refine ⟨c', hstep, ?_, ?_⟩
  · intro h
    have htaken := h.taken
    rw [hleft, hcq] at htaken
    exact (Slot.holds.inj (Option.some.inj htaken)).symm
  · intro h
    exact .of_taken hc hne (by rw [hleft, hcq, h]) (hstates h)

/-- The links of a chain of transfers. A move assignment is one only from a
promise that has no state. -/
def Transfers (c : Config V X F) : Event V X F → Prop
  | .moveConstruct _ | .swap _ _ => True
  | .moveAssign _ q => c.promises[q]? = some (.holds none)
  | _ => False

/-- Where a transfer puts what promise `i` has, when there are `n` promises. -/
def destination (n : Nat) (e : Event V X F) (i : Nat) : Nat :=
  match e with
  | .moveConstruct q => if i = q then n else i
  | .swap p q | .moveAssign p q => if i = p then q else if i = q then p else i
  | _ => i

def created : Event V X F → Nat
  | .swap _ _ => 0
  | _ => 1

def finalDestination (n : Nat) : List (Event V X F) → Nat → Nat
  | [], i => i
  | e :: es, i => finalDestination (n + created e) es (destination n e i)

theorem getElem?_exchanged {α : Type} {l : List α} {p q : Nat} {x y : α} (hp : l[p]? = some x)
    (hq : l[q]? = some y) (i : Nat) :
    ((l.set p y).set q x)[if i = p then q else if i = q then p else i]? = l[i]? := by
  have hltp := (List.getElem?_eq_some_iff.mp hp).1
  have hltq := (List.getElem?_eq_some_iff.mp hq).1
  by_cases hip : i = p
  · rw [if_pos hip, List.getElem?_set_self (by rw [List.length_set]; exact hltq), hip, hp]
  · rw [if_neg hip]
    by_cases hiq : i = q
    · rw [if_pos hiq, List.getElem?_set_ne (by rintro rfl; exact hip hiq),
        List.getElem?_set_self hltp, hiq, hq]
    · rw [if_neg hiq, List.getElem?_set_ne (Ne.symm hiq), List.getElem?_set_ne (Ne.symm hip)]

/-- One transfer: no state changes, and each state stays with a promise. -/
theorem step_transfers (hc : Consistent c) {e : Event V X F} {r : Response V X}
    (he : Transfers c e) (h : step c e = .ok (c', r)) :
    c'.states = c.states ∧ c'.promises.length = c.promises.length + created e ∧
      ∀ i s, c.promises[i]? = some (.holds (some s)) →
        c'.promises[destination c.promises.length e i]? = some (.holds (some s)) := by
  cases e with
  | moveConstruct q =>
    obtain ⟨hq, hcq, _⟩ := bind_ok.mp (answer_ok.mp h).1
    have hcq := promiseAt_ok.mp hcq
    rw [moveConstruct_eq hcq] at h
    cases h
    refine ⟨rfl, by simp [created], ?_⟩
    intro i s hi
    have hlt := (List.getElem?_eq_some_iff.mp hi).1
    by_cases hiq : i = q
    · subst hiq
      rw [hcq] at hi
      simp [destination, Option.some.inj hi]
    · simp only [destination, if_neg hiq]
      rw [List.getElem?_append_left (by simpa using hlt), List.getElem?_set_ne (Ne.symm hiq), hi]
  | swap p q =>
    obtain ⟨hp, hcp, hrest⟩ := bind_ok.mp (answer_ok.mp h).1
    obtain ⟨hq, hcq, _⟩ := bind_ok.mp hrest
    have hcp := promiseAt_ok.mp hcp
    have hcq := promiseAt_ok.mp hcq
    rw [swap_eq hcp hcq] at h
    cases h
    refine ⟨rfl, by simp [created], ?_⟩
    intro i s hi
    exact (getElem?_exchanged hcp hcq i).trans hi
  | moveAssign p q =>
    have hcq : c.promises[q]? = some (.holds none) := he
    obtain ⟨hp, hcp, _⟩ := bind_ok.mp (answer_ok.mp h).1
    have hcp := promiseAt_ok.mp hcp
    obtain ⟨c₁, hstep, hpromises, hstates⟩ := moveAssign_spec hc hcp hcq
    rw [h] at hstep
    cases hstep
    have hhandle : (if p = q then none else hp) = hp := by
      split
      · rename_i hpq
        subst hpq
        exact Slot.holds.inj (Option.some.inj (hcq.symm.trans hcp))
      · rfl
    rw [hhandle] at hpromises
    refine ⟨hstates rfl, by simp [hpromises, created], ?_⟩
    intro i s hi
    have hmoved := (getElem?_exchanged hcp hcq i).trans hi
    rw [hpromises]
    exact (List.getElem?_append_left (List.getElem?_eq_some_iff.mp hmoved).1).trans hmoved
  | _ => exact he.elim

/-- A chain of transfers: no state changes, and each state ends up where the
chain leads. -/
theorem run_transfers (hc : Consistent c) (h : Run step Transfers c es c') :
    c'.states = c.states ∧ ∀ i s, c.promises[i]? = some (.holds (some s)) →
      c'.promises[finalDestination c.promises.length es i]? = some (.holds (some s)) := by
  induction h with
  | nil => exact ⟨rfl, fun _ _ hi => hi⟩
  | cons allowed taken _ ih =>
    obtain ⟨hstates, hlen, hfirst⟩ := step_transfers hc allowed taken
    obtain ⟨hstates', hrest⟩ := ih ((step_keeps hc _).of_ok taken).1
    refine ⟨hstates'.trans hstates, ?_⟩
    intro i s hi
    rw [finalDestination, ← hlen]
    exact hrest _ s (hfirst i s hi)

/-- Setting a value through a promise whose state still waits fulfils it. -/
theorem setValue_fulfils (hc : Consistent c) {p s : Nat} {cell : Cell V X F}
    (hp : c.promises[p]? = some (.holds (some s))) (hs : c.states[s]? = some cell)
    (hw : cell.state.which = .noState) (v : V) :
    ∃ c' argument cell', step c (.setValue p v none none) = .ok (c', .invoked argument) ∧
      c'.states[s]? = some cell' ∧ cell'.state.which = .value ∧
      cell'.state.storage = .value v := by
  obtain ⟨_, hs', hd⟩ := hc.held hp
  rw [hs] at hs'
  cases hs'
  have hlt := (List.getElem?_eq_some_iff.mp hs).1
  obtain ⟨f, hf⟩ := Option.ne_none_iff_exists'.mp ((hc.cells s cell hs).armed hw)
  let set : SharedState V X F := { cell.state with storage := .value v, which := .value }
  have hset : cell.state.setValue v none = .ok set := by simp only [SharedState.setValue, hw, set]
  have hinvoke : c.invoke s { cell with state := set } =
      .ok (c.started s { cell with state := set } f, .invoked c.futures.length) :=
    invoke_ok hlt hd hf (by simp [set])
  refine ⟨c.started s { cell with state := set } f, c.futures.length,
    ⟨{ set with function := none }, cell.destroyed⟩,
    bind_ok.mpr ⟨_, satisfier_ok hc hp hs, ?_⟩, List.getElem?_set_self hlt, rfl, rfl⟩
  simp only [hset]
  exact hinvoke

/-- Moves, move assignments and swaps of the promises of a configuration: what
each does, and what a chain of them leaves for `set_value` to do. -/
structure MovesTransfer (c : Config V X F) : Prop where
  constructed : ∀ q h, c.promises[q]? = some (.holds h) →
    ∃ c', step c (.moveConstruct q) = .ok (c', .done) ∧ Transferred c c' c.promises.length q
  swapped : ∀ p q hp hq, p ≠ q → c.promises[p]? = some (.holds hp) →
    c.promises[q]? = some (.holds hq) →
    ∃ c', step c (.swap p q) = .ok (c', .done) ∧ Transferred c c' p q ∧ Transferred c c' q p
  assigned : ∀ p q hp hq, p ≠ q → c.promises[p]? = some (.holds hp) →
    c.promises[q]? = some (.holds hq) →
    ∃ c', step c (.moveAssign p q) = .ok (c', .done) ∧ (Transferred c c' p q ↔ hq = none)
  chained : ∀ moves c' i s cell, Run step Transfers c moves c' →
    c.promises[i]? = some (.holds (some s)) → c.states[s]? = some cell →
    c'.states[s]? = some cell ∧
    c'.promises[finalDestination c.promises.length moves i]? = some (.holds (some s)) ∧
    (cell.state.which = .noState → ∀ v, ∃ c'' argument cell'',
      step c' (.setValue (finalDestination c.promises.length moves i) v none none) =
        .ok (c'', .invoked argument) ∧
      c''.states[s]? = some cell'' ∧ cell''.state.which = .value ∧
      cell''.state.storage = .value v)

/-- In every reachable configuration moves and swaps transfer what promises hold. -/
theorem moves_transfer (h : Run step anything Config.initial es c) : MovesTransfer c := by
  have hc := reachable_consistent h
  refine ⟨fun _ _ => moveConstruct_transferred, fun _ _ _ _ => swap_transferred hc,
    fun _ _ _ _ => moveAssign_transferred hc, ?_⟩
  intro moves c' i s cell hrun hi hs
  obtain ⟨hstates, hfinal⟩ := run_transfers hc hrun
  have hs' : c'.states[s]? = some cell := by rw [hstates, hs]
  refine ⟨hs', hfinal i s hi, ?_⟩
  intro hw v
  have hc' := run_consistent hrun hc
  exact setValue_fulfils hc' (hfinal i s hi) hs' hw v

/-- A promise that has been moved from next to its new owner. -/
theorem moves_transfer_moved :
    ∃ c : Config Nat Nat Nat,
      Run step anything Config.initial [.promiseToCall 7, .moveConstruct 0] c ∧
      MovesTransfer c := by
  refine (exists_run _ ?_).imp (fun c h => ⟨h, moves_transfer h⟩)
  decide +kernel

/-- A promise assigned to another: it is broken, the target is left empty and
the state of the target moves to the source. -/
theorem assignment_breaks :
    ∃ c c' : Config Nat Nat Nat,
      Run step anything Config.initial
        [.promiseToCall 7, .promiseToCall 8, .getFuture 1] c ∧
      step c (.moveAssign 0 1) = .ok (c', .done) ∧
      c.promises[1]? = some (.holds (some 1)) ∧
      c'.promises[0]? = some (.holds none) ∧ c'.promises[1]? = some (.holds (some 0)) ∧
      c'.states[1]? =
        some ⟨⟨.exception, .exception (.futureError .brokenPromise), 0, some 8⟩, false⟩ ∧
      ¬ Transferred c c' 0 1 := by
  refine ⟨⟨[⟨⟨.noState, .empty, 1, some 7⟩, false⟩, ⟨⟨.noState, .empty, 1, some 8⟩, false⟩],
      [.holds (some 0), .holds (some 1)], [.holds (some 1)], [], []⟩,
    ⟨[⟨⟨.noState, .empty, 1, some 7⟩, false⟩,
      ⟨⟨.exception, .exception (.futureError .brokenPromise), 0, some 8⟩, false⟩],
      [.holds none, .holds (some 0), .gone], [.holds (some 1)], [], []⟩,
    run_of_runAll (by decide +kernel), by decide +kernel, rfl, rfl, rfl, rfl, ?_⟩
  intro h
  exact absurd h.taken (by decide)

end Valuelib.LightFuture
