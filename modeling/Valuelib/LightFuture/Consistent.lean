import Valuelib.LightFuture.LightPromise
import Mathlib.Data.List.Count

namespace Valuelib.LightFuture
open Checked

variable {V X F : Type}

namespace SharedState

/-- The tag names the member that is constructed in the union. -/
def Tagged (s : SharedState V X F) : Prop :=
  match s.which, s.storage with
  | .noState, .empty | .value, .value _ | .exception, .exception _ => True
  | _, _ => False

@[simp] theorem hasState_false {s : SharedState V X F} :
    s.hasState = false ↔ s.which = .noState := by
  cases h : s.which with
  | noState => simp [hasState, h]
  | value => simp [hasState, h]
  | exception => simp [hasState, h]

@[simp] theorem hasState_true {s : SharedState V X F} :
    s.hasState = true ↔ s.which ≠ .noState := by
  rw [← Bool.not_eq_false, hasState_false]

theorem get_congr {s t : SharedState V X F} (hw : t.which = s.which)
    (hs : t.storage = s.storage) : t.get = s.get := by
  simp [get, reference, hw, hs]

end SharedState

namespace Config

def promisesOf (c : Config V X F) (s : Nat) : Nat := c.promises.count (.holds (some s))

def callsOf (c : Config V X F) (s : Nat) : List (Call V X F) :=
  c.calls.filter (fun call => call.state == s)

def Alive (c : Config V X F) (s : Nat) : Prop :=
  ∃ cell, c.states[s]? = some cell ∧ cell.destroyed = false

end Config

/-- What holds of a shared state, given how many promises hold it and which
invocations it made. A state without promises has been satisfied, and the
completion function is gone exactly when it was invoked. -/
structure CellOk (n : Nat) (calls : List (Call V X F)) (cell : Cell V X F) : Prop where
  counted : cell.destroyed = false → cell.state.promises = n
  single : n ≤ 1
  satisfied : n = 0 → cell.state.which ≠ .noState
  tagged : cell.state.Tagged
  armed : cell.state.which = .noState → cell.state.function ≠ none
  called : calls.length = if cell.state.function = none then 1 else 0
  reported : ∀ call ∈ calls, call.valid = true ∧ call.outcome = cell.state.get

/-- The invariant of all configurations between operations. -/
structure Consistent (c : Config V X F) : Prop where
  cells : ∀ s cell, c.states[s]? = some cell → CellOk (c.promisesOf s) (c.callsOf s) cell
  promises : ∀ s, .holds (some s) ∈ c.promises → c.Alive s
  futures : ∀ s, .holds (some s) ∈ c.futures → c.Alive s
  calls : ∀ call ∈ c.calls, call.state < c.states.length

/-- How one shared state may change in a step: an outcome and a disarmed
function stay, and an outcome arrives together with the invocation unless the
step breaks a promise. -/
structure Evolves (breaks : Prop) (a b : Cell V X F) : Prop where
  kept : a.state.which ≠ .noState →
    b.state.which = a.state.which ∧ b.state.storage = a.state.storage
  disarmed : a.state.function = none → b.state.function = none
  delivered : ¬ breaks → b.state.which ≠ .noState →
    a.state.which ≠ .noState ∨ b.state.function = none

theorem Evolves.refl (breaks : Prop) (a : Cell V X F) : Evolves breaks a a := by
  refine ⟨?_, id, ?_⟩
  · intro _
    exact ⟨rfl, rfl⟩
  · intro _
    exact .inl

theorem Evolves.of_state_eq (breaks : Prop) {a b : Cell V X F} (h : b.state = a.state) :
    Evolves breaks a b := by
  refine ⟨?_, ?_, ?_⟩ <;> rw [h]
  · intro _
    exact ⟨rfl, rfl⟩
  · exact id
  · intro _
    exact .inl

/-- Every old state changes in the given way and new states are unsatisfied. -/
structure Grown (r : Cell V X F → Cell V X F → Prop) (c c' : Config V X F) : Prop where
  old : ∀ (s : Nat) a, c.states[s]? = some a → ∃ b, c'.states[s]? = some b ∧ r a b
  new : ∀ (s : Nat) b, c.states[s]? = none → c'.states[s]? = some b → b.state.which = .noState

theorem Grown.of_states_eq {r : Cell V X F → Cell V X F → Prop} {c c' : Config V X F}
    (hr : ∀ a, r a a) (h : c'.states = c.states) : Grown r c c' := by
  constructor
  · intro s a ha
    exact ⟨a, h ▸ ha, hr a⟩
  · intro s b hnone hb
    rw [h, hnone] at hb
    cases hb

/-- A change of one state that may happen to it is one of the configuration. -/
theorem Grown.put {r : Cell V X F → Cell V X F → Prop} {c c' : Config V X F} {s : Nat}
    {a b : Cell V X F} (hr : ∀ a, r a a) (ha : c.states[s]? = some a) (hab : r a b)
    (h : c'.states = c.states.set s b) : Grown r c c' := by
  have hs : s < c.states.length := (List.getElem?_eq_some_iff.mp ha).1
  refine ⟨?_, ?_⟩
  · intro k x hx
    by_cases hk : s = k
    · subst hk
      rw [ha] at hx
      cases hx
      exact ⟨b, by rw [h, List.getElem?_set_self hs], hab⟩
    · exact ⟨x, by rw [h, List.getElem?_set_ne hk, hx], hr x⟩
  · intro k x hnone hx
    rw [h] at hx
    have hlt := (List.getElem?_eq_some_iff.mp hx).1
    rw [List.length_set] at hlt
    rw [List.getElem?_eq_getElem hlt] at hnone
    cases hnone

/-- Overwriting a slot moves one unit of the count from the old content to the
new one. -/
theorem count_put {l : List Slot} {i : Nat} {x y : Slot} (h : l[i]? = some y) (a : Slot) :
    (l.set i x).count a + (if y = a then 1 else 0) = l.count a + (if x = a then 1 else 0) := by
  induction l generalizing i with
  | nil => cases h
  | cons z l ih =>
    cases i with
    | zero =>
      cases h
      simp only [List.set_cons_zero, List.count_cons, beq_iff_eq]
      omega
    | succ i =>
      have hl := ih h
      simp only [List.set_cons_succ, List.count_cons]
      omega

theorem mem_put {l : List Slot} {i : Nat} {x a : Slot} (h : a ∈ l.set i x) : a ∈ l ∨ a = x :=
  List.mem_or_eq_of_mem_set h

theorem promiseAt_ok {c : Config V X F} {p : Nat} {h : Option Nat} :
    c.promiseAt p = .ok h ↔ c.promises[p]? = some (.holds h) := by
  unfold Config.promiseAt
  split <;> simp_all

theorem promiseAt_undefined {c : Config V X F} {p : Nat}
    (h : ∀ k, c.promises[p]? ≠ some (.holds k)) :
    c.promiseAt p = .error (.undefined "no such promise") := by
  unfold Config.promiseAt
  split
  · exact absurd ‹_› (h _)
  · rfl

theorem futureAt_ok {c : Config V X F} {f : Nat} {h : Option Nat} :
    c.futureAt f = .ok h ↔ c.futures[f]? = some (.holds h) := by
  unfold Config.futureAt
  split <;> simp_all

theorem stateAt_ok {c : Config V X F} {s : Nat} {cell : Cell V X F} :
    c.stateAt s = .ok cell ↔ c.states[s]? = some cell ∧ cell.destroyed = false := by
  unfold Config.stateAt
  cases hs : c.states[s]? with
  | none => simp
  | some x =>
    cases hd : x.destroyed <;> simp only [hd, Bool.false_eq_true, ↓reduceIte, Except.ok.injEq,
      Option.some.injEq, reduceCtorEq, false_iff, not_and]
    · exact ⟨fun h => ⟨h, h ▸ hd⟩, And.left⟩
    · rintro rfl
      simp [hd]

theorem promiseAt_ensures {c : Config V X F} {p : Nat} {Q : Option Nat → Prop}
    (h : ∀ k, c.promises[p]? = some (.holds k) → Q k) : Ensures (c.promiseAt p) Q := by
  unfold Config.promiseAt
  split
  · exact h _ ‹_›
  · trivial

theorem futureAt_ensures {c : Config V X F} {f : Nat} {Q : Option Nat → Prop}
    (h : ∀ k, c.futures[f]? = some (.holds k) → Q k) : Ensures (c.futureAt f) Q := by
  unfold Config.futureAt
  split
  · exact h _ ‹_›
  · trivial

theorem stateAt_ensures {c : Config V X F} {s : Nat} {Q : Cell V X F → Prop}
    (h : ∀ cell, c.states[s]? = some cell → cell.destroyed = false → Q cell) :
    Ensures (c.stateAt s) Q := by
  apply ensures_of_ok
  · intro text
    unfold Config.stateAt
    split
    · split <;> simp
    · simp
  · intro cell hc
    exact h cell (stateAt_ok.mp hc).1 (stateAt_ok.mp hc).2

end Valuelib.LightFuture
