import Valuelib.LightFuture.Operations
import Valuelib.Base.Runs

namespace Valuelib.LightFuture
open Checked Runs

variable {V X F : Type} {c c' : Config V X F}

/-- The step takes the last promise away from a state that has no outcome yet:
a destructor does, and so does the temporary inside a move assignment. -/
def Breaks (c : Config V X F) : Event V X F → Prop
  | .destroyPromise p => c.Unfulfilled p
  | .moveAssign _ q => c.Unfulfilled q
  | _ => False

theorem answer_ok {x : Except Fault (Config V X F)} {r r' : Response V X} :
    answer x r = .ok (c', r') ↔ x = .ok c' ∧ r = r' := by
  cases x with
  | error e => simp [answer, bind, Except.bind]
  | ok c => simp [answer, bind, Except.bind, pure, Except.pure]

theorem answer_keeps {breaks : Prop} {x : Except Fault (Config V X F)} {r : Response V X}
    (h : Keeps breaks c x) : KeepsAnswering breaks c (answer x r) := by
  apply Ensures.bind h
  intro c' hc
  exact hc

theorem moveConstruct_keeps (hc : Consistent c) (q : Nat) : Keeps False c (c.moveConstruct q) := by
  apply Ensures.bind (promiseAt_ensures (fun _ h => h))
  intro k h
  refine ⟨moveConstruct_consistent hc h, ?_⟩
  exact .of_states_eq (.refl _) rfl

theorem swap_keeps (hc : Consistent c) (p q : Nat) : Keeps False c (c.swap p q) := by
  apply Ensures.bind (promiseAt_ensures (fun _ h => h))
  intro k hp
  apply Ensures.bind (promiseAt_ensures (fun _ h => h))
  intro k' hq
  refine ⟨swap_consistent hc hp hq, ?_⟩
  exact .of_states_eq (.refl _) rfl

theorem read_keeps {α : Type} (hc : Consistent c) (f : Nat) {x : Option Nat → Except Fault α}
    {r : α → Response V X} (hx : ∀ h, Ensures (x h) (fun _ => True)) :
    KeepsAnswering False c (do
      let h ← c.futureAt f
      return (c, r (← x h))) := by
  apply Ensures.bind (futureAt_ensures (Q := fun _ => True) (fun _ _ => trivial))
  intro h _
  apply Ensures.bind (hx h)
  intro a _
  exact keeps_same hc False

theorem get_ensures (c : Config V X F) (h : Option Nat) : Ensures (c.get h) (fun _ => True) := by
  cases h with
  | none => trivial
  | some s =>
    exact Ensures.bind (stateAt_ensures (Q := fun _ => True) (fun _ _ _ => trivial))
      (fun _ _ => trivial)

theorem valid_ensures (c : Config V X F) (h : Option Nat) :
    Ensures (c.valid h) (fun _ => True) := by
  cases h with
  | none => trivial
  | some s =>
    exact Ensures.bind (stateAt_ensures (Q := fun _ => True) (fun _ _ _ => trivial))
      (fun _ _ => trivial)

/-- One step from a consistent configuration. -/
theorem step_keeps (hc : Consistent c) (e : Event V X F) :
    KeepsAnswering (Breaks c e) c (step c e) := by
  cases e with
  | promiseToCall f => exact promiseToCall_keeps hc f
  | moveConstruct q => exact answer_keeps (moveConstruct_keeps hc q)
  | moveAssign p q => exact answer_keeps (moveAssign_keeps hc p q)
  | swap p q => exact answer_keeps (swap_keeps hc p q)
  | setValue p v passing moving => exact setValue_keeps hc p v passing moving
  | setException p ep => exact setException_keeps hc p ep
  | destroyPromise p => exact answer_keeps (destroyPromise_keeps hc p)
  | getFuture p => exact answer_keeps (getFuture_keeps hc p)
  | defaultFuture => exact new_future_keeps hc (fun _ h => by cases h)
  | copyFuture f => exact answer_keeps (copyFuture_keeps hc f)
  | moveFuture f => exact answer_keeps (moveFuture_keeps hc f)
  | assignFuture f g => exact answer_keeps (assignFuture_keeps hc f g)
  | moveAssignFuture f g => exact answer_keeps (moveAssignFuture_keeps hc f g)
  | dropFuture f => exact answer_keeps (dropFuture_keeps hc f)
  | get f => exact read_keeps hc f (get_ensures c)
  | valid f => exact read_keeps hc f (valid_ensures c)
  | completionReturns => exact answer_keeps (endCompletion_keeps hc)
  | completionThrows ep => exact answer_keeps (endCompletion_keeps hc)

variable {ok : Config V X F → Event V X F → Prop} {es : List (Event V X F)}

/-- A run keeps the invariant. -/
theorem run_consistent (h : Run step ok c es c') (hc : Consistent c) : Consistent c' := by
  apply h.invariant _ hc
  intro c e c' r hc _ taken
  exact ((step_keeps hc e).of_ok taken).1

theorem reachable_consistent (h : Run step ok Config.initial es c) : Consistent c :=
  run_consistent h initial_consistent

/-- How a state that exists changes along a run. -/
theorem run_evolves (breaks : Prop) (hok : ∀ c e, ok c e → Breaks c e → breaks)
    (h : Run step ok c es c') (hc : Consistent c) {s : Nat} {cell : Cell V X F}
    (hs : c.states[s]? = some cell) :
    ∃ cell', c'.states[s]? = some cell' ∧ Evolves breaks cell cell' := by
  let r : Config V X F → Config V X F → Prop := fun c c' => ∀ a, c.states[s]? = some a →
    ∃ b, c'.states[s]? = some b ∧ Evolves breaks a b
  have hr : r c c' := by
    apply h.relation (p := Consistent) ?_ ?_ ?_ hc
    · intro _ a ha
      exact ⟨a, ha, .refl breaks a⟩
    · intro c₁ c₂ c₃ h₁ h₂ a ha
      obtain ⟨b, hb, hab⟩ := h₁ a ha
      obtain ⟨d, hd, hbd⟩ := h₂ b hb
      exact ⟨d, hd, hab.trans hbd⟩
    · intro c₁ e c₂ _ hc₁ allowed taken
      obtain ⟨hc₂, hgrown⟩ := (step_keeps hc₁ e).of_ok taken
      refine ⟨hc₂, ?_⟩
      intro a ha
      obtain ⟨b, hb, hab⟩ := hgrown.old s a ha
      exact ⟨b, hb, hab.mono (hok c₁ e allowed)⟩
  exact hr cell hs

end Valuelib.LightFuture
