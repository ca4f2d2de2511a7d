import Mathlib.Logic.Basic

namespace Checked

/-- Why a computation stops: an assertion of the program fires, or an operation
is used outside its contract, so that nothing is promised about it. -/
inductive Fault where
  | assertion (text : String)
  | undefined (reason : String)
deriving DecidableEq, Repr

variable {α β : Type}

/-- No assertion fires, and a result satisfies the postcondition. -/
def Ensures (x : Except Fault α) (post : α → Prop) : Prop :=
  match x with
  | .ok a => post a
  | .error (.assertion _) => False
  | .error (.undefined _) => True

@[simp] theorem ensures_undefined {why : String} {post : α → Prop} :
    Ensures (.error (.undefined why)) post ↔ True := Iff.rfl

theorem Ensures.mono {x : Except Fault α} {post post' : α → Prop} (h : Ensures x post)
    (hp : ∀ a, post a → post' a) : Ensures x post' := by
  match x with
  | .ok a => exact hp a h
  | .error (.assertion _) => exact h
  | .error (.undefined _) => trivial

/-- Sequencing: what the first part ensures is the second part's precondition. -/
theorem Ensures.bind {x : Except Fault α} {f : α → Except Fault β} {mid : α → Prop}
    {post : β → Prop} (hx : Ensures x mid) (hf : ∀ a, mid a → Ensures (f a) post) :
    Ensures (x >>= f) post := by
  match x with
  | .ok a => exact hf a hx
  | .error (.assertion _) => exact hx
  | .error (.undefined _) => trivial

theorem Ensures.bind_ok {x : Except Fault α} {f : α → Except Fault β} {a : α}
    {post : β → Prop} (hx : x = .ok a) (hf : Ensures (f a) post) : Ensures (x >>= f) post := by
  subst hx
  exact hf

theorem Ensures.of_ok {x : Except Fault α} {post : α → Prop} {a : α} (h : Ensures x post)
    (hx : x = .ok a) : post a := by
  subst hx
  exact h

/-- What meets a postcondition fires no assertion. -/
theorem Ensures.no_assertion {x : Except Fault α} {post : α → Prop} (h : Ensures x post)
    (text : String) : x ≠ .error (.assertion text) := by
  rintro rfl
  exact h

/-- Without an assertion to fear, only results need a look. -/
theorem ensures_of_ok {x : Except Fault α} {post : α → Prop}
    (hx : ∀ text, x ≠ .error (.assertion text)) (h : ∀ a, x = .ok a → post a) :
    Ensures x post := by
  match x with
  | .ok a => exact h a rfl
  | .error (.assertion text) => exact absurd rfl (hx text)
  | .error (.undefined _) => trivial

/-- A bind that succeeds is made of two successes. -/
theorem bind_ok {φ : Type} {x : Except φ α} {f : α → Except φ β} {b : β} :
    (x >>= f) = .ok b ↔ ∃ a, x = .ok a ∧ f a = .ok b := by
  cases x with
  | error e => simp [bind, Except.bind]
  | ok a => simp [bind, Except.bind]

end Checked
