import Mathlib.Data.List.Basic

namespace RefCount

/-- The control block of an object: how many pointers own it, and whether it has
been destroyed. -/
structure Block where
  useCount : Nat
  destroyed : Bool
deriving DecidableEq, Repr

def Block.of (n : Nat) : Block := ⟨n, n = 0⟩

def Block.gain (b : Block) : Block := { b with useCount := b.useCount + 1 }

def Block.lose (b : Block) : Block := ⟨b.useCount - 1, b.destroyed || b.useCount - 1 = 0⟩

@[simp] theorem Block.gain_of {n : Nat} (h : 0 < n) : (Block.of n).gain = .of (n + 1) := by
  simp [of, gain]
  omega

@[simp] theorem Block.lose_of (n : Nat) : (Block.of (n + 1)).lose = .of n := by
  simp [of, lose]

variable {blocks : List Block} {owners owners' : Nat → Nat} {p : Option Nat} {k : Nat}

def owning (p : Option Nat) (k : Nat) : Nat := if p = some k then 1 else 0

@[simp] theorem owning_none : owning none k = 0 := rfl

@[simp] theorem owning_self : owning (some k) k = 1 := if_pos rfl

theorem owning_other {j : Nat} (h : j ≠ k) : owning (some j) k = 0 := by
  apply if_neg
  simpa using h

section Owners

variable {α : Type} {f : α → Option Nat} {l l' : List α}

/-- How many of the pointers own object `k`, with `f` for a pointer's control block. -/
def ownersIn (f : α → Option Nat) (l : List α) (k : Nat) : Nat := l.countP (fun a => f a = some k)

@[simp] theorem ownersIn_nil : ownersIn f [] k = 0 := rfl

@[simp] theorem ownersIn_append : ownersIn f (l ++ l') k = ownersIn f l k + ownersIn f l' k :=
  List.countP_append

@[simp] theorem ownersIn_cons (a : α) :
    ownersIn f (a :: l) k = ownersIn f l k + owning (f a) k := by
  simp [ownersIn, owning, List.countP_cons]

theorem ownersIn_pos {a : α} (h : a ∈ l) (ha : f a = some k) : 0 < ownersIn f l k := by
  apply List.countP_pos_iff.mpr
  exact ⟨a, h, by simpa using ha⟩

/-- One pointer gives way to another. -/
theorem ownersIn_put {i : Nat} {a : α} (h : l[i]? = some a) (b : α) :
    ownersIn f (l.set i b) k + owning (f a) k = ownersIn f l k + owning (f b) k := by
  obtain ⟨hi, rfl⟩ := List.getElem?_eq_some_iff.mp h
  simp only [ownersIn, owning, List.countP_set hi, decide_eq_true_eq]
  by_cases ha : f l[i] = some k
  · have hpos : 0 < ownersIn f l k := ownersIn_pos (List.getElem_mem hi) ha
    unfold ownersIn at hpos
    simp only [ha, if_true]
    omega
  · simp [ha]

end Owners

def gain (blocks : List Block) : Option Nat → List Block
  | none => blocks
  | some k => blocks.modify k .gain

def lose (blocks : List Block) : Option Nat → List Block
  | none => blocks
  | some k => blocks.modify k .lose

@[simp] theorem length_gain : (gain blocks p).length = blocks.length := by
  cases p with
  | none => rfl
  | some k => exact List.length_modify ..

@[simp] theorem length_lose : (lose blocks p).length = blocks.length := by
  cases p with
  | none => rfl
  | some k => exact List.length_modify ..

/-- The control blocks count the owners. -/
structure Counts (blocks : List Block) (owners : Nat → Nat) : Prop where
  exact : ∀ k < blocks.length, blocks[k]? = some (.of (owners k))
  unused : ∀ k, blocks.length ≤ k → owners k = 0

namespace Counts

theorem congr (h : Counts blocks owners) (he : ∀ k, owners' k = owners k) :
    Counts blocks owners' := by
  rwa [funext he]

theorem lt (h : Counts blocks owners) (hk : 0 < owners k) : k < blocks.length := by
  by_contra hn
  have := h.unused k (Nat.le_of_not_lt hn)
  omega

theorem nil : Counts [] (fun _ => 0) := by
  constructor
  · intro k hk
    exact absurd hk (Nat.not_lt_zero _)
  · intro k _
    rfl

/-- The owners determine the control blocks. -/
theorem unique {blocks' : List Block} (h : Counts blocks owners) (h' : Counts blocks' owners)
    (hlength : blocks'.length = blocks.length) : blocks' = blocks := by
  apply List.ext_getElem?
  intro k
  by_cases hk : k < blocks.length
  · rw [h.exact k hk, h'.exact k (by omega)]
  · rw [List.getElem?_eq_none (by omega), List.getElem?_eq_none (by omega)]

/-- An object that has an owner gets one more. -/
theorem gain (h : Counts blocks owners) (hp : ∀ k, p = some k → 0 < owners k) :
    Counts (gain blocks p) (fun k => owners k + owning p k) := by
  cases p with
  | none => exact h
  | some j =>
    have hj := hp j rfl
    constructor
    · intro k hk
      rw [length_gain] at hk
      rw [RefCount.gain, List.getElem?_modify, h.exact k hk]
      by_cases hjk : j = k
      · subst hjk
        simp [hj]
      · simp [hjk, owning_other hjk]
    · intro k hk
      rw [length_gain] at hk
      have hlt := h.lt hj
      simp [h.unused k hk, owning_other (Nat.ne_of_lt (Nat.lt_of_lt_of_le hlt hk))]

/-- An owner lets go. -/
theorem lose (h : Counts blocks (fun k => owners k + owning p k)) :
    Counts (lose blocks p) owners := by
  cases p with
  | none => exact h
  | some j =>
    constructor
    · intro k hk
      rw [length_lose] at hk
      rw [RefCount.lose, List.getElem?_modify, h.exact k hk]
      by_cases hjk : j = k
      · subst hjk
        simp
      · simp [hjk, owning_other hjk]
    · intro k hk
      rw [length_lose] at hk
      have := h.unused k hk
      omega

/-- A new object with one owner. -/
theorem grow (h : Counts blocks owners) :
    Counts (blocks ++ [.of 1]) (fun k => owners k + owning (some blocks.length) k) := by
  constructor
  · intro k hk
    rw [List.length_append, List.length_singleton] at hk
    by_cases hlt : k < blocks.length
    · rw [List.getElem?_append_left hlt, h.exact k hlt, owning_other (Nat.ne_of_gt hlt)]
      rfl
    · obtain rfl : k = blocks.length := by omega
      simp [h.unused]
  · intro k hk
    rw [List.length_append, List.length_singleton] at hk
    rw [h.unused k (by omega), owning_other (by omega)]

end Counts

end RefCount
