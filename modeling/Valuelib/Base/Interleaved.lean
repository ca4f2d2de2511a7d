import Valuelib.Base.Runs

namespace Runs

variable {σ ε ρ φ α : Type} {step : σ → ε → Except φ (σ × ρ)} {ok : σ → ε → Prop} {s t : σ}
  {es : List ε} {next : α → Option α} {a b last : α} {m n : Nat}

def repeated (next : α → Option α) : Nat → α → Option α
  | 0, a => some a
  | n + 1, a => (next a).bind (repeated next n)

@[simp] theorem repeated_zero : repeated next 0 a = some a := rfl

theorem repeated_succ (h : next a = some b) : repeated next (n + 1) a = repeated next n b := by
  rw [repeated, h, Option.bind_some]

theorem repeated_add (h : repeated next m a = some b) :
    repeated next (m + n) a = repeated next n b := by
  induction m generalizing a with
  | zero =>
    cases h
    rw [Nat.zero_add]
  | succ m ih =>
    rw [repeated] at h
    obtain ⟨c, hc, hm⟩ := Option.bind_eq_some_iff.mp h
    rw [Nat.succ_add, repeated_succ hc]
    exact ih hm

def Reaches (next : α → Option α) (a b : α) : Prop := ∃ n, repeated next n a = some b

theorem Reaches.here (a : α) : Reaches next a a := ⟨0, rfl⟩

theorem Reaches.cons (h : next a = some b) (hrest : Reaches next b last) : Reaches next a last := by
  obtain ⟨n, hn⟩ := hrest
  exact ⟨n + 1, (repeated_succ h).trans hn⟩

theorem Reaches.trans (h : Reaches next a b) (hrest : Reaches next b last) :
    Reaches next a last := by
  obtain ⟨m, hm⟩ := h
  obtain ⟨n, hn⟩ := hrest
  exact ⟨m + n, (repeated_add hm).trans hn⟩

/-- One part of a system: its own events take it on by its own step, and the events
of the others leave it as it is. -/
structure Part (step : σ → ε → Except φ (σ × ρ)) (ok : σ → ε → Prop) (p : σ → Prop) (view : σ → α)
    (own : ε → Bool) (next : α → Option α) : Prop where
  kept : ∀ {s e s' r}, p s → ok s e → step s e = .ok (s', r) → p s'
  mine : ∀ {s e s' r a}, p s → ok s e → own e = true → step s e = .ok (s', r) →
    next (view s) = some a → view s' = a
  others : ∀ {s e s' r}, own e = false → step s e = .ok (s', r) → view s' = view s

/-- However the events are interleaved, the part is where its own events have taken it. -/
theorem Part.follows {p : σ → Prop} {view : σ → α} {own : ε → Bool}
    (part : Part step ok p view own next)
    (hlast : ∀ s e s' r, view s = last → ok s e → own e = true → step s e ≠ .ok (s', r))
    (h : Run step ok s es t) (hs : p s) (hn : repeated next n (view s) = some last) :
    es.countP own ≤ n ∧ repeated next (n - es.countP own) (view t) = some last := by
  induction h generalizing n with
  | nil => exact ⟨Nat.zero_le n, hn⟩
  | @cons s s' t e es r allowed taken rest ih =>
    have hs' := part.kept hs allowed taken
    cases hown : own e with
    | false =>
      rw [List.countP_cons_of_neg (by simp [hown])]
      exact ih hs' ((part.others hown taken).symm ▸ hn)
    | true =>
      rw [List.countP_cons_of_pos hown]
      cases n with
      | zero => exact absurd taken (hlast s e s' r (Option.some.inj hn) allowed hown)
      | succ n =>
        rw [repeated] at hn
        obtain ⟨a, ha, hn⟩ := Option.bind_eq_some_iff.mp hn
        obtain ⟨hle, hrest⟩ := ih hs' ((part.mine hs allowed hown taken ha).symm ▸ hn)
        refine ⟨Nat.succ_le_succ hle, ?_⟩
        rw [Nat.succ_sub_succ]
        exact hrest

end Runs
