import Mathlib.Data.List.Basic

namespace PrefixFree

variable {α β γ : Type} {ok : α → Prop} {f : α → List β}

/-- The encodings can be split off the front of any text: where one ends and
what it encodes are determined by what is read. -/
def Splits (ok : α → Prop) (f : α → List β) : Prop :=
  ∀ a b s t, ok a → ok b → f a ++ s = f b ++ t → a = b ∧ s = t

/-- A text followed by a mark that does not occur in it. -/
theorem Splits.terminated (d : β) : Splits (fun a => d ∉ a) (fun a : List β => a ++ [d]) := by
  intro a
  induction a with
  | nil =>
    intro b s t _ hb h
    cases b with
    | nil => exact ⟨rfl, by simpa using h⟩
    | cons y b =>
      simp only [List.nil_append, List.cons_append, List.cons.injEq] at h
      exact absurd (h.1 ▸ List.mem_cons_self) hb
  | cons x a ih =>
    intro b s t ha hb h
    cases b with
    | nil =>
      simp only [List.nil_append, List.cons_append, List.cons.injEq] at h
      exact absurd (h.1 ▸ List.mem_cons_self) ha
    | cons y b =>
      simp only [List.cons_append, List.cons.injEq] at h
      obtain ⟨rfl, h⟩ := h
      obtain ⟨rfl, hst⟩ := ih b s t (fun hm => ha (List.mem_cons_of_mem x hm))
        (fun hm => hb (List.mem_cons_of_mem x hm)) h
      exact ⟨rfl, hst⟩

/-- A fixed mark in front. -/
theorem Splits.cons (h : Splits ok f) (d : β) : Splits ok (fun a => d :: f a) := by
  intro a b s t ha hb he
  simp only [List.cons_append, List.cons.injEq, true_and] at he
  exact h a b s t ha hb he

theorem Splits.after (h : Splits ok f) (mid : List β) : Splits ok (fun a => mid ++ f a) := by
  intro a b s t ha hb he
  simp only [List.append_assoc] at he
  exact h a b s t ha hb (List.append_cancel_left he)

/-- Two encodings with a fixed text between them. -/
theorem Splits.pair {ok' : γ → Prop} {g : γ → List β} (h : Splits ok f) (h' : Splits ok' g)
    (mid : List β) :
    Splits (fun p : α × γ => ok p.1 ∧ ok' p.2) (fun p => f p.1 ++ mid ++ g p.2) := by
  intro a b s t ha hb he
  simp only [List.append_assoc] at he
  obtain ⟨hfirst, hrest⟩ := h a.1 b.1 _ _ ha.1 hb.1 he
  obtain ⟨hsecond, hst⟩ := h' a.2 b.2 s t ha.2 hb.2 (List.append_cancel_left hrest)
  exact ⟨Prod.ext hfirst hsecond, hst⟩

/-- Encodings one after the other give back the list, if none is empty. -/
theorem Splits.flatMap_inj (h : Splits ok f) (hne : ∀ a, f a ≠ []) {l k : List α}
    (hl : ∀ a ∈ l, ok a) (hk : ∀ a ∈ k, ok a) (he : l.flatMap f = k.flatMap f) : l = k := by
  induction l generalizing k with
  | nil =>
    cases k with
    | nil => rfl
    | cons b k => exact absurd (List.append_eq_nil_iff.mp he.symm).1 (hne b)
  | cons a l ih =>
    cases k with
    | nil => exact absurd (List.append_eq_nil_iff.mp he).1 (hne a)
    | cons b k =>
      obtain ⟨rfl, hrest⟩ := h a b _ _ (hl a List.mem_cons_self) (hk b List.mem_cons_self) he
      rw [ih (fun x hx => hl x (List.mem_cons_of_mem a hx))
        (fun x hx => hk x (List.mem_cons_of_mem a hx)) hrest]

/-- Encodings with a separator between each two of them give back the list. -/
theorem Splits.separated_inj (h : Splits ok f) {sep : List β} (hsep : sep ≠ []) {a b : α}
    {l k : List α} (hl : ∀ x ∈ a :: l, ok x) (hk : ∀ x ∈ b :: k, ok x)
    (he : f a ++ l.flatMap (fun x => sep ++ f x) = f b ++ k.flatMap (fun x => sep ++ f x)) :
    a :: l = b :: k := by
  obtain ⟨rfl, hrest⟩ := h a b _ _ (hl a List.mem_cons_self) (hk b List.mem_cons_self) he
  have hlk := (h.after sep).flatMap_inj (fun _ => List.append_ne_nil_of_left_ne_nil hsep _)
    (fun x hx => hl x (List.mem_cons_of_mem a hx)) (fun x hx => hk x (List.mem_cons_of_mem a hx))
    hrest
  rw [hlk]

section Renderings

variable {l : List α} {f g : α → List β}

/-- Two renderings of the same items, one nowhere larger than the other by an
additive measure, are nowhere different in it if the whole texts agree. -/
theorem flatMap_measure_eq {m : List β → Nat} (hm : ∀ s t, m (s ++ t) = m s + m t)
    (hle : ∀ i ∈ l, m (f i) ≤ m (g i)) (h : l.flatMap f = l.flatMap g) :
    ∀ i ∈ l, m (f i) = m (g i) := by
  -- What is smaller in one item stays smaller in the whole.
  have hsum : m (l.flatMap f) ≤ m (l.flatMap g) ∧
      (m (l.flatMap g) ≤ m (l.flatMap f) → ∀ i ∈ l, m (f i) = m (g i)) := by
    clear h
    induction l with
    | nil => simp
    | cons i l ih =>
      obtain ⟨hrest, heq⟩ := ih (fun j hj => hle j (List.mem_cons_of_mem i hj))
      have hi := hle i List.mem_cons_self
      simp only [List.flatMap_cons, hm]
      refine ⟨by omega, fun hge j hj => ?_⟩
      cases hj with
      | head => omega
      | tail _ hj => exact heq (by omega) j hj
  exact hsum.2 (Nat.le_of_eq (congrArg m h.symm))

/-- Where the items are equally long in both, they are the same. -/
theorem flatMap_eq_of_length (hlength : ∀ i ∈ l, (f i).length = (g i).length)
    (h : l.flatMap f = l.flatMap g) : ∀ i ∈ l, f i = g i := by
  induction l with
  | nil => simp
  | cons i l ih =>
    rw [List.flatMap_cons, List.flatMap_cons] at h
    obtain ⟨hi, hrest⟩ := List.append_inj h (hlength i List.mem_cons_self)
    intro j hj
    cases hj with
    | head => exact hi
    | tail _ hj => exact ih (fun k hk => hlength k (List.mem_cons_of_mem i hk)) hrest j hj

end Renderings

end PrefixFree
