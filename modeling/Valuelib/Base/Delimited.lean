import Valuelib.Base.PrefixFree

namespace Delimited
open PrefixFree

variable {α β : Type} {follows : List β → Prop} {f : α → List β} {a b : α}

/-- Two items are told apart by their texts, whatever comes behind them among the
texts that may follow an item. -/
def Apart (follows : List β → Prop) (f : α → List β) (a b : α) : Prop :=
  ∀ s t, follows s → follows t → f a ++ s = f b ++ t → a = b ∧ s = t

/-- Items that can be split off the front of any text are told apart. -/
theorem Apart.of_splits {ok : α → Prop} (h : Splits ok f) (ha : ok a) (hb : ok b) :
    Apart follows f a b := by
  intro s t _ _ he
  exact h a b s t ha hb he

def StopsAt (letters : List β) (s : List β) : Prop := ∀ c ∈ s.head?, c ∉ letters

theorem stopsAt_nil {letters : List β} : StopsAt letters [] := by
  intro c hc
  cases hc

theorem stopsAt_cons {letters : List β} {c : β} (h : c ∉ letters) (s : List β) :
    StopsAt letters (c :: s) := by
  intro c' hc'
  cases Option.some.inj hc'
  exact h

/-- Words of these letters end where the letters do. -/
theorem word_end {letters x y s t : List β} (hx : ∀ c ∈ x, c ∈ letters)
    (hy : ∀ c ∈ y, c ∈ letters) (hs : StopsAt letters s) (ht : StopsAt letters t)
    (h : x ++ s = y ++ t) : x = y ∧ s = t := by
  induction x generalizing y with
  | nil =>
    cases y with
    | nil => exact ⟨rfl, h⟩
    | cons d y =>
      rw [List.nil_append] at h
      exact absurd (hy d List.mem_cons_self) (hs d (by rw [h]; rfl))
  | cons c x ih =>
    cases y with
    | nil =>
      rw [List.nil_append] at h
      exact absurd (hx c List.mem_cons_self) (ht c (by rw [← h]; rfl))
    | cons d y =>
      simp only [List.cons_append, List.cons.injEq] at h
      obtain ⟨rfl, h⟩ := h
      obtain ⟨rfl, hst⟩ := ih (fun c' hc => hx c' (List.mem_cons_of_mem c hc))
        (fun c' hc => hy c' (List.mem_cons_of_mem c hc)) h
      exact ⟨rfl, hst⟩

section Items

variable {d e : β} {sep close : List β}

def closed (d : β) (sep : List β) (e : β) (close : List β) (f : α → List β) (l : List α) :
    List β :=
  l.flatMap (fun a => d :: (sep ++ f a)) ++ e :: close

theorem closed_follows (hd : ∀ s, follows (d :: s)) (he : ∀ s, follows (e :: s)) (l : List α)
    (s : List β) : follows (closed d sep e close f l ++ s) := by
  cases l with
  | nil => exact he _
  | cons a l =>
    simp only [closed, List.flatMap_cons, List.cons_append]
    exact hd _

/-- One item in front of those that are told apart already. -/
theorem Apart.cons_closed (hd : ∀ s, follows (d :: s)) (he : ∀ s, follows (e :: s)) {l k : List α}
    {s t : List β} (hab : Apart follows f a b)
    (hlk : Apart (fun _ => True) (closed d sep e close f) l k)
    (heq : f a ++ (closed d sep e close f l ++ s) = f b ++ (closed d sep e close f k ++ t)) :
    a :: l = b :: k ∧ s = t := by
  obtain ⟨rfl, hrest⟩ := hab _ _ (closed_follows hd he l s) (closed_follows hd he k t) heq
  obtain ⟨rfl, hst⟩ := hlk s t trivial trivial hrest
  exact ⟨rfl, hst⟩

/-- The separator and the closing delimiter are told apart by how they begin. -/
theorem closed_apart (hde : d ≠ e) (hd : ∀ s, follows (d :: s)) (he : ∀ s, follows (e :: s))
    {l k : List α} (h : ∀ p ∈ l.zip k, Apart follows f p.1 p.2) :
    Apart (fun _ => True) (closed d sep e close f) l k := by
  induction l generalizing k with
  | nil =>
    intro s t _ _ heq
    cases k with
    | nil => exact ⟨rfl, by simpa [closed] using heq⟩
    | cons b k =>
      simp only [closed, List.flatMap_nil, List.flatMap_cons, List.nil_append, List.cons_append,
        List.cons.injEq] at heq
      exact absurd heq.1.symm hde
  | cons a l ih =>
    intro s t _ _ heq
    cases k with
    | nil =>
      simp only [closed, List.flatMap_nil, List.flatMap_cons, List.nil_append, List.cons_append,
        List.cons.injEq] at heq
      exact absurd heq.1 hde
    | cons b k =>
      have hab : Apart follows f a b := h (a, b) List.mem_cons_self
      have hlk := ih (fun p hp => h p (List.mem_cons_of_mem _ hp))
      exact hab.cons_closed hd he hlk (by simpa [closed] using heq)

/-- The same with no separator in front of the first item. -/
theorem cons_closed_apart (hde : d ≠ e) (hd : ∀ s, follows (d :: s))
    (he : ∀ s, follows (e :: s)) {l k : List α} {s t : List β}
    (h : ∀ p ∈ (a :: l).zip (b :: k), Apart follows f p.1 p.2)
    (heq : f a ++ (closed d sep e close f l ++ s) = f b ++ (closed d sep e close f k ++ t)) :
    a :: l = b :: k ∧ s = t := by
  have hab : Apart follows f a b := h (a, b) List.mem_cons_self
  have hlk : Apart (fun _ => True) (closed d sep e close f) l k :=
    closed_apart hde hd he (fun p hp => h p (List.mem_cons_of_mem _ hp))
  exact hab.cons_closed hd he hlk heq

/-- Items behind an opening text, with a text of its own for no items at all. -/
def enclosed (first empty : List β) (d : β) (sep : List β) (e : β) (close : List β)
    (f : α → List β) : List α → List β
  | [] => empty
  | a :: l => first ++ (f a ++ closed d sep e close f l)

/-- No items at all are told apart by their own text, or by the number of items. -/
theorem enclosed_apart (hde : d ≠ e) (hd : ∀ s, follows (d :: s))
    (he : ∀ s, follows (e :: s)) {first empty : List β} {l k : List α}
    (hnil : l.length = k.length ∨ ∀ s t, first ++ s ≠ empty ++ t)
    (h : ∀ p ∈ l.zip k, Apart follows f p.1 p.2) :
    Apart (fun _ => True) (enclosed first empty d sep e close f) l k := by
  intro s t _ _ heq
  cases l with
  | nil =>
    cases k with
    | nil => exact ⟨rfl, List.append_cancel_left heq⟩
    | cons b k =>
      cases hnil with
      | inl hnil => cases hnil
      | inr hnil => exact absurd (by simpa [enclosed] using heq.symm) (hnil _ s)
  | cons a l =>
    cases k with
    | nil =>
      cases hnil with
      | inl hnil => cases hnil
      | inr hnil => exact absurd (by simpa [enclosed] using heq) (hnil _ t)
    | cons b k =>
      simp only [enclosed, List.append_assoc] at heq
      exact cons_closed_apart hde hd he h (List.append_cancel_left heq)

end Items

end Delimited
