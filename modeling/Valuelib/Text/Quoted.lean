import Valuelib.Text.Numeral
import Valuelib.Base.PrefixFree

namespace Valuelib.Text
open CChar PrefixFree

def escapedQuote (c : CChar) : List CChar :=
  if c = doubleQuote ∨ c = backslash then [backslash, c] else [c]

/-- `std::quoted`: between double quotes, with a backslash in front of each double
quote and each backslash. -/
def quoted (s : List CChar) : List CChar := doubleQuote :: (s.flatMap escapedQuote ++ [doubleQuote])

/-- One character of the quoted text, in front of what follows. -/
theorem escapedQuote_inj {c d : CChar} {s t : List CChar}
    (h : escapedQuote c ++ s = escapedQuote d ++ t) : c = d ∧ s = t := by
  unfold escapedQuote at h
  split at h
  · split at h
    · simpa using h
    · rename_i hd
      simp only [List.cons_append, List.nil_append, List.cons.injEq] at h
      exact absurd (.inr h.1.symm) hd
  · rename_i hc
    split at h
    · simp only [List.cons_append, List.nil_append, List.cons.injEq] at h
      exact absurd (.inr h.1) hc
    · simpa using h

/-- No character begins like the closing quote. -/
theorem escapedQuote_ne_close {c : CChar} {s t : List CChar} :
    doubleQuote :: s ≠ escapedQuote c ++ t := by
  unfold escapedQuote
  split
  · simp [doubleQuote, backslash]
  · rename_i hc
    intro h
    simp only [List.cons_append, List.nil_append, List.cons.injEq] at h
    exact hc (.inl h.1.symm)

/-- A quoted text ends where its closing quote stands, whatever it contains. -/
theorem quoted_splits : Splits (fun _ => True) quoted := by
  apply Splits.cons
  intro a
  induction a with
  | nil =>
    intro b s t _ _ h
    cases b with
    | nil => simpa using h
    | cons d b =>
      simp only [List.flatMap_nil, List.nil_append, List.flatMap_cons, List.append_assoc] at h
      exact absurd h escapedQuote_ne_close
  | cons c a ih =>
    intro b s t _ _ h
    cases b with
    | nil =>
      simp only [List.flatMap_nil, List.nil_append, List.flatMap_cons, List.append_assoc] at h
      exact absurd h.symm escapedQuote_ne_close
    | cons d b =>
      simp only [List.flatMap_cons, List.append_assoc] at h
      obtain ⟨rfl, hrest⟩ := escapedQuote_inj h
      obtain ⟨rfl, hst⟩ := ih b s t trivial trivial (by simpa using hrest)
      exact ⟨rfl, hst⟩

end Valuelib.Text
