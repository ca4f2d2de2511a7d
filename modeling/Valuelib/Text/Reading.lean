import Valuelib.Text.Numeral

namespace Valuelib.Text

variable {b n : Nat}

def digitValue (b : Nat) (c : CChar) : Option Nat := (List.range b).find? (fun d => digit d = c)

def readNumeral (b : Nat) (text : List CChar) : Option Nat :=
  if text = [] then none
  else text.foldlM (fun n c => (digitValue b c).map (b * n + ·)) 0

def integerNumeral (n : Int) : List CChar :=
  (if n < 0 then [minus] else []) ++ numeral 10 n.natAbs

def readInteger : List CChar → Option Int
  | [] => none
  | c :: cs =>
    if c = minus then (readNumeral 10 cs).map (fun n : Nat => -(n : Int))
    else (readNumeral 10 (c :: cs)).map (fun n : Nat => (n : Int))

theorem digitValue_digit (hb : b ≤ 16) {d : Nat} (hd : d < b) :
    digitValue b (digit d) = some d := by
  rw [digitValue, List.find?_range_eq_some]
  refine ⟨by simp, List.mem_range.mpr hd, ?_⟩
  intro e he
  have hne : digit e ≠ digit d := fun h => Nat.ne_of_lt he (digit_inj (by omega) (by omega) h)
  simp [hne]

theorem numeral_ne_nil : numeral b n ≠ [] := by
  apply List.ne_nil_of_length_pos
  exact numeral_length_pos

theorem readNumeral_numeral (hb : 1 < b) (hb16 : b ≤ 16) :
    readNumeral b (numeral b n) = some n := by
  rw [readNumeral, if_neg numeral_ne_nil]
  induction n using Nat.strongRecOn with
  | ind n ih =>
    rw [numeral_eq_if hb]
    split
    · rename_i hn
      simp [digitValue_digit hb16 hn]
    · rename_i hn
      have hdiv := ih (n / b) (Nat.div_lt_self (by omega) hb)
      have hmod : n % b < b := Nat.mod_lt n (by omega)
      rw [List.foldlM_append, hdiv]
      simp [digitValue_digit hb16 hmod, Nat.div_add_mod]

/-- The text of an integer is read back as the integer. -/
theorem readInteger_integerNumeral (n : Int) : readInteger (integerNumeral n) = some n := by
  have hread := readNumeral_numeral (b := 10) (n := n.natAbs) (by omega) (by omega)
  unfold integerNumeral
  split
  · rename_i hneg
    simp only [List.cons_append, List.nil_append, readInteger, if_pos, hread, Option.map_some]
    congr 1
    omega
  · rename_i hpos
    rw [List.nil_append]
    cases hdigits : numeral 10 n.natAbs with
    | nil => exact absurd hdigits numeral_ne_nil
    | cons c cs =>
      have hc : c ≠ minus := by
        intro he
        apply minus_not_mem_numeral (b := 10) (n := n.natAbs) (by omega) (by omega)
        rw [hdigits, he]
        exact List.mem_cons_self
      rw [readInteger, if_neg hc, ← hdigits, hread, Option.map_some]
      congr 1
      omega

theorem integerNumeral_ne_nil (m : Int) : integerNumeral m ≠ [] := by
  apply List.append_ne_nil_of_right_ne_nil
  exact numeral_ne_nil

def numeralChars : List CChar := chars "-0123456789"

theorem digit_mem_numeralChars {d : Nat} (h : d < 10) : digit d ∈ numeralChars := by
  have hall : ∀ d < 10, digit d ∈ numeralChars := by decide
  exact hall d h

theorem mem_integerNumeral {m : Int} {c : CChar} (h : c ∈ integerNumeral m) : c ∈ numeralChars := by
  rw [integerNumeral, List.mem_append] at h
  cases h with
  | inl h =>
    have hc : c = minus := by
      split at h
      · exact List.mem_singleton.mp h
      · cases h
    rw [hc]
    exact List.mem_cons_self
  | inr h =>
    obtain ⟨d, hd, hc⟩ := digit_of_mem_numeral (by omega) h
    rw [hc]
    exact digit_mem_numeralChars hd

theorem integerNumeral_injective : Function.Injective integerNumeral := by
  intro m n h
  have hm := readInteger_integerNumeral m
  rw [h, readInteger_integerNumeral] at hm
  exact (Option.some.inj hm).symm

end Valuelib.Text
