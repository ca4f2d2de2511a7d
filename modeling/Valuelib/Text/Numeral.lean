import Mathlib.Data.List.Basic
import Mathlib.Data.Nat.Basic

namespace Valuelib.Text

/-- The 8-bit `char`, by its unsigned value. -/
abbrev CChar := UInt8

namespace CChar

def nul : CChar := 0
def alert : CChar := 7
def backspace : CChar := 8
def tab : CChar := 9
def newline : CChar := 10
def verticalTab : CChar := 11
def formFeed : CChar := 12
def carriageReturn : CChar := 13
def doubleQuote : CChar := 34
def quote : CChar := 39
def comma : CChar := 44
def backslash : CChar := 92

def isprint (c : CChar) : Bool := decide (32 ≤ c) && decide (c < 127)

/-- A property of all chars is checked one char at a time. -/
theorem forall_of_ofNat {p : CChar → Prop} (h : ∀ n < 256, p (UInt8.ofNat n)) (c : CChar) :
    p c := by
  have hc := h c.toNat c.toNat_lt
  rwa [UInt8.ofNat_toNat] at hc

end CChar

def chars (s : String) : List CChar := s.toList.map Char.toUInt8

/-- An unsigned number as the streams and `std::to_string` write it. -/
def numeral (base n : Nat) : List CChar := (Nat.toDigits base n).map Char.toUInt8

variable {b n : Nat}

def digit (d : Nat) : CChar := d.digitChar.toUInt8

def minus : CChar := 45

/-- A numeral is one digit, or the numeral of the quotient followed by the last digit. -/
theorem numeral_eq_if (hb : 1 < b) :
    numeral b n = if n < b then [digit n] else numeral b (n / b) ++ [digit (n % b)] := by
  unfold numeral digit
  rw [Nat.toDigits_eq_if hb]
  split
  · rfl
  · simp

theorem dec_eq_if :
    numeral 10 n = if n < 10 then [digit n] else numeral 10 (n / 10) ++ [digit (n % 10)] := by
  apply numeral_eq_if
  omega

theorem hex_eq_if :
    numeral 16 n = if n < 16 then [digit n] else numeral 16 (n / 16) ++ [digit (n % 16)] := by
  apply numeral_eq_if
  omega

theorem numeral_length_pos : 0 < (numeral b n).length := by
  rw [numeral, List.length_map]
  exact Nat.length_toDigits_pos

/-- The digits up to `f` are told apart, and none is the sign. -/
theorem digit_inj {d e : Nat} (hd : d < 16) (he : e < 16) (h : digit d = digit e) : d = e := by
  have hall : ∀ d < 16, ∀ e < 16, digit d = digit e → d = e := by decide
  exact hall d hd e he h

theorem digit_ne_minus {d : Nat} (hd : d < 16) : digit d ≠ minus := by
  have hall : ∀ d < 16, digit d ≠ minus := by decide
  exact hall d hd

/-- Numerals are made of digits only. -/
theorem digit_of_mem_numeral (hb : 1 < b) {c : CChar} (h : c ∈ numeral b n) :
    ∃ d, d < b ∧ c = digit d := by
  induction n using Nat.strongRecOn with
  | ind n ih =>
    rw [numeral_eq_if hb] at h
    split at h
    · rename_i hn
      exact ⟨n, hn, List.mem_singleton.mp h⟩
    · rename_i hn
      rw [List.mem_append, List.mem_singleton] at h
      cases h with
      | inl h => exact ih (n / b) (Nat.div_lt_self (by omega) hb) h
      | inr h => exact ⟨n % b, Nat.mod_lt n (by omega), h⟩

/-- Digits have no sign. -/
theorem minus_not_mem_numeral (hb : 1 < b) (hb16 : b ≤ 16) : minus ∉ numeral b n := by
  intro h
  obtain ⟨d, hd, hminus⟩ := digit_of_mem_numeral hb h
  exact digit_ne_minus (by omega) hminus.symm

theorem count_minus_numeral (hb : 1 < b) (hb16 : b ≤ 16) : (numeral b n).count minus = 0 := by
  apply List.count_eq_zero.mpr
  exact minus_not_mem_numeral hb hb16

/-- Hexadecimal is never longer than decimal. -/
theorem hex_length_le {m : Nat} (h : m ≤ n) : (numeral 16 m).length ≤ (numeral 10 n).length := by
  induction m using Nat.strongRecOn generalizing n with
  | ind m ih =>
    rw [hex_eq_if]
    split
    · exact numeral_length_pos
    · rw [dec_eq_if (n := n), if_neg (by omega)]
      have hdiv := ih (m / 16) (by omega) (n := n / 10) (by omega)
      simpa using hdiv

/-- One text that is read in both bases: the hexadecimal reading is larger as
soon as there are two digits. -/
theorem lt_of_hex_eq_dec {m : Nat} (h : numeral 16 m = numeral 10 n) :
    n < 10 ∧ m = n ∨ n < m := by
  induction m using Nat.strongRecOn generalizing n with
  | ind m ih =>
    rw [hex_eq_if, dec_eq_if] at h
    by_cases hm : m < 16
    · by_cases hn : n < 10
      · simp only [if_pos hm, if_pos hn, List.cons.injEq, and_true] at h
        exact .inl ⟨hn, digit_inj hm (by omega) h⟩
      · have hlength := congrArg List.length h
        have hpos := numeral_length_pos (b := 10) (n := n / 10)
        simp only [if_pos hm, if_neg hn, List.length_append, List.length_singleton] at hlength
        omega
    · by_cases hn : n < 10
      · have hlength := congrArg List.length h
        have hpos := numeral_length_pos (b := 16) (n := m / 16)
        simp only [if_neg hm, if_pos hn, List.length_append, List.length_singleton] at hlength
        omega
      · simp only [if_neg hm, if_neg hn] at h
        obtain ⟨hfront, hlast⟩ := List.append_inj' h rfl
        have hdigit : m % 16 = n % 10 := by
          simp only [List.cons.injEq, and_true] at hlast
          exact digit_inj (by omega) (by omega) hlast
        have hprefix := ih (m / 16) (by omega) hfront
        omega

/-- The same in both bases: the numbers of one decimal digit. -/
theorem hex_eq_dec_iff : numeral 16 n = numeral 10 n ↔ n < 10 := by
  constructor
  · intro h
    have := lt_of_hex_eq_dec h
    omega
  · intro h
    rw [hex_eq_if, dec_eq_if, if_pos (by omega), if_pos h]

end Valuelib.Text
