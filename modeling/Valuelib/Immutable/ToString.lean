import Valuelib.Immutable.Quoting
import Valuelib.Text.Reading
import Valuelib.Base.Positional

namespace Valuelib.Immutable
open Text Positional

structure IntegralType where
  signed : Bool
  width : Nat

namespace IntegralType

def lowest (t : IntegralType) : Int := if t.signed then -2 ^ (t.width - 1) else 0

def limit (t : IntegralType) : Int := if t.signed then 2 ^ (t.width - 1) else 2 ^ t.width

theorem lowest_le_zero (t : IntegralType) : t.lowest ≤ 0 := by
  have hpos : (0 : Int) < 2 ^ (t.width - 1) := Int.pow_pos (by omega)
  unfold lowest
  split <;> omega

theorem limit_pos (t : IntegralType) : 0 < t.limit := by
  unfold limit
  split <;> exact Int.pow_pos (by omega)

end IntegralType

@[ext]
structure Integral (t : IntegralType) where
  val : Int
  lowest_le : t.lowest ≤ val
  lt_limit : val < t.limit

variable {t : IntegralType}

/-- `acc /= 10` truncates toward zero and stays in the type. -/
def Integral.divTen (acc : Integral t) : Integral t where
  val := acc.val.tdiv 10
  lowest_le := le_tdiv t.lowest_le_zero acc.lowest_le
  lt_limit := tdiv_lt t.limit_pos acc.lt_limit

theorem Integral.natAbs_divTen (acc : Integral t) :
    acc.divTen.val.natAbs = acc.val.natAbs / 10 := by
  rw [divTen, Int.natAbs_tdiv]
  rfl

/-- The loop of `decimal_digits`, whose body comes before its test. -/
def countDigits (acc : Integral t) (digits : Nat) : Nat :=
  if acc.divTen.val ≠ 0 then countDigits acc.divTen (digits + 1) else digits + 1
termination_by acc.val.natAbs
decreasing_by
  have habs := acc.natAbs_divTen
  omega

def decimalDigits (n : Integral t) : Nat := countDigits n 0

def remainderChar (remainder : Int) : CChar := UInt8.ofInt (48 + remainder)

/-- The loop of `to_string`, which fills the buffer from the right. -/
def fill {length : Nat} : (digit : Nat) → digit ≤ length → Integral t →
    Vector CChar (length + 1) → Vector CChar (length + 1)
  | 0, _, _, buffer => buffer
  | digit + 1, h, acc, buffer =>
    fill digit (by omega) acc.divTen (buffer.set digit (remainderChar (acc.val.tmod 10)))

def toString (n : Integral t) : StringType (decimalDigits n) :=
  string (fill (decimalDigits n) (Nat.le_refl _) n (Vector.replicate _ CChar.nul))

/-- Both loops agree on the number of digits. -/
theorem countDigits_eq (acc : Integral t) (digits : Nat) :
    countDigits acc digits = digits + (numeral 10 acc.val.natAbs).length := by
  have habs := acc.natAbs_divTen
  rw [countDigits, dec_eq_if]
  split
  · rename_i hmore
    rw [if_neg (by omega), countDigits_eq acc.divTen, habs, List.length_append]
    simp
    omega
  · rename_i hlast
    rw [if_pos (by omega)]
    rfl
termination_by acc.val.natAbs
decreasing_by omega

theorem decimalDigits_eq (n : Integral t) :
    decimalDigits n = (numeral 10 n.val.natAbs).length := by
  rw [decimalDigits, countDigits_eq, Nat.zero_add]

/-- The buffer has room for all digits. -/
theorem natAbs_lt_pow (n : Integral t) : n.val.natAbs < 10 ^ decimalDigits n := by
  have hpos := numeral_length_pos (b := 10) (n := n.val.natAbs)
  rw [← decimalDigits_eq] at hpos
  apply (Nat.length_toDigits_le_iff (by omega) hpos).mp
  rw [decimalDigits_eq, numeral, List.length_map]

/-- The loop writes the remainders in front of what stands in the buffer. -/
theorem fill_toList {length digit : Nat} (h : digit ≤ length) (acc : Integral t)
    (buffer : Vector CChar (length + 1)) :
    (fill digit h acc buffer).toList =
      (digits 10 digit acc.val).map remainderChar ++ buffer.toList.drop digit := by
  induction digit generalizing acc buffer with
  | zero => rfl
  | succ digit ih =>
    have hdrop : (buffer.set digit (remainderChar (acc.val.tmod 10))).toList.drop digit =
        remainderChar (acc.val.tmod 10) :: buffer.toList.drop (digit + 1) := by
      rw [Vector.toList_set, List.drop_eq_getElem_cons (by simp; omega),
        List.drop_set_of_lt (by omega)]
      simp
    rw [fill, ih (by omega), hdrop, digits]
    simp [Integral.divTen]

theorem text_toString (n : Integral t) :
    (toString n).text = (digits 10 (decimalDigits n) n.val).map remainderChar := by
  rw [StringType.text, toString, string, fill_toList, List.take_left' (by simp [StringType.size])]

theorem toNat_remainderChar {d : Int} (h : d.natAbs < 10) :
    ((remainderChar d).toNat : Int) = 48 + d := by
  rw [remainderChar, UInt8.ofInt, UInt8.toNat_ofNat']
  omega

/-- The number that a text of remainders stands for, of either sign. -/
def remainderValue (text : List CChar) : Int := value 10 (text.map (fun c => (c.toNat : Int) - 48))

/-- Even the remainders of a negative number give it back. -/
theorem remainderValue_toString (n : Integral t) : remainderValue (toString n).text = n.val := by
  have hchars : (digits 10 (decimalDigits n) n.val).map
      (fun d => ((remainderChar d).toNat : Int) - 48) = digits 10 (decimalDigits n) n.val := by
    apply (List.map_congr_left _).trans (List.map_id' _)
    intro d hd
    have hremainder := toNat_remainderChar (natAbs_lt_of_mem_digits (by omega) hd)
    omega
  rw [remainderValue, text_toString, List.map_map]
  exact (congrArg (value 10) hchars).trans (value_digits (natAbs_lt_pow n))

/-- Different values are converted to different texts. -/
theorem toString_injective {m n : Integral t} (h : (toString m).text = (toString n).text) :
    m = n := by
  apply Integral.ext
  rw [← remainderValue_toString m, h, remainderValue_toString]

theorem remainderChar_digit {d : Nat} (h : d < 10) : remainderChar d = digit d := by
  have hall : ∀ d < 10, remainderChar (d : Nat) = digit d := by decide
  exact hall d h

/-- Without a sign the remainders are the digits. -/
theorem digits_numeral (n : Nat) :
    (digits 10 (numeral 10 n).length n).map remainderChar = numeral 10 n := by
  induction n using Nat.strongRecOn with
  | ind n ih =>
    have hlt : n % 10 < 10 := Nat.mod_lt n (by omega)
    have hmod : remainderChar ((n : Int).tmod 10) = digit (n % 10) := remainderChar_digit hlt
    rw [dec_eq_if]
    split
    · rename_i hn
      rw [Nat.mod_eq_of_lt hn] at hmod
      simpa [digits] using hmod
    · rename_i hn
      have hdiv := ih (n / 10) (by omega)
      rw [List.length_append, List.length_singleton, digits, List.map_append]
      exact congr (congrArg HAppend.hAppend hdiv) (congrArg (fun c => [c]) hmod)

/-- What the conversion of an integer is meant to be. -/
structure DecimalConversion (n : Integral t) : Prop where
  canonical : (toString n).text = integerNumeral n.val
  parses : readInteger (toString n).text = some n.val
  distinct : ∀ m : Integral t, (toString m).text = (toString n).text → m = n
  size : 0 ≤ n.val → (toString n).size = decimalDigits n

/-- No room is left for the sign. -/
theorem toString_canonical_iff (n : Integral t) :
    (toString n).text = integerNumeral n.val ↔ 0 ≤ n.val := by
  constructor
  · intro h
    have hlength := congrArg List.length h
    rw [StringType.length_text, decimalDigits_eq, integerNumeral, List.length_append] at hlength
    by_contra hneg
    rw [if_pos (by omega)] at hlength
    simp at hlength
  · intro h
    obtain ⟨m, hm⟩ := Int.eq_ofNat_of_zero_le h
    rw [text_toString, decimalDigits_eq, integerNumeral, if_neg (by omega), List.nil_append, hm]
    exact digits_numeral m

/-- The conversion is right exactly when there is no sign to be written. -/
theorem decimalConversion_iff (n : Integral t) : DecimalConversion n ↔ 0 ≤ n.val := by
  rw [← toString_canonical_iff]
  constructor
  · intro h
    exact h.canonical
  · intro h
    refine ⟨h, ?_, ?_, fun _ => rfl⟩
    · rw [h]
      exact readInteger_integerNumeral n.val
    · intro m hm
      exact toString_injective hm

/-- The text of minus five is a plus sign. -/
theorem minus_five_converted :
    let n : Integral ⟨true, 32⟩ := ⟨-5, by decide, by decide⟩
    (toString n).text = chars "+" ∧ ¬ DecimalConversion n := by
  intro n
  constructor
  · rw [text_toString, decimalDigits_eq]
    decide +kernel
  · intro h
    have hnonneg := (toString_canonical_iff n).mp h.canonical
    revert hnonneg
    decide

end Valuelib.Immutable
