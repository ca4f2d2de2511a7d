import Valuelib.Tuple.TextsCompose
import Valuelib.Text.Reading

namespace Valuelib.Tuple
open Text

def layoutBreak (k : Nat) : List CChar :=
  if 0 < k ∧ 64 ∣ k then chars "\n  " else if 16 ∣ k then chars " " else []

def digitPair (e : UInt8) : List CChar := [digit (e.toNat / 16), digit (e.toNat % 16)]

def isLayout (c : CChar) : Bool := decide (c ∈ chars "[] \n")

def readPairs : List CChar → Option (List UInt8)
  | [] => some []
  | [_] => none
  | c :: d :: cs => do
    let high ← digitValue 16 c
    let low ← digitValue 16 d
    let bs ← readPairs cs
    return UInt8.ofNat (16 * high + low) :: bs

def undump (text : List CChar) : Option (List UInt8) :=
  readPairs (text.filter (fun c => !isLayout c))

/-- What is expected of the dump of some bytes. -/
structure FaithfulDump (bs : List UInt8) : Prop where
  layout : (Value.bytes bs).freshText =
    chars "[" ++ bs.zipIdx.flatMap (fun ek => layoutBreak ek.2 ++ digitPair ek.1) ++ chars " ]"
  read : undump (Value.bytes bs).freshText = some bs
  distinct : ∀ cs, (Value.bytes bs).freshText = (Value.bytes cs).freshText ↔ bs = cs

theorem byteBreak_eq (k : Nat) : byteBreak k = layoutBreak k := by
  simp only [byteBreak, layoutBreak, Nat.pos_iff_ne_zero, Nat.dvd_iff_mod_eq_zero]

/-- The width and the fill make every byte two digits long. -/
theorem hexByte_eq (e : UInt8) : hexByte e = digitPair e := by
  have he := e.toNat_lt
  have hhigh : e.toNat / 16 < 16 := by omega
  unfold hexByte digitPair
  rw [hex_eq_if]
  split
  · rename_i hlow
    have hzero : digit (e.toNat / 16) = 48 := by
      rw [Nat.div_eq_of_lt hlow]
      rfl
    rw [Nat.mod_eq_of_lt hlow, hzero]
    rfl
  · rw [hex_eq_if, if_pos hhigh]
    rfl

/-- The loop, with the index that it has reached. -/
theorem dump_eq (bs : List UInt8) (count : Nat) :
    dump bs count =
      (bs.zipIdx count).flatMap (fun ek => layoutBreak ek.2 ++ digitPair ek.1) := by
  induction bs generalizing count with
  | nil => rfl
  | cons e bs ih =>
    rw [dump, ih, byteBreak_eq, hexByte_eq, List.zipIdx_cons, List.flatMap_cons]

theorem bytes_freshText (bs : List UInt8) :
    (Value.bytes bs).freshText = chars "[" ++ dump bs 0 ++ chars " ]" := by
  have hpieces : (pieces (.bytes bs)).Pairwise ReadsAlike := List.pairwise_singleton _ _
  rw [(freshText_eq_iff _).mpr hpieces, decimalText_assembled, assembled]

theorem digit_not_layout {d : Nat} (h : d < 16) : isLayout (digit d) = false := by
  have hall : ∀ d < 16, isLayout (digit d) = false := by decide
  exact hall d h

theorem filter_layoutBreak (k : Nat) :
    (layoutBreak k).filter (fun c => !isLayout c) = [] := by
  unfold layoutBreak
  split
  · rfl
  · split <;> rfl

theorem filter_digitPair (e : UInt8) :
    (digitPair e).filter (fun c => !isLayout c) = digitPair e := by
  have he := e.toNat_lt
  have hhigh := digit_not_layout (d := e.toNat / 16) (by omega)
  have hlow := digit_not_layout (d := e.toNat % 16) (by omega)
  simp [digitPair, hhigh, hlow]

/-- Without the layout there are only the digits. -/
theorem filter_dump (bs : List UInt8) (count : Nat) :
    (dump bs count).filter (fun c => !isLayout c) = bs.flatMap digitPair := by
  induction bs generalizing count with
  | nil => rfl
  | cons e bs ih =>
    rw [dump, byteBreak_eq, hexByte_eq, List.filter_append, List.filter_append,
      filter_layoutBreak, filter_digitPair, ih, List.flatMap_cons]
    rfl

theorem readPairs_digitPair (bs : List UInt8) :
    readPairs (bs.flatMap digitPair) = some bs := by
  induction bs with
  | nil => rfl
  | cons e bs ih =>
    have he := e.toNat_lt
    have hhigh := digitValue_digit (b := 16) (by omega) (d := e.toNat / 16) (by omega)
    have hlow := digitValue_digit (b := 16) (by omega) (d := e.toNat % 16) (by omega)
    have hbyte : UInt8.ofNat (16 * (e.toNat / 16) + e.toNat % 16) = e := by
      rw [Nat.div_add_mod, UInt8.ofNat_toNat]
    rw [List.flatMap_cons, digitPair, List.cons_append, List.cons_append, List.nil_append,
      readPairs, hhigh, hlow, ih]
    simp only [Option.bind_eq_bind, Option.bind_some, Option.pure_def, hbyte]

/-- The bytes of a dump are read back. -/
theorem undump_freshText (bs : List UInt8) : undump (Value.bytes bs).freshText = some bs := by
  rw [undump, bytes_freshText, List.filter_append, List.filter_append, filter_dump]
  have hopen : (chars "[").filter (fun c => !isLayout c) = [] := by rfl
  have hclose : (chars " ]").filter (fun c => !isLayout c) = [] := by rfl
  rw [hopen, hclose, List.nil_append, List.append_nil]
  exact readPairs_digitPair bs

/-- Dumps are laid out as expected, can be read back and told apart. -/
theorem dumps_faithful (bs : List UInt8) : FaithfulDump bs := by
  refine ⟨?_, undump_freshText bs, fun cs => ⟨?_, ?_⟩⟩
  · rw [bytes_freshText, dump_eq]
  · intro h
    have hread := undump_freshText bs
    rw [h, undump_freshText] at hread
    exact (Option.some.inj hread).symm
  · intro h
    rw [h]

example : (Value.bytes [1, 171]).freshText = chars "[ 01ab ]" := by rfl

end Valuelib.Tuple
