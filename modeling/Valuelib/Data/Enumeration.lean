import Valuelib.Data.StorableData
import Valuelib.Immutable.Quoting

namespace Valuelib.Data
open Text Immutable

def asText (s : List CChar) : String := String.ofList (s.map (fun c => Char.ofNat c.toNat))

def equals (l : List CChar) (r : AnyString) : Bool :=
  l.length == r.value.size && l.take r.value.size == r.value.text

def indexOf (i : Nat) : List AnyString → List CChar → Except Failure Nat
  | [], s => .error (.invalidArgument ("value not valid : " ++ asText s))
  | first :: rest, s => if equals s first then .ok i else indexOf (i + 1) rest s

def stringOf (i : Nat) : List AnyString → Nat → Except Failure (List CChar)
  | [], search => .error (.invalidArgument ("value not valid : " ++ toString search))
  | first :: rest, search => if search = i then .ok first.text else stringOf (i + 1) rest search

def findIndex (sequence : List AnyString) (s : List CChar) : Except Failure Nat :=
  indexOf 0 sequence s

def nthString (t : List AnyString) (i : Nat) : Except Failure (List CChar) :=
  if i ≥ t.length then .error (.invalidArgument ("value not valid : " ++ toString i))
  else stringOf 0 t i

/-- The tag of an `enumeration`, as the macro generates it from a list of names.
The enumerators are numbered in the underlying type `int`. -/
structure Tag where
  strings : List AnyString
  distinct : (strings.map AnyString.text).Nodup
  representable : strings.length ≤ 2147483648

def sizeT (e : Int32) : Nat := (e.toInt % UInt64.size).toNat

namespace Tag

/-- `enumeration::from_string`, with its cast to the enumerators. -/
def fromString (tag : Tag) (s : List CChar) : Except Failure Int32 :=
  (findIndex tag.strings s).map Int32.ofNat

def toString (tag : Tag) (e : Int32) : Except Failure (List CChar) :=
  nthString tag.strings (sizeT e)

def names (tag : Tag) : List (List CChar) := tag.strings.map AnyString.text

def Listed (tag : Tag) (e : Int32) : Prop := 0 ≤ e.toInt ∧ e.toInt < tag.strings.length

end Tag

theorem equals_iff {l : List CChar} {r : AnyString} : equals l r = true ↔ l = r.text := by
  have hlength : r.text.length = r.value.size := r.value.length_text
  rw [equals, Bool.and_eq_true, beq_iff_eq, beq_iff_eq]
  constructor
  · intro h
    rw [List.take_of_length_le (Nat.le_of_eq h.1)] at h
    exact h.2
  · intro h
    subst h
    exact ⟨hlength, List.take_of_length_le (Nat.le_of_eq hlength)⟩

/-- The search by text finds the first string that has it. -/
theorem indexOf_eq (i : Nat) (strings : List AnyString) (s : List CChar) :
    indexOf i strings s =
      if s ∈ strings.map AnyString.text then .ok (i + (strings.map AnyString.text).idxOf s)
      else .error (.invalidArgument ("value not valid : " ++ asText s)) := by
  induction strings generalizing i with
  | nil => rfl
  | cons first rest ih =>
    rw [indexOf, ih, List.map_cons, List.idxOf_cons]
    by_cases hs : s = first.text
    · rw [if_pos (equals_iff.mpr hs), if_pos (hs ▸ List.mem_cons_self)]
      simp [hs]
    · have hne : (first.text == s) = false := beq_eq_false_iff_ne.mpr (Ne.symm hs)
      rw [if_neg (mt equals_iff.mp hs), hne]
      simp only [List.mem_cons, hs, false_or, cond_false, Nat.add_assoc, Nat.add_comm 1]

/-- The search by index. -/
theorem stringOf_eq (i k : Nat) (strings : List AnyString) {s : List CChar}
    (h : (strings.map AnyString.text)[k]? = some s) : stringOf i strings (i + k) = .ok s := by
  induction strings generalizing i k with
  | nil => cases h
  | cons first rest ih =>
    cases k with
    | zero =>
      simp only [List.map_cons, List.getElem?_cons_zero, Option.some.injEq] at h
      rw [stringOf, if_pos (Nat.add_zero i), h]
    | succ k =>
      have hrest := ih (i + 1) k (by simpa using h)
      have hindex : i + (k + 1) = i + 1 + k := by omega
      rw [stringOf, if_neg (by omega), hindex, hrest]

theorem nthString_of_lt {strings : List AnyString} {k : Nat} {s : List CChar}
    (h : (strings.map AnyString.text)[k]? = some s) : nthString strings k = .ok s := by
  have hk : k < strings.length := by
    simpa using (List.getElem?_eq_some_iff.mp h).1
  rw [nthString, if_neg (by omega)]
  exact Nat.zero_add k ▸ stringOf_eq 0 k strings h

theorem toInt_ofNat {n : Nat} (h : n < 2147483648) : (Int32.ofNat n).toInt = n :=
  Int32.toInt_ofNat_of_lt h

theorem sizeT_of_nonneg {e : Int32} (h : 0 ≤ e.toInt) : (sizeT e : Int) = e.toInt := by
  have hlt : e.toInt < 2147483648 := e.toInt_lt
  have hmod : e.toInt % (UInt64.size : Int) = e.toInt := by
    apply Int.emod_eq_of_lt h
    unfold UInt64.size
    omega
  rw [sizeT, hmod]
  omega

/-- A negative enumerator becomes an index beyond every list. -/
theorem sizeT_of_neg {e : Int32} (h : e.toInt < 0) : 2147483648 ≤ sizeT e := by
  have hle : -2147483648 ≤ e.toInt := e.le_toInt
  unfold sizeT UInt64.size
  omega

namespace Tag

variable {tag : Tag} {s : List CChar} {e : Int32}

theorem sizeT_lt_iff : sizeT e < tag.strings.length ↔ tag.Listed e := by
  have hrange := tag.representable
  unfold Listed
  by_cases h : 0 ≤ e.toInt
  · have := sizeT_of_nonneg h
    omega
  · have := sizeT_of_neg (e := e) (by omega)
    omega

/-- A listed enumerator has the name at its place. -/
theorem toString_of_listed (h : tag.Listed e) : ∃ s, tag.toString e = .ok s ∧ s ∈ tag.names ∧
    (tag.names.idxOf s : Int) = e.toInt := by
  have hlt := sizeT_lt_iff.mpr h
  have hnames : sizeT e < tag.names.length := by simpa [names] using hlt
  have hnth := nthString_of_lt (List.getElem?_eq_getElem hnames)
  refine ⟨tag.names[sizeT e], hnth, List.getElem_mem hnames, ?_⟩
  have hindex : tag.names.idxOf tag.names[sizeT e] = sizeT e :=
    tag.distinct.idxOf_getElem (sizeT e) hnames
  rw [hindex]
  exact sizeT_of_nonneg h.1

theorem toString_of_not_listed (h : ¬ tag.Listed e) :
    tag.toString e =
      .error (.invalidArgument ("value not valid : " ++ ToString.toString (sizeT e))) := by
  have hge := mt sizeT_lt_iff.mp h
  exact if_pos (by omega)

theorem findIndex_eq (tag : Tag) (s : List CChar) :
    findIndex tag.strings s = if s ∈ tag.names then .ok (tag.names.idxOf s)
      else .error (.invalidArgument ("value not valid : " ++ asText s)) := by
  rw [findIndex, indexOf_eq, Nat.zero_add]
  rfl

/-- A name gives the enumerator at its place. -/
theorem fromString_of_mem (h : s ∈ tag.names) :
    tag.fromString s = .ok (Int32.ofNat (tag.names.idxOf s)) := by
  rw [fromString, findIndex_eq, if_pos h]
  rfl

/-- A text that is no name is refused. -/
theorem fromString_of_not_mem (h : s ∉ tag.names) :
    tag.fromString s = .error (.invalidArgument ("value not valid : " ++ asText s)) := by
  rw [fromString, findIndex_eq, if_neg h]
  rfl

theorem toInt_idxOf (h : s ∈ tag.names) :
    (Int32.ofNat (tag.names.idxOf s)).toInt = tag.names.idxOf s := by
  have hlt := List.idxOf_lt_length_of_mem h
  have hrange := tag.representable
  have hlength : tag.names.length = tag.strings.length := List.length_map _
  exact toInt_ofNat (by omega)

theorem toString_fromString (h : tag.fromString s = .ok e) : tag.toString e = .ok s := by
  by_cases hs : s ∈ tag.names
  · rw [fromString_of_mem hs] at h
    cases h
    have hlt := List.idxOf_lt_length_of_mem hs
    have hindex : sizeT (Int32.ofNat (tag.names.idxOf s)) = tag.names.idxOf s := by
      have hint := toInt_idxOf hs
      have hnat := sizeT_of_nonneg (e := Int32.ofNat (tag.names.idxOf s)) (by omega)
      omega
    rw [toString, hindex]
    apply nthString_of_lt
    exact (List.getElem?_eq_getElem hlt).trans (congrArg some (List.getElem_idxOf hlt))
  · rw [fromString_of_not_mem hs] at h
    cases h

theorem fromString_toString (h : tag.Listed e) :
    ∃ s, tag.toString e = .ok s ∧ tag.fromString s = .ok e := by
  obtain ⟨s, hs, hmem, hindex⟩ := toString_of_listed h
  refine ⟨s, hs, ?_⟩
  rw [fromString_of_mem hmem]
  congr 1
  apply Int32.toInt_inj.mp
  rw [toInt_idxOf hmem, hindex]

end Tag

end Valuelib.Data
