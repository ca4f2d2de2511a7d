import Valuelib.Immutable.StringType
import Valuelib.Base.PrefixFree
import Mathlib.Tactic.ByContra

namespace Valuelib.Immutable
open Text PrefixFree

namespace StringType

variable {length rLength : Nat}

@[simp] theorem length_text (s : StringType length) : s.text.length = length := by
  simp [text, size]

theorem getElem?_text (s : StringType length) (i : Nat) :
    s.text[i]? = if i < length then some (s.charAt i) else none := by
  unfold text size
  split
  · rename_i hi
    rw [List.getElem?_take_of_lt hi, Vector.getElem?_toList, charAt]
    rw [Vector.getElem?_eq_getElem (Nat.lt_succ_of_lt hi)]
    rfl
  · rename_i hi
    rw [List.getElem?_eq_none]
    simp
    omega

theorem text_eq {s : StringType length} {l : List CChar} (hl : l.length = length)
    (h : ∀ i, i < length → l[i]? = some (s.charAt i)) : s.text = l := by
  apply List.ext_getElem?
  intro i
  rw [getElem?_text]
  split
  · rename_i hi
    exact (h i hi).symm
  · rename_i hi
    rw [List.getElem?_eq_none (by omega)]

theorem charAt_ofFn (g : Fin (length + 1) → CChar) {i : Nat} (h : i < length + 1) :
    (string (Vector.ofFn g)).charAt i = g ⟨i, h⟩ := by
  simp [string, charAt, h]

theorem text_append {s : StringType length} {r : StringType rLength} {i : Nat} :
    (s.text ++ r.text)[i]? =
      if i < length then some (s.charAt i)
      else if i - length < rLength then some (r.charAt (i - length)) else none := by
  rw [List.getElem?_append, length_text, getElem?_text, getElem?_text]
  split <;> rfl

@[simp] theorem text_concat (s : StringType length) (r : StringType rLength) :
    (s.concat r).text = s.text ++ r.text := by
  apply text_eq (by simp)
  intro i hi
  rw [text_append, concat, charAt_ofFn _ (Nat.lt_succ_of_lt hi)]
  by_cases h : i < length
  · simp [h]
  · simp [h, hi, show i - length < rLength by omega]

@[simp] theorem text_concatArray (s : StringType length) (r : Vector CChar (rLength + 1)) :
    (s.concatArray r).text = s.text ++ (string r).text := by
  apply text_eq (by simp)
  intro i hi
  rw [text_append, concatArray, charAt_ofFn _ (Nat.lt_succ_of_lt hi)]
  by_cases h : i < length
  · simp [h]
  · simp [h, show i - length < rLength by omega, string, charAt]

end StringType

@[simp] theorem text_literal (l : List CChar) : (string (literal l)).text = l := by
  simp [string, literal, StringType.text, StringType.size]

def quotedText (l : List CChar) : List CChar := CChar.quote :: (l ++ [CChar.quote])

/-- Quoting never fails, and puts the text between quotes. -/
theorem quoted_spec {length : Nat} (s : StringType length) :
    ∃ q, quoted s = .ok q ∧ q.text = quotedText s.text := by
  refine ⟨_, rfl, ?_⟩
  simp [AnyString.text, quotedText]

def listTail (l : List (List CChar)) : List CChar :=
  l.flatMap (fun s => CChar.comma :: quotedText s)

theorem toQuotedListFrom_spec (ss : List AnyString) :
    ∃ q, toQuotedListFrom ss = .ok q ∧ q.text = listTail (ss.map AnyString.text) := by
  induction ss with
  | nil => exact ⟨_, rfl, by simp [AnyString.text, listTail]⟩
  | cons s ss ih =>
    obtain ⟨rest, hrest, htail⟩ := ih
    obtain ⟨q, hq, hquoted⟩ := quoted_spec s.value
    refine ⟨_, by rw [toQuotedListFrom, hq, hrest]; rfl, ?_⟩
    simp only [AnyString.text] at hquoted htail
    simp [AnyString.text, hquoted, htail, listTail]

/-- A quoted list is the quoted texts with commas between them. -/
theorem toQuotedList_spec (t : Strings) :
    ∃ q, toQuotedList t = .ok q ∧
      q.text = quotedText t.first.text ++ listTail (t.rest.map AnyString.text) := by
  obtain ⟨rest, hrest, htail⟩ := toQuotedListFrom_spec t.rest
  obtain ⟨q, hq, hquoted⟩ := quoted_spec t.first.value
  refine ⟨_, by rw [toQuotedList, hq, hrest]; rfl, ?_⟩
  simp only [AnyString.text] at hquoted htail
  simp [AnyString.text, hquoted, htail]

/-- Without quotes inside, the closing quote is the first one to come. -/
theorem quotedText_splits : Splits (fun l => CChar.quote ∉ l) quotedText := by
  have hterminated := Splits.terminated CChar.quote
  exact hterminated.cons CChar.quote

/-- Lists of texts without quotes can be read back. -/
theorem quotedTexts_inj {a b : List CChar} {l k : List (List CChar)}
    (hl : ∀ x ∈ a :: l, CChar.quote ∉ x) (hk : ∀ x ∈ b :: k, CChar.quote ∉ x)
    (h : quotedText a ++ listTail l = quotedText b ++ listTail k) : a :: l = b :: k := by
  have hsep : CChar.comma :: [] ≠ [] := List.cons_ne_nil CChar.comma []
  exact quotedText_splits.separated_inj hsep hl hk h

/-- What the quoting test demands of one string. -/
structure QuotedAsDemanded (s : AnyString) : Prop where
  refused : (∃ why, quoted s.value = .error (.invalidArgument why)) ↔
    count s.value CChar.quote ≠ 0
  enclosed : count s.value CChar.quote = 0 →
    ∃ q, quoted s.value = .ok q ∧ q.text = quotedText s.text

/-- What quoted lists are meant to be: they can be told apart, and strings with
quotes in them are refused. -/
structure QuotedUnambiguous (t u : Strings) : Prop where
  distinct : ∀ x y, toQuotedList t = .ok x → toQuotedList u = .ok y → x.text = y.text →
    t.all.map AnyString.text = u.all.map AnyString.text
  elements : ∀ s ∈ t.all ++ u.all, QuotedAsDemanded s
  refused : ∀ v ∈ [t, u], (∃ why, toQuotedList v = .error (.invalidArgument why)) ↔
    ∃ s ∈ v.all, count s.value CChar.quote ≠ 0

theorem count_eq_zero {length : Nat} {s : StringType length} {c : CChar} :
    count s c = 0 ↔ c ∉ s.text :=
  List.count_eq_zero

/-- Quoted lists are unambiguous, and treated as the test demands, exactly when
no element of either contains a quote. -/
theorem quotedUnambiguous_iff (t u : Strings) :
    QuotedUnambiguous t u ↔ ∀ s ∈ t.all ++ u.all, count s.value CChar.quote = 0 := by
  constructor
  · intro h s hs
    by_contra hquote
    obtain ⟨why, hrefused⟩ := (h.elements s hs).refused.mpr hquote
    cases hrefused
  · intro h
    have hclean : ∀ v ∈ [t, u], ∀ x ∈ v.all.map AnyString.text, CChar.quote ∉ x := by
      intro v hv x hx
      obtain ⟨s, hs, rfl⟩ := List.mem_map.mp hx
      refine count_eq_zero.mp (h s (List.mem_append.mpr ?_))
      rcases List.mem_cons.mp hv with rfl | hv
      · exact .inl hs
      · cases List.mem_singleton.mp hv
        exact .inr hs
    constructor
    · intro x y hx hy he
      obtain ⟨q, hq, htext⟩ := toQuotedList_spec t
      obtain ⟨r, hr, htext'⟩ := toQuotedList_spec u
      rw [hx] at hq
      rw [hy] at hr
      cases hq
      cases hr
      exact quotedTexts_inj (hclean t (by simp)) (hclean u (by simp))
        (htext.symm.trans (he.trans htext'))
    · intro s hs
      refine ⟨⟨?_, ?_⟩, ?_⟩
      · rintro ⟨_, hthrow⟩
        cases hthrow
      · intro hquote
        exact absurd (h s hs) hquote
      · intro _
        exact quoted_spec s.value
    · intro v hv
      constructor
      · rintro ⟨why, hthrow⟩
        obtain ⟨q, hq, _⟩ := toQuotedList_spec v
        rw [hq] at hthrow
        cases hthrow
      · rintro ⟨s, hs, hquote⟩
        exact absurd (count_eq_zero.mpr (hclean v hv _ (List.mem_map_of_mem hs))) hquote

/-- One string with a quote, a comma and a quote in it, and the two strings that
these seem to separate. -/
theorem quoted_list_ambiguous :
    let ofText (l : List CChar) : AnyString := ⟨l.length, string (literal l)⟩
    let t : Strings := ⟨ofText [97, 39, 44, 39, 98], []⟩
    let u : Strings := ⟨ofText [97], [ofText [98]]⟩
    (∃ x y, toQuotedList t = .ok x ∧ toQuotedList u = .ok y ∧ x.text = y.text) ∧
      t.all.map AnyString.text ≠ u.all.map AnyString.text ∧ ¬ QuotedUnambiguous t u := by
  intro ofText t u
  obtain ⟨x, hx, htext⟩ := toQuotedList_spec t
  obtain ⟨y, hy, htext'⟩ := toQuotedList_spec u
  have hequal : x.text = y.text := by
    rw [htext, htext']
    simp [t, u, ofText, AnyString.text, quotedText, listTail, CChar.quote, CChar.comma]
  have hdistinct : t.all.map AnyString.text ≠ u.all.map AnyString.text := by
    simp [t, u, Strings.all]
  exact ⟨⟨x, y, hx, hy, hequal⟩, hdistinct, fun h => hdistinct (h.distinct x y hx hy hequal)⟩

end Valuelib.Immutable
