import Valuelib.Tuple.TextsCompose
import Valuelib.Text.Reading
import Valuelib.Base.Delimited
import Mathlib.Data.List.Forall2

namespace Valuelib.Tuple
open Text Separated Delimited

inductive Ty where
  | integer (signed : Bool) (width : Nat)
  | string
  | tuple (ts : List Ty)
  | pair (first second : Ty)
  | range (t : Ty)

inductive HasType : Value → Ty → Prop where
  | integer {n : Integer} {signed : Bool} {width : Nat} (hs : n.signed = signed)
      (hw : n.width = width) : HasType (.integer n) (.integer signed width)
  | string (s : List CChar) : HasType (.string s) .string
  | tuple {vs : List Value} {ts : List Ty} (h : List.Forall₂ HasType vs ts) :
      HasType (.tuple vs) (.tuple ts)
  | pair {v w : Value} {t u : Ty} (hv : HasType v t) (hw : HasType w u) :
      HasType (.pair v w) (.pair t u)
  | range {vs : List Value} {t : Ty} (h : ∀ v ∈ vs, HasType v t) :
      HasType (.range vs) (.range t)

def Typed (t : Ty) : Type := { v : Value // HasType v t }

theorem HasType.of_mem_elements {v e : Value} {t : Ty} (h : HasType v t) (he : e ∈ v.elements) :
    ∃ u, HasType e u := by
  cases h with
  | integer => cases he
  | string => cases he
  | range h => exact ⟨_, h e he⟩
  | pair hv hw =>
    simp only [Value.elements, List.mem_cons, List.not_mem_nil, or_false] at he
    cases he with
    | inl he => exact ⟨_, he ▸ hv⟩
    | inr he => exact ⟨_, he ▸ hw⟩
  | tuple h =>
    replace he : e ∈ _ := he
    induction h with
    | nil => cases he
    | cons hv _ ih =>
      cases he with
      | head => exact ⟨_, hv⟩
      | tail _ he => exact ih he

theorem not_isBytes_text {p : Piece} (hbytes : p.IsBytes) (t : List CChar) : p ≠ .text t := by
  intro h
  rw [h] at hbytes
  exact hbytes

theorem isBytes_joined {vs : List Value} {p : Piece} {t : List CChar} (hbytes : p.IsBytes)
    (h : p ∈ joined [.text t] (piecesOf vs)) : ∃ e ∈ vs, p ∈ pieces e := by
  rw [piecesOf_eq_map] at h
  cases mem_joined h with
  | inl h => exact absurd (List.mem_singleton.mp h) (not_isBytes_text hbytes t)
  | inr h =>
    obtain ⟨_, hpieces, h⟩ := h
    obtain ⟨e, he, rfl⟩ := List.mem_map.mp hpieces
    exact ⟨e, he, h⟩

/-- A range of bytes among the pieces is the value itself or comes from an element. -/
theorem isBytes_pieces {v : Value} {p : Piece} (hbytes : p.IsBytes) (h : p ∈ pieces v) :
    (∃ bs, v = .bytes bs) ∨ ∃ e ∈ v.elements, p ∈ pieces e := by
  have htext := not_isBytes_text hbytes
  cases v with
  | integer n =>
    rw [List.mem_singleton.mp h] at hbytes
    cases hbytes
  | string s => exact absurd (List.mem_singleton.mp h) (htext _)
  | bytes bs => exact .inl ⟨bs, rfl⟩
  | pair first second =>
    simp only [pieces, List.mem_append, List.mem_cons, htext, List.not_mem_nil, or_false,
      false_or] at h
    simp only [Value.elements, List.mem_cons, List.not_mem_nil, or_false, exists_eq_or_imp,
      exists_eq_left]
    exact .inr h
  | tuple vs =>
    simp only [pieces, List.mem_append, List.mem_cons, htext, List.not_mem_nil, or_false,
      false_or] at h
    exact .inr (isBytes_joined hbytes h)
  | range vs =>
    simp only [pieces, List.mem_append, List.mem_cons, htext, List.not_mem_nil, or_false,
      false_or] at h
    cases h with
    | inl h =>
      split at h
      · cases h
      · exact absurd (List.mem_singleton.mp h) (htext _)
    | inr h => exact .inr (isBytes_joined hbytes h)

/-- No range of bytes is printed on the way. -/
theorem HasType.no_bytes {v : Value} {t : Ty} (h : HasType v t) :
    ∀ p ∈ pieces v, ¬ p.IsBytes := by
  induction v using Value.forall_of_elements generalizing t with
  | h v ih =>
    intro p hp hbytes
    cases isBytes_pieces hbytes hp with
    | inl hv =>
      obtain ⟨bs, rfl⟩ := hv
      cases h
    | inr hv =>
      obtain ⟨e, he, hp⟩ := hv
      obtain ⟨u, hu⟩ := h.of_mem_elements he
      exact ih e he hu p hp hbytes

/-- Without bytes the base is never changed. -/
theorem HasType.freshText_eq {v : Value} {t : Ty} (h : HasType v t) :
    v.freshText = decimalText v := by
  rw [freshText_eq_iff]
  apply List.pairwise_of_forall_mem_list
  intro p hp q _ hbytes
  exact absurd hbytes (h.no_bytes p hp)

abbrev Follows : List CChar → Prop := StopsAt numeralChars

theorem comma_follows (s : List CChar) : Follows (44 :: s) := stopsAt_cons (by decide) s

theorem space_follows (s : List CChar) : Follows (32 :: s) := stopsAt_cons (by decide) s

theorem paren_follows (s : List CChar) : Follows (41 :: s) := stopsAt_cons (by decide) s

section Shapes

theorem comma_chars : chars ", " = [44, 32] := by rfl

theorem open_chars : chars "(" = [40] := by rfl

theorem close_chars : chars ")" = [41] := by rfl

variable (v w : Value) (vs : List Value)

theorem decimalText_tuple_nil : decimalText (.tuple []) = [40, 41] := by rfl

theorem decimalText_tuple_cons : decimalText (.tuple (v :: vs)) =
    40 :: (decimalText v ++ closed 44 [32] 41 [] decimalText vs) := by
  rw [decimalText_assembled, assembled, comma_chars, open_chars, close_chars]
  simp [joined, closed, List.flatMap_map]

theorem decimalText_pair : decimalText (.pair v w) = decimalText (.tuple [v, w]) := by
  rw [decimalText_assembled, decimalText_assembled]
  simp [assembled, joined]

theorem decimalText_range_nil : decimalText (.range []) = [91, 32, 93] := by rfl

theorem decimalText_range_cons : decimalText (.range (v :: vs)) =
    91 :: 32 :: (decimalText v ++ closed 44 [32] 32 [93] decimalText vs) := by
  have hopen : chars "[" = [91] := by rfl
  have hspace : chars " " = [32] := by rfl
  have hclose : chars " ]" = [32, 93] := by rfl
  rw [decimalText_assembled, assembled, comma_chars, hopen, hspace, hclose]
  simp [joined, closed, List.flatMap_map]

/-- No text begins like the end of a range. -/
theorem decimalText_ne_close {s t : List CChar} : decimalText v ++ s ≠ 93 :: t := by
  intro h
  cases v with
  | integer n =>
    rw [decimalText_assembled] at h
    change integerNumeral n.toInt ++ s = 93 :: t at h
    cases htext : integerNumeral n.toInt with
    | nil => exact absurd htext (integerNumeral_ne_nil _)
    | cons c cs =>
      rw [htext] at h
      have hc : c ∈ numeralChars := mem_integerNumeral (by rw [htext]; exact List.mem_cons_self)
      rw [(List.cons.inj h).1] at hc
      revert hc
      decide
  | string s => cases h
  | bytes bs => cases h
  | pair first second =>
    rw [decimalText_pair, decimalText_tuple_cons] at h
    cases h
  | tuple vs =>
    cases vs with
    | nil => cases h
    | cons v vs =>
      rw [decimalText_tuple_cons] at h
      cases h
  | range vs =>
    cases vs with
    | nil => cases h
    | cons v vs =>
      rw [decimalText_range_cons] at h
      cases h

end Shapes

theorem Integer.toInt_injective {m n : Integer} (hs : m.signed = n.signed) (hw : m.width = n.width)
    (h : m.toInt = n.toInt) : m = n := by
  obtain ⟨width, wide, signed, bits⟩ := m
  obtain ⟨width', wide', signed', bits'⟩ := n
  cases hs
  cases hw
  have hbits : bits = bits' := by
    cases signed with
    | true => exact BitVec.eq_of_toInt_eq h
    | false => exact BitVec.eq_of_toNat_eq (Int.ofNat_inj.mp h)
  rw [hbits]

theorem integer_apart {m n : Integer} (hs : m.signed = n.signed) (hw : m.width = n.width) :
    Apart Follows decimalText (.integer m) (.integer n) := by
  intro s t hfollows hfollows' h
  rw [decimalText_assembled, decimalText_assembled] at h
  obtain ⟨htext, hst⟩ := word_end (x := integerNumeral m.toInt) (y := integerNumeral n.toInt)
    (fun c hc => mem_integerNumeral hc) (fun c hc => mem_integerNumeral hc) hfollows hfollows' h
  rw [Integer.toInt_injective hs hw (integerNumeral_injective htext)]
  exact ⟨rfl, hst⟩

theorem string_apart (s t : List CChar) : Apart Follows decimalText (.string s) (.string t) := by
  have hquoted : Apart Follows quoted s t := .of_splits quoted_splits trivial trivial
  intro s' t' hs ht h
  rw [decimalText_assembled, decimalText_assembled] at h
  obtain ⟨rfl, hst⟩ := hquoted s' t' hs ht h
  exact ⟨rfl, hst⟩

/-- Tuples of one length are told apart if their elements are. -/
theorem tuple_apart {vs ws : List Value} (hlength : vs.length = ws.length)
    (h : ∀ p ∈ vs.zip ws, Apart Follows decimalText p.1 p.2) :
    Apart Follows decimalText (.tuple vs) (.tuple ws) := by
  intro s t _ _ heq
  cases vs with
  | nil =>
    cases ws with
    | nil => exact ⟨rfl, by simpa [decimalText_tuple_nil] using heq⟩
    | cons w ws => cases hlength
  | cons v vs =>
    cases ws with
    | nil => cases hlength
    | cons w ws =>
      rw [decimalText_tuple_cons, decimalText_tuple_cons] at heq
      obtain ⟨hvs, hst⟩ := cons_closed_apart (by simp) comma_follows paren_follows h
        (by simpa using heq)
      rw [hvs]
      exact ⟨rfl, hst⟩

theorem range_apart {vs ws : List Value}
    (h : ∀ p ∈ vs.zip ws, Apart Follows decimalText p.1 p.2) :
    Apart Follows decimalText (.range vs) (.range ws) := by
  intro s t _ _ heq
  cases vs with
  | nil =>
    cases ws with
    | nil => exact ⟨rfl, by simpa [decimalText_range_nil] using heq⟩
    | cons w ws =>
      rw [decimalText_range_nil, decimalText_range_cons] at heq
      exact absurd (by simpa using heq.symm) (decimalText_ne_close w)
  | cons v vs =>
    cases ws with
    | nil =>
      rw [decimalText_range_nil, decimalText_range_cons] at heq
      exact absurd (by simpa using heq) (decimalText_ne_close v)
    | cons w ws =>
      rw [decimalText_range_cons, decimalText_range_cons] at heq
      obtain ⟨hvs, hst⟩ := cons_closed_apart (by simp) comma_follows space_follows h
        (by simpa using heq)
      rw [hvs]
      exact ⟨rfl, hst⟩

theorem pair_apart {v v' w w' : Value} (hv : Apart Follows decimalText v v')
    (hw : Apart Follows decimalText w w') :
    Apart Follows decimalText (.pair v w) (.pair v' w') := by
  intro s t hs ht heq
  have hzip : ∀ p ∈ [v, w].zip [v', w'], Apart Follows decimalText p.1 p.2 := by
    intro p hp
    simp only [List.zip_cons_cons, List.zip_nil_right, List.mem_cons, List.not_mem_nil,
      or_false] at hp
    cases hp with
    | inl hp => exact hp ▸ hv
    | inr hp => exact hp ▸ hw
  have hlength : [v, w].length = [v', w'].length := rfl
  rw [decimalText_pair, decimalText_pair] at heq
  obtain ⟨hpair, hst⟩ := tuple_apart hlength hzip s t hs ht heq
  cases hpair
  exact ⟨rfl, hst⟩

/-- Elements of tuples of one type have one type. -/
theorem zip_hasType {vs ws : List Value} {ts : List Ty} (hvs : List.Forall₂ HasType vs ts)
    (hws : List.Forall₂ HasType ws ts) :
    vs.length = ws.length ∧ ∀ p ∈ vs.zip ws, ∃ t, HasType p.1 t ∧ HasType p.2 t := by
  refine ⟨hvs.length_eq.trans hws.length_eq.symm, ?_⟩
  induction hvs generalizing ws with
  | nil =>
    intro p hp
    cases hp
  | cons hv _ ih =>
    cases hws with
    | cons hw hws =>
      intro p hp
      cases hp with
      | head => exact ⟨_, hv, hw⟩
      | tail _ hp => exact ih hws p hp

/-- Values of one type are told apart, even inside a longer text. -/
theorem HasType.apart {v w : Value} {t : Ty} (hv : HasType v t) (hw : HasType w t) :
    Apart Follows decimalText v w := by
  induction v using Value.forall_of_elements generalizing w t with
  | h v ih =>
    cases hv with
    | integer hs hwidth =>
      cases hw with
      | integer hs' hwidth' => exact integer_apart (hs.trans hs'.symm) (hwidth.trans hwidth'.symm)
    | string s =>
      cases hw with
      | string s' => exact string_apart s s'
    | pair hfirst hsecond =>
      cases hw with
      | pair hfirst' hsecond' =>
        exact pair_apart (ih _ (by simp [Value.elements]) hfirst hfirst')
          (ih _ (by simp [Value.elements]) hsecond hsecond')
    | tuple hvs =>
      cases hw with
      | tuple hws =>
        obtain ⟨hlength, htypes⟩ := zip_hasType hvs hws
        apply tuple_apart hlength
        intro p hp
        obtain ⟨t, hfirst, hsecond⟩ := htypes p hp
        exact ih p.1 (List.of_mem_zip hp).1 hfirst hsecond
    | range hvs =>
      cases hw with
      | range hws =>
        apply range_apart
        intro p hp
        obtain ⟨hfirst, hsecond⟩ := List.of_mem_zip hp
        exact ih p.1 hfirst (hvs p.1 hfirst) (hws p.2 hsecond)

/-- Printed values of one type can be told apart. -/
theorem freshText_injective (t : Ty) : Function.Injective (fun v : Typed t => v.val.freshText) := by
  intro v w h
  replace h : v.val.freshText = w.val.freshText := h
  rw [v.property.freshText_eq, w.property.freshText_eq] at h
  have hapart := v.property.apart w.property [] [] stopsAt_nil stopsAt_nil (congrArg (· ++ []) h)
  exact Subtype.ext hapart.1

/-- A vector of pairs of a string and an `int`. -/
theorem freshText_injective_pairs :
    let one : Integer := ⟨32, by decide, true, 1#32⟩
    let two : Integer := ⟨32, by decide, true, 2#32⟩
    ∃ v w : Typed (.range (.pair .string (.integer true 32))),
      v.val = .range [.pair (.string (chars "a, 1")) (.integer one)] ∧
      w.val = .range [.pair (.string (chars "a")) (.integer one),
        .pair (.string (chars "b")) (.integer two)] ∧
      v.val.freshText ≠ w.val.freshText := by
  intro one two
  have hv : HasType (.range [.pair (.string (chars "a, 1")) (.integer one)])
      (.range (.pair .string (.integer true 32))) := by
    apply HasType.range
    intro e he
    cases List.mem_singleton.mp he
    exact .pair (.string _) (.integer rfl rfl)
  have hw : HasType (.range [.pair (.string (chars "a")) (.integer one),
      .pair (.string (chars "b")) (.integer two)]) (.range (.pair .string (.integer true 32))) := by
    apply HasType.range
    intro e he
    rcases List.mem_pair.mp he with rfl | rfl
    · exact .pair (.string _) (.integer rfl rfl)
    · exact .pair (.string _) (.integer rfl rfl)
  refine ⟨⟨_, hv⟩, ⟨_, hw⟩, rfl, rfl, ?_⟩
  intro h
  have hsame := congrArg Subtype.val (freshText_injective _ h)
  simp at hsame

end Valuelib.Tuple
