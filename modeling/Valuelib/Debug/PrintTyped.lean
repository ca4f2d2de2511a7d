import Valuelib.Debug.PrintText
import Valuelib.Text.Reading
import Valuelib.Base.Delimited
import Mathlib.Data.List.Forall2

namespace Valuelib.Debug.Printing
open Text Separated Delimited PrefixFree
open Valuelib.Tuple (Base)

variable {κ : Type} {b : Base} {v w : Value} {vs ws : List Value}

inductive Ty (κ : Type) where
  | bool
  | int
  | string
  | milliseconds
  | seconds
  | pointer (t : Ty κ)
  | vector (t : Ty κ)
  | tuple (ts : List (Ty κ))
  | nvp (name : List CChar) (t : Ty κ)
  | object (c : κ)

/-- The pairs that the `as_object` of each class makes. A class may contain pointers
to itself. -/
abbrev Layout (κ : Type) := κ → List (Ty κ)

def Ty.isNvp : Ty κ → Bool
  | .nvp _ _ => true
  | _ => false

/-- Nothing holds a pointer to an `nvp`. -/
inductive HasType (layout : Layout κ) : Value → Ty κ → Prop where
  | bool (x : Bool) : HasType layout (.bool x) .bool
  | int (n : BitVec 32) : HasType layout (.int n) .int
  | string (s : List CChar) : HasType layout (.string s) .string
  | milliseconds (n : BitVec 64) : HasType layout (.milliseconds n) .milliseconds
  | seconds (n : BitVec 64) : HasType layout (.seconds n) .seconds
  | null (t : Ty κ) : HasType layout .null (.pointer t)
  | pointer {v : Value} {t : Ty κ} (h : HasType layout v t) (ht : t.isNvp = false) :
      HasType layout (.pointer v) (.pointer t)
  | vector {vs : List Value} {t : Ty κ} (h : ∀ v ∈ vs, HasType layout v t) :
      HasType layout (.vector vs) (.vector t)
  | tuple {vs : List Value} {ts : List (Ty κ)} (h : List.Forall₂ (HasType layout) vs ts) :
      HasType layout (.tuple vs) (.tuple ts)
  | nvp (name : List CChar) {v : Value} {t : Ty κ} (h : HasType layout v t) :
      HasType layout (.nvp name v) (.nvp name t)
  | object {pairs : List Value} {c : κ} (h : List.Forall₂ (HasType layout) pairs (layout c)) :
      HasType layout (.object pairs) (.object c)

def Value.pointing : Value → Value
  | .null => .null
  | v => .pointer v

mutual

/-- A value without the distance at which its pointers turn out to be null. -/
def Value.collapsed : Value → Value
  | .pointer t => t.collapsed.pointing
  | .vector vs => .vector (collapsedAll vs)
  | .tuple vs => .tuple (collapsedAll vs)
  | .nvp name value => .nvp name value.collapsed
  | .object pairs => .object (collapsedAll pairs)
  | .method name args => .method name (collapsedAll args)
  | .classMethod classname m => .classMethod classname m.collapsed
  | v => v

def collapsedAll : List Value → List Value
  | [] => []
  | v :: vs => v.collapsed :: collapsedAll vs

end

theorem collapsedAll_eq_map (vs : List Value) : collapsedAll vs = vs.map Value.collapsed := by
  induction vs with
  | nil => rfl
  | cons v vs ih => rw [collapsedAll, ih, List.map_cons]

@[simp] theorem text_pointing (b : Base) (v : Value) : v.pointing.text b = v.text b := by
  cases v with
  | null => rfl
  | _ => rfl

section Words

def hexChars : List CChar := chars "-0123456789abcdef"

abbrev Ends : List CChar → Prop := StopsAt hexChars

theorem comma_ends (s : List CChar) : Ends (44 :: s) := stopsAt_cons (by decide) s

theorem space_ends (s : List CChar) : Ends (32 :: s) := stopsAt_cons (by decide) s

theorem mem_int_text {n : BitVec 32} {c : CChar} (h : c ∈ (int n).text b) : c ∈ hexChars := by
  cases b with
  | dec =>
    have hsub : numeralChars ⊆ hexChars := by decide
    exact hsub (mem_integerNumeral h)
  | hex =>
    have hall : ∀ d < 16, digit d ∈ hexChars := by decide
    obtain ⟨d, hd, rfl⟩ := digit_of_mem_numeral (by omega) h
    exact hall d hd

theorem int_text_injective : Function.Injective (fun n => (int n).text b) := by
  intro m n h
  cases b with
  | dec => exact BitVec.eq_of_toInt_eq (integerNumeral_injective h)
  | hex =>
    have hm := readNumeral_numeral (b := 16) (n := m.toNat) (by omega) (by omega)
    rw [show numeral 16 m.toNat = numeral 16 n.toNat from h,
      readNumeral_numeral (by omega) (by omega)] at hm
    exact BitVec.eq_of_toNat_eq (Option.some.inj hm).symm

theorem int_text_ne_nil (n : BitVec 32) : (int n).text b ≠ [] := by
  cases b with
  | dec => exact integerNumeral_ne_nil n.toInt
  | hex => exact numeral_ne_nil

theorem int_apart (m n : BitVec 32) : Apart Ends (Value.text b) (.int m) (.int n) := by
  intro s t hs ht h
  obtain ⟨htext, hst⟩ := word_end (x := (int m).text b) (y := (int n).text b)
    (fun _ => mem_int_text) (fun _ => mem_int_text) hs ht h
  rw [int_text_injective htext]
  exact ⟨rfl, hst⟩

theorem bool_apart (x y : Bool) : Apart Ends (Value.text b) (.bool x) (.bool y) := by
  intro s t _ _ h
  cases x <;> cases y <;> first | exact ⟨rfl, List.append_cancel_left h⟩ | cases h

theorem count_injective {m n : BitVec 64} (h : count m = count n) : m = n := by
  apply BitVec.eq_of_toInt_eq
  exact integerNumeral_injective h

theorem string_apart (s t : List CChar) :
    Apart Ends (Value.text b) (.string s) (.string t) := by
  intro s' t' _ _ h
  obtain ⟨rfl, hst⟩ := quoted_splits s t s' t' trivial trivial h
  exact ⟨rfl, hst⟩

/-- Durations of one unit. -/
theorem duration_apart {C : BitVec 64 → Value} {suffix : List CChar}
    (hC : ∀ n, (C n).text b = quoted (count n ++ suffix)) (m n : BitVec 64) :
    Apart Ends (Value.text b) (C m) (C n) := by
  intro s t _ _ h
  rw [hC, hC] at h
  obtain ⟨htext, hst⟩ := quoted_splits _ _ s t trivial trivial h
  rw [count_injective (List.append_cancel_right htext)]
  exact ⟨rfl, hst⟩

end Words

section Shapes

theorem behind_closed (vs : List Value) (e : CChar) (close : List CChar) :
    behind b vs ++ e :: close = closed 44 [32] e close (Value.text b) vs := by
  have hcomma : chars ", " = [44, 32] := by rfl
  simp [behind, closed, hcomma]

theorem text_vector (vs : List Value) : (Value.vector vs).text b =
    chars "[" ++ enclosed [32] [93] 44 [32] 32 [93] (Value.text b) vs := by
  have hclose : chars " " ++ chars "]" = [32, 93] := by rfl
  cases vs with
  | nil => rfl
  | cons v vs =>
    rw [Value.text, spaced_texts, if_neg (by simp), enclosed, ← behind_closed, ← hclose]
    simp only [List.append_assoc]
    rfl

theorem text_tuple (vs : List Value) : (Value.tuple vs).text b =
    chars "[" ++ enclosed [32] [32, 93] 44 [32] 32 [93] (Value.text b) vs := by
  cases vs with
  | nil => rfl
  | cons v vs =>
    rw [Value.text, spaced_texts, enclosed, ← behind_closed]
    simp only [List.append_assoc]
    rfl

theorem text_object (pairs : List Value) : (Value.object pairs).text b =
    chars "\x7b" ++ enclosed [32] [32, 125] 44 [32] 32 [125] (Value.text b) pairs := by
  cases pairs with
  | nil => rfl
  | cons v vs =>
    rw [Value.text, spaced_texts, enclosed, ← behind_closed]
    simp only [List.append_assoc]
    rfl

/-- A fixed text in front. -/
theorem wrapped_apart {C : List Value → Value} {g : List Value → List CChar} {front : List CChar}
    (hC : ∀ vs, (C vs).text b = front ++ g vs) (h : Apart (fun _ => True) g vs ws) :
    Apart Ends (Value.text b) (C vs) (C ws) := by
  intro s t _ _ heq
  rw [hC, hC, List.append_assoc, List.append_assoc] at heq
  obtain ⟨rfl, hst⟩ := h s t trivial trivial (List.append_cancel_left heq)
  exact ⟨rfl, hst⟩

theorem vector_apart (h : ∀ p ∈ vs.zip ws, Apart Ends (Value.text b) p.1 p.2) :
    Apart Ends (Value.text b) (.vector vs) (.vector ws) := by
  apply wrapped_apart text_vector
  exact enclosed_apart (by simp) comma_ends space_ends (.inr (by simp)) h

theorem tuple_apart (hlength : vs.length = ws.length)
    (h : ∀ p ∈ vs.zip ws, Apart Ends (Value.text b) p.1 p.2) :
    Apart Ends (Value.text b) (.tuple vs) (.tuple ws) := by
  apply wrapped_apart text_tuple
  exact enclosed_apart (by simp) comma_ends space_ends (.inl hlength) h

theorem object_apart (hlength : vs.length = ws.length)
    (h : ∀ p ∈ vs.zip ws, Apart Ends (Value.text b) p.1 p.2) :
    Apart Ends (Value.text b) (.object vs) (.object ws) := by
  apply wrapped_apart text_object
  exact enclosed_apart (by simp) comma_ends space_ends (.inl hlength) h

theorem nvp_apart (name : List CChar) (h : Apart Ends (Value.text b) v w) :
    Apart Ends (Value.text b) (.nvp name v) (.nvp name w) := by
  intro s t hs ht heq
  simp only [Value.text, List.append_assoc] at heq
  obtain ⟨rfl, hst⟩ := h s t hs ht (List.append_cancel_left (List.append_cancel_left heq))
  exact ⟨rfl, hst⟩

end Shapes

section Typed

variable {layout : Layout κ} {t : Ty κ} {ts : List (Ty κ)}

/-- Lists that match one list of types match each other. -/
theorem zip_matched {α β γ : Type} {R : α → γ → Prop} {S : β → γ → Prop} {l : List α} {k : List β}
    {ts : List γ} (hl : List.Forall₂ R l ts) (hk : List.Forall₂ S k ts) :
    l.length = k.length ∧ ∀ p ∈ l.zip k, ∃ t, R p.1 t ∧ S p.2 t := by
  refine ⟨hl.length_eq.trans hk.length_eq.symm, ?_⟩
  induction hl generalizing k with
  | nil =>
    intro p hp
    cases hp
  | cons hv _ ih =>
    cases hk with
    | cons hw hk =>
      intro p hp
      cases hp with
      | head => exact ⟨_, hv, hw⟩
      | tail _ hp => exact ih hk p hp

/-- Collapsing a value leaves its text. -/
theorem text_collapsed (v : Value) : v.collapsed.text b = v.text b := by
  induction v using Value.forall_of_elements with
  | h v hv =>
    have hall : ∀ vs, (∀ e ∈ vs, e.collapsed.text b = e.text b) →
        texts b (collapsedAll vs) = texts b vs := by
      intro vs hvs
      rw [texts_eq_map, texts_eq_map, collapsedAll_eq_map, List.map_map]
      exact List.map_congr_left hvs
    have hnil : ∀ vs, collapsedAll vs = [] ↔ vs = [] := by
      intro vs
      rw [collapsedAll_eq_map, List.map_eq_nil_iff]
    cases v with
    | pointer t =>
      rw [Value.collapsed, text_pointing, hv t List.mem_cons_self]
      rfl
    | vector vs => simp only [Value.collapsed, Value.text, hall vs hv, hnil]
    | tuple vs => simp only [Value.collapsed, Value.text, hall vs hv]
    | object pairs => simp only [Value.collapsed, Value.text, hall pairs hv]
    | method name args => simp only [Value.collapsed, Value.text, hall args hv]
    | nvp name value => simp only [Value.collapsed, Value.text, hv value List.mem_cons_self]
    | classMethod classname m => simp only [Value.collapsed, Value.text, hv m List.mem_cons_self]
    | _ => rfl

/-- Only a null pointer begins like one. -/
theorem text_ne_null (h : HasType layout v t) (ht : t.isNvp = false) (hv : v.collapsed ≠ .null)
    (s r : List CChar) : v.text b ++ s ≠ 110 :: r := by
  induction v using Value.forall_of_elements generalizing t with
  | h v ih =>
    intro heq
    cases h with
    | bool x => cases x <;> cases heq
    | int n =>
      cases htext : (int n).text b with
      | nil => exact int_text_ne_nil n htext
      | cons c cs =>
        rw [Value.text, htext] at heq
        have hc : c ∈ hexChars := mem_int_text (b := b) (n := n) (by simp [htext])
        rw [(List.cons.inj heq).1] at hc
        exact absurd hc (by decide)
    | pointer h hpointee =>
      refine ih _ List.mem_cons_self h hpointee ?_ heq
      intro hnull
      rw [Value.collapsed, hnull] at hv
      exact hv rfl
    | null => exact hv rfl
    | vector =>
      rw [text_vector] at heq
      cases heq
    | tuple =>
      rw [text_tuple] at heq
      cases heq
    | object =>
      rw [text_object] at heq
      cases heq
    | nvp => cases ht
    | _ => cases heq

theorem collapsed_zip
    (h : ∀ p ∈ vs.zip ws, Apart Ends (Value.text b) p.1.collapsed p.2.collapsed) :
    ∀ p ∈ (collapsedAll vs).zip (collapsedAll ws), Apart Ends (Value.text b) p.1 p.2 := by
  intro p hp
  rw [collapsedAll_eq_map, collapsedAll_eq_map, List.zip_map, List.mem_map] at hp
  obtain ⟨q, hq, rfl⟩ := hp
  exact h q hq

/-- A text that begins as that of a null pointer is one. -/
theorem null_apart {u : Value} (h : HasType layout u t) (ht : t.isNvp = false) {s r : List CChar}
    (heq : chars "null" ++ s = u.text b ++ r) : .null = u.collapsed.pointing ∧ s = r := by
  by_cases hu : u.collapsed = .null
  · rw [← text_collapsed, hu] at heq
    rw [hu]
    exact ⟨rfl, List.append_cancel_left heq⟩
  · exact absurd heq.symm (text_ne_null h ht hu r _)

/-- Values of one type are told apart, even inside a longer text. -/
theorem HasType.apart (hv : HasType layout v t) (hw : HasType layout w t) :
    Apart Ends (Value.text b) v.collapsed w.collapsed := by
  induction v using Value.forall_of_elements generalizing w t with
  | h v ih =>
    cases hv with
    | bool x =>
      cases hw with
      | bool y => exact bool_apart x y
    | int m =>
      cases hw with
      | int n => exact int_apart m n
    | string s =>
      cases hw with
      | string s' => exact string_apart s s'
    | milliseconds m =>
      cases hw with
      | milliseconds n => exact duration_apart (fun _ => rfl) m n
    | seconds m =>
      cases hw with
      | seconds n => exact duration_apart (fun _ => rfl) m n
    | null =>
      intro s r _ _ heq
      rw [text_collapsed, text_collapsed] at heq
      cases hw with
      | null => exact ⟨rfl, List.append_cancel_left heq⟩
      | pointer hu ht => exact null_apart hu ht heq
    | pointer hv ht =>
      intro s r hs hr heq
      rw [text_collapsed, text_collapsed] at heq
      cases hw with
      | null =>
        obtain ⟨hnull, hrs⟩ := null_apart hv ht heq.symm
        exact ⟨hnull.symm, hrs.symm⟩
      | pointer hu _ =>
        rename_i u _
        obtain ⟨hsame, hsr⟩ := ih _ List.mem_cons_self hv hu s r hs hr
          (by rw [text_collapsed, text_collapsed]; exact heq)
        rw [Value.collapsed, Value.collapsed, hsame]
        exact ⟨rfl, hsr⟩
    | vector hvs =>
      cases hw with
      | vector hws =>
        apply vector_apart
        apply collapsed_zip
        intro p hp
        obtain ⟨hfirst, hsecond⟩ := List.of_mem_zip hp
        exact ih p.1 hfirst (hvs p.1 hfirst) (hws p.2 hsecond)
    | tuple hvs =>
      cases hw with
      | tuple hws =>
        obtain ⟨hlength, htypes⟩ := zip_matched hvs hws
        apply tuple_apart (by simp [collapsedAll_eq_map, hlength])
        apply collapsed_zip
        intro p hp
        obtain ⟨t, hfirst, hsecond⟩ := htypes p hp
        exact ih p.1 (List.of_mem_zip hp).1 hfirst hsecond
    | object hvs =>
      cases hw with
      | object hws =>
        obtain ⟨hlength, htypes⟩ := zip_matched hvs hws
        apply object_apart (by simp [collapsedAll_eq_map, hlength])
        apply collapsed_zip
        intro p hp
        obtain ⟨t, hfirst, hsecond⟩ := htypes p hp
        exact ih p.1 (List.of_mem_zip hp).1 hfirst hsecond
    | nvp name hv =>
      cases hw with
      | nvp _ hw => exact nvp_apart name (ih _ List.mem_cons_self hv hw)

end Typed

end Valuelib.Debug.Printing
