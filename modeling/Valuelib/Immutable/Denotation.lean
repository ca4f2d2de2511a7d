import Valuelib.Immutable.Quoting
import Valuelib.Stdext.StringAlgorithm

namespace Valuelib.Immutable
open Text Separated

/-- A string literal, without a terminator inside. -/
structure Literal where
  text : List CChar
  unterminated : CChar.nul ∉ text

inductive Expr where
  | string (source : Literal)
  | concat (l r : Expr)
  | concatArray (l : Expr) (r : Literal)
  | add (l r : Expr)
  | addArray (l : Expr) (r : Literal)
  | join (delimiter : Literal) (first : Expr) (rest : List Expr)

namespace Expr

mutual

def eval : Expr → AnyString
  | string source => ⟨_, Immutable.string (literal source.text)⟩
  | concat l r => ⟨_, l.eval.value.concat r.eval.value⟩
  | concatArray l r => ⟨_, l.eval.value.concatArray (literal r.text)⟩
  | add l r => ⟨_, l.eval.value.add r.eval.value⟩
  | addArray l r => ⟨_, l.eval.value.addArray (literal r.text)⟩
  | join delimiter first rest => Immutable.join (literal delimiter.text) ⟨first.eval, evalAll rest⟩

def evalAll : List Expr → List AnyString
  | [] => []
  | e :: es => e.eval :: evalAll es

end

mutual

def denoted : Expr → List CChar
  | string source => source.text
  | concat l r => l.denoted ++ r.denoted
  | concatArray l r => l.denoted ++ r.text
  | add l r => l.denoted ++ r.denoted
  | addArray l r => l.denoted ++ r.text
  | join delimiter first rest => joined delimiter.text (first.denoted :: denotedAll rest)

def denotedAll : List Expr → List (List CChar)
  | [] => []
  | e :: es => e.denoted :: denotedAll es

end

end Expr

/-- An immutable string is a text through each of its accessors. -/
structure Denotes (s : AnyString) (text : List CChar) : Prop where
  size : s.value.size = text.length
  bytes : ∀ i (h : i < text.length), s.value.charAt i = text[i]
  terminated : s.value.charAt s.value.size = CChar.nul
  cStr : s.value.cStr = text
  range : s.value.text = text
  stdString : s.value.toStdString = text

theorem takeWhile_terminated {l : List CChar} (h : CChar.nul ∉ l) :
    (l ++ [CChar.nul]).takeWhile (· ≠ CChar.nul) = l := by
  have hclean : ∀ c ∈ l, decide (c ≠ CChar.nul) = true := by
    intro c hc
    simp only [decide_eq_true_eq]
    intro hnul
    exact h (hnul ▸ hc)
  rw [List.takeWhile_append_of_pos hclean]
  simp

/-- The terminator stands behind the text and nowhere in it. -/
structure StringType.Closed {length : Nat} (s : StringType length) : Prop where
  terminated : s.charAt length = CChar.nul
  unterminated : CChar.nul ∉ s.text

section Closed

variable {length rLength : Nat} {s : StringType length} {r : StringType rLength}

theorem closed_string (source : Literal) :
    (Immutable.string (literal source.text)).Closed := by
  refine ⟨by simp [string, literal, StringType.charAt], ?_⟩
  rw [text_literal]
  exact source.unterminated

/-- The buffer beyond both operands is still zero. -/
theorem StringType.Closed.concat (hs : s.Closed) (hr : r.Closed) : (s.concat r).Closed := by
  constructor
  · rw [StringType.concat, StringType.charAt_ofFn _ (Nat.lt_succ_self _)]
    rw [if_neg (by simp), if_neg (by simp)]
  · rw [StringType.text_concat, List.mem_append]
    intro h
    exact h.elim hs.unterminated hr.unterminated

/-- The terminator of the array is copied with it. -/
theorem StringType.Closed.concatArray (hs : s.Closed) (source : Literal) :
    (s.concatArray (literal source.text)).Closed := by
  constructor
  · rw [StringType.concatArray, StringType.charAt_ofFn _ (Nat.lt_succ_self _)]
    rw [if_neg (by simp)]
    simp [literal]
  · rw [StringType.text_concatArray, List.mem_append]
    intro h
    exact h.elim hs.unterminated (closed_string source).unterminated

/-- Joining closed strings gives a closed string. -/
theorem closed_joinFrom (hs : s.Closed) {strings : List AnyString}
    (h : ∀ t ∈ strings, t.value.Closed) : (joinFrom s strings).value.Closed := by
  induction strings with
  | nil => exact closed_string ⟨[], List.not_mem_nil⟩
  | cons t strings ih =>
    have hrest := ih (fun u hu => h u (List.mem_cons_of_mem t hu))
    exact (hs.concat (h t List.mem_cons_self)).concat hrest

theorem StringType.Closed.data_toList (hs : s.Closed) : s.data.toList = s.text ++ [CChar.nul] := by
  have hlength : length < s.data.toList.length := by simp
  have hlast : s.data.toList[length] = CChar.nul := by
    have hterminated := hs.terminated
    simp only [charAt, Vector.getElem?_eq_getElem (Nat.lt_succ_self length)] at hterminated
    simpa using hterminated
  rw [← List.take_append_drop length s.data.toList, List.drop_eq_getElem_cons hlength, hlast,
    List.drop_eq_nil_of_le (by simp)]
  rfl

/-- Every accessor gives the text. -/
theorem StringType.Closed.denotes (hs : s.Closed) : Denotes ⟨length, s⟩ s.text := by
  refine ⟨s.length_text.symm, ?_, hs.terminated, ?_, rfl, rfl⟩
  · intro i hi
    have hi' : i < length := by simpa using hi
    have hchar := s.getElem?_text i
    rw [if_pos hi', List.getElem?_eq_getElem hi] at hchar
    exact (Option.some.inj hchar).symm
  · rw [StringType.cStr, hs.data_toList]
    exact takeWhile_terminated hs.unterminated

end Closed

theorem text_joinFrom {length : Nat} (del : StringType length) (strings : List AnyString) :
    (joinFrom del strings).text = (strings.map AnyString.text).flatMap (del.text ++ ·) := by
  induction strings with
  | nil => exact text_literal []
  | cons t strings ih =>
    simp only [AnyString.text] at ih
    simp [joinFrom, AnyString.text, ih]

theorem text_join (delimiter : List CChar) (t : Strings) :
    (join (literal delimiter) t).text = joined delimiter (t.all.map AnyString.text) := by
  have hrest := text_joinFrom (string (literal delimiter)) t.rest
  simp only [AnyString.text] at hrest
  simp [join, AnyString.text, hrest, Strings.all, joined]

namespace Expr

mutual

/-- Every expression gives a closed string. -/
theorem eval_closed (e : Expr) : e.eval.value.Closed := by
  match e with
  | string source => exact closed_string source
  | concat l r => exact l.eval_closed.concat r.eval_closed
  | concatArray l r => exact l.eval_closed.concatArray r
  | add l r => exact l.eval_closed.concat r.eval_closed
  | addArray l r => exact l.eval_closed.concatArray r
  | join delimiter first rest =>
    exact first.eval_closed.concat (closed_joinFrom (closed_string delimiter) (evalAll_closed rest))

theorem evalAll_closed (es : List Expr) : ∀ s ∈ evalAll es, s.value.Closed := by
  match es with
  | [] =>
    intro s hs
    exact absurd hs List.not_mem_nil
  | e :: es => exact List.forall_mem_cons.mpr ⟨e.eval_closed, evalAll_closed es⟩

end

mutual

/-- Every expression gives the text that it stands for. -/
theorem text_eval (e : Expr) : e.eval.text = e.denoted := by
  match e with
  | string source => exact text_literal source.text
  | concat l r =>
    rw [denoted, ← text_eval l, ← text_eval r]
    exact StringType.text_concat _ _
  | concatArray l r =>
    rw [denoted, ← text_eval l, ← text_literal r.text]
    exact StringType.text_concatArray _ _
  | add l r =>
    rw [denoted, ← text_eval l, ← text_eval r]
    exact StringType.text_concat _ _
  | addArray l r =>
    rw [denoted, ← text_eval l, ← text_literal r.text]
    exact StringType.text_concatArray _ _
  | join delimiter first rest =>
    rw [denoted, ← text_eval first, ← text_evalAll rest]
    exact text_join delimiter.text ⟨first.eval, evalAll rest⟩

theorem text_evalAll (es : List Expr) : (evalAll es).map AnyString.text = denotedAll es := by
  match es with
  | [] => rfl
  | e :: es => rw [evalAll, denotedAll, List.map_cons, text_eval e, text_evalAll es]

end

end Expr

def Strings.toStdStrings (t : Strings) : List (List CChar) :=
  t.all.map (fun s => s.value.toStdString)

/-- Expressions denote their text. The two joins agree for any delimiter, if the
run-time one is given it as a string, and otherwise if there is no terminator in it. -/
theorem expressions_denote :
    (∀ e : Expr, Denotes e.eval e.denoted) ∧
      (∀ (delimiter : List CChar) (t : Strings),
        (join (literal delimiter) t).text =
          Stdext.Separator.join (.string delimiter) t.toStdStrings) ∧
      ∀ (delimiter : Literal) (t : Strings),
        (join (literal delimiter.text) t).text =
          Stdext.Separator.join (.array (literal delimiter.text).toList) t.toStdStrings := by
  refine ⟨?_, ?_, ?_⟩
  · intro e
    rw [← e.text_eval]
    exact e.eval_closed.denotes
  · intro delimiter t
    rw [Stdext.Separator.join_eq]
    exact text_join delimiter t
  · intro delimiter t
    have harray : Stdext.Separator.text (.array (literal delimiter.text).toList) = delimiter.text :=
      takeWhile_terminated delimiter.unterminated
    rw [Stdext.Separator.join_eq, harray]
    exact text_join delimiter.text t

end Valuelib.Immutable
