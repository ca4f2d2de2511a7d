import Valuelib.Stdext.StringAlgorithm
import Valuelib.Text.CLiteral

namespace Valuelib.Stdext
open Text CChar

def escaped (c : CChar) : List CChar := CEscape.apply c []

theorem apply_eq (c : CChar) (iter : OutIter) : CEscape.apply c iter = iter ++ escaped c := by
  simp only [escaped, CEscape.apply, CEscape.emitEscaped, CEscape.emitOctal,
    apply_ite (HAppend.hAppend iter), List.append_assoc, List.nil_append]

theorem doEscape_eq (s : List CChar) (firstout : OutIter) :
    doEscape CEscape.apply s firstout = firstout ++ s.flatMap escaped := by
  induction s generalizing firstout with
  | nil => simp [doEscape]
  | cons c s ih => rw [doEscape, ih, apply_eq, List.append_assoc, List.flatMap_cons]

theorem escape_cons (c : CChar) (s : List CChar) : escape (c :: s) = escaped c ++ escape s := by
  simp [escape, doEscape_eq]

/-- The characters whose escaped form denotes them. The others are written bare
although the reader takes them for something else: the double quote and the
backslash, which are printable, and whatever is written as octal digits. -/
def Reversible (c : CChar) : Prop :=
  (isprint c = true ∧ c ≠ doubleQuote ∧ c ≠ backslash) ∨
    c ∈ [carriageReturn, formFeed, verticalTab, newline, tab, backspace, alert]

instance (c : CChar) : Decidable (Reversible c) := inferInstanceAs (Decidable (_ ∨ _))

/-- A reversible character is written bare or as one of the simple escapes. -/
theorem escaped_reversible : ∀ c : CChar, Reversible c →
    (escaped c = [c] ∧ c ≠ doubleQuote ∧ c ≠ backslash) ∨
      ∃ p ∈ simpleEscapes, escaped c = [backslash, p.1] ∧ simpleEscapes.lookup p.1 = some c := by
  apply forall_of_ofNat
  decide +kernel

/-- The other characters cost the reader less than they weigh. -/
theorem cost_escaped : ∀ c : CChar,
    Transducer.total cost (escaped c) + (if Reversible c then 0 else 1) ≤ weight c := by
  apply forall_of_ofNat
  decide +kernel

theorem decode_escape_cons {c : CChar} (h : Reversible c) (s : List CChar) :
    decode (escape (c :: s)) = (decode (escape s)).map (c :: ·) := by
  rw [escape_cons]
  rcases escaped_reversible c h with ⟨hc, hq, hb⟩ | ⟨p, _, hp, hlookup⟩
  · have hstep : literalReader.step .normal c = some ([c], .normal) := by
      simp [literalReader, Reading.read, Reading.readPlain, hq, hb]
    rw [hc]
    exact Transducer.runFrom_cons hstep (escape s)
  · have hfirst : literalReader.step .normal backslash = some ([], .afterBackslash) := by
      simp [literalReader, Reading.read, Reading.readPlain]
    have hsecond : literalReader.step .afterBackslash p.1 = some ([c], .normal) := by
      simp [literalReader, Reading.read, hlookup]
    have hread : decode ([backslash, p.1] ++ escape s) =
        ((decode (escape s)).map ([c] ++ ·)).map ([] ++ ·) :=
      (Transducer.runFrom_cons hfirst _).trans
        (congrArg (Option.map ([] ++ ·)) (Transducer.runFrom_cons hsecond (escape s)))
    rw [hp, hread, Option.map_map]
    rfl

/-- Reversible characters are read back as they were. -/
theorem decode_escape {s : List CChar} (h : ∀ c ∈ s, Reversible c) :
    decode (escape s) = some s := by
  induction s with
  | nil => rfl
  | cons c s ih =>
    rw [decode_escape_cons (h c List.mem_cons_self),
      ih (fun d hd => h d (List.mem_cons_of_mem c hd))]
    rfl

/-- Each character that is not reversible costs the escaped text something. -/
theorem cost_escape (s : List CChar) :
    Transducer.total cost (escape s) + s.countP (fun c => !decide (Reversible c)) ≤
      Transducer.total weight s := by
  induction s with
  | nil => simp [escape, doEscape]
  | cons c s ih =>
    have hc := cost_escaped c
    rw [escape_cons, Transducer.total_append, Transducer.total_cons, List.countP_cons]
    by_cases hr : Reversible c
    · simp [hr] at hc ⊢
      omega
    · simp [hr] at hc ⊢
      omega

/-- Escaping is undone by the C rules exactly on the texts of reversible
characters, and it tells these texts apart. -/
theorem escape_reversible_iff (s t : List CChar) :
    (decode (escape s) = some s ↔ ∀ c ∈ s, Reversible c) ∧
      ((∀ c ∈ s ++ t, Reversible c) → escape s = escape t → s = t) := by
  refine ⟨⟨?_, decode_escape⟩, ?_⟩
  · intro h c hc
    have hbound := decode_bounded h
    have hcost := cost_escape s
    have hnone : s.countP (fun c => !decide (Reversible c)) = 0 := by omega
    have hgood := List.countP_eq_zero.mp hnone c hc
    simpa using hgood
  · intro hall he
    have hs := decode_escape (fun c hc => hall c (List.mem_append_left t hc))
    have ht := decode_escape (fun c hc => hall c (List.mem_append_right s hc))
    rw [he, ht] at hs
    exact (Option.some.inj hs).symm

/-- A backslash followed by an `n` is written like a newline. -/
theorem backslash_taken_for_newline :
    escape [backslash, 110] = escape [newline] ∧
      decode (escape [backslash, 110]) = some [newline] ∧
      decode (escape [backslash, 110]) ≠ some [backslash, 110] := by
  decide +kernel

end Valuelib.Stdext
