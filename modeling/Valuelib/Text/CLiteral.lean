import Valuelib.Text.Numeral
import Valuelib.Base.Transducer

namespace Valuelib.Text
open CChar

def simpleEscapes : List (CChar × CChar) :=
  [(quote, quote), (doubleQuote, doubleQuote), (backslash, backslash), (114, carriageReturn),
    (102, formFeed), (118, verticalTab), (110, newline), (116, tab), (98, backspace), (97, alert)]

def isOctalDigit (x : CChar) : Bool := decide (48 ≤ x) && decide (x ≤ 55)

/-- Where a reader of a string literal is: between characters, after a backslash,
or after some octal digits of an escape sequence. -/
inductive Reading where
  | normal
  | afterBackslash
  | octal (value digits : Nat)
deriving DecidableEq, Repr

/-- An octal escape sequence stands for a char only if its value fits. -/
def octalChar (value : Nat) : Option CChar :=
  if value < 256 then some (UInt8.ofNat value) else none

namespace Reading

def readPlain (x : CChar) : Option (List CChar × Reading) :=
  if x = backslash then some ([], afterBackslash)
  else if x = doubleQuote then none
  else some ([x], normal)

def read : Reading → CChar → Option (List CChar × Reading)
  | normal, x => readPlain x
  | afterBackslash, x =>
    match simpleEscapes.lookup x with
    | some c => some ([c], normal)
    | none => if isOctalDigit x then some ([], octal (x.toNat - 48) 1) else none
  | octal value digits, x =>
    if isOctalDigit x then
      if digits < 2 then some ([], octal (8 * value + (x.toNat - 48)) (digits + 1))
      else (octalChar (8 * value + (x.toNat - 48))).map (fun c => ([c], normal))
    else do
      let c ← octalChar value
      let (out, s) ← readPlain x
      return (c :: out, s)

def finish : Reading → Option (List CChar)
  | normal => some []
  | afterBackslash => none
  | octal value _ => (octalChar value).map (fun c => [c])

end Reading

def literalReader : Transducer Reading CChar CChar := ⟨.normal, Reading.read, Reading.finish⟩

/-- The characters that the body of a string literal denotes, if it is one. -/
def decode (body : List CChar) : Option (List CChar) := literalReader.run body

/-- Characters that an escape sequence may be needed for weigh more. -/
def weight (c : CChar) : Nat := if isprint c ∧ c ≠ backslash then 1 else 4

/-- What reading a character can bring in. A double quote is worth nothing: it
is only read after a backslash, which has paid for it. -/
def cost (x : CChar) : Nat := if x = backslash then 3 else if x = doubleQuote then 0 else weight x

def Reading.potential : Reading → Nat
  | normal => 0
  | afterBackslash => 3
  | octal _ _ => 4

@[simp] theorem potential_normal : Reading.normal.potential = 0 := rfl

@[simp] theorem potential_afterBackslash : Reading.afterBackslash.potential = 3 := rfl

@[simp] theorem potential_octal (value digits : Nat) :
    (Reading.octal value digits).potential = 4 := rfl

theorem weight_le (c : CChar) : weight c ≤ 4 := by
  unfold weight
  split <;> omega

theorem cost_pos {x : CChar} (h : x ≠ doubleQuote) : 1 ≤ cost x := by
  simp only [cost, weight, if_neg h]
  split
  · omega
  · split <;> omega

theorem octalDigit_cost {x : CChar} (h : isOctalDigit x = true) : 1 ≤ cost x := by
  apply cost_pos
  intro hx
  subst hx
  cases h

theorem simpleEscape_weight : ∀ x : CChar,
    ∀ c ∈ simpleEscapes.lookup x, weight c ≤ 3 + cost x := by
  apply forall_of_ofNat
  decide +kernel

/-- What is read between characters is paid for by the character. -/
theorem readPlain_bounded {x : CChar} {out : List CChar} {s : Reading}
    (h : Reading.readPlain x = some (out, s)) :
    Transducer.total weight out + s.potential ≤ cost x := by
  unfold Reading.readPlain at h
  split at h
  · rename_i hx
    cases h
    simp [cost, hx]
  · rename_i hx
    split at h
    · cases h
    · rename_i hq
      cases h
      simp [cost, hx, hq]

/-- Reading a character brings in no more than it costs and what was stored. -/
theorem read_bounded (s : Reading) (x : CChar) (out : List CChar) (s' : Reading)
    (h : s.read x = some (out, s')) :
    Transducer.total weight out + s'.potential ≤ s.potential + cost x := by
  cases s with
  | normal => simpa using readPlain_bounded h
  | afterBackslash =>
    simp only [Reading.read] at h
    split at h
    · rename_i c hc
      cases h
      simpa using simpleEscape_weight x c hc
    · split at h
      · rename_i hdigit
        have hcost := octalDigit_cost hdigit
        cases h
        simp only [Transducer.total_nil, potential_octal, potential_afterBackslash]
        omega
      · cases h
  | octal value digits =>
    simp only [Reading.read] at h
    split at h
    · rename_i hdigit
      split at h
      · cases h
        simp
      · obtain ⟨c, hc, he⟩ := Option.map_eq_some_iff.mp h
        cases he
        simpa using Nat.le_add_right_of_le (weight_le c)
    · simp only [Option.bind_eq_bind, Option.bind_eq_some_iff] at h
      obtain ⟨c, hc, ⟨out', s''⟩, hplain, he⟩ := h
      cases he
      have hw := weight_le c
      have hrest := readPlain_bounded hplain
      simp only [Transducer.total_cons, potential_octal]
      omega

theorem finish_bounded (s : Reading) (out : List CChar) (h : s.finish = some out) :
    Transducer.total weight out ≤ s.potential := by
  cases s with
  | normal =>
    cases h
    simp
  | afterBackslash => cases h
  | octal value digits =>
    obtain ⟨c, hc, he⟩ := Option.map_eq_some_iff.mp h
    cases he
    simpa using weight_le c

/-- A text denotes no more than what its characters can bring in. -/
theorem decode_bounded {body d : List CChar} (h : decode body = some d) :
    Transducer.total weight d ≤ Transducer.total cost body := by
  have hbound := Transducer.runFrom_bounded read_bounded finish_bounded h
  simpa [literalReader] using hbound

end Valuelib.Text
