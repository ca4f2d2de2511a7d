import Valuelib.Base.Checked
import Valuelib.Text.Numeral

namespace Valuelib.Stdext
open Text Checked

structure BitTranslation where
  mask : BitVec 32
  name : List CChar
deriving DecidableEq, Repr

def shiftOne (n : Nat) : Except Fault (BitVec 32) :=
  if n < 32 then .ok (1#32 <<< n) else .error (.undefined "shift by the width or more")

/-- What a table is made from: `bit` (or an `int`, which is taken for one) and `mask`. -/
inductive MaskOrBit where
  | bit (n : Nat)
  | mask (m : BitVec 32)
deriving DecidableEq, Repr

def bitTranslation (number : MaskOrBit) (name : List CChar) : Except Fault BitTranslation :=
  match number with
  | .bit n => do
    let mask ← shiftOne n
    return ⟨mask, name⟩
  | .mask m => .ok ⟨m, name⟩

def makeBitTranslationTable (args : List (MaskOrBit × List CChar)) :
    Except Fault (List BitTranslation) :=
  args.mapM (fun a => bitTranslation a.1 a.2)

def MaskOrBit.bits : MaskOrBit → BitVec 32
  | bit n => 1#32 <<< n
  | mask m => m

def MaskOrBit.InRange : MaskOrBit → Prop
  | bit n => n < 32
  | mask _ => True

/-- An entry is made for every mask and for the bits that an `int` has. -/
theorem bitTranslation_iff {number : MaskOrBit} {name : List CChar} {entry : BitTranslation} :
    bitTranslation number name = .ok entry ↔ number.InRange ∧ entry = ⟨number.bits, name⟩ := by
  cases number with
  | mask m =>
    simp only [bitTranslation, MaskOrBit.InRange, MaskOrBit.bits, Except.ok.injEq, true_and]
    exact eq_comm
  | bit n =>
    rw [bitTranslation, bind_ok]
    by_cases hn : n < 32
    · simp only [shiftOne, MaskOrBit.InRange, MaskOrBit.bits, hn, true_and, if_true]
      constructor
      · rintro ⟨mask, hmask, hentry⟩
        cases hmask
        cases hentry
        rfl
      · intro hentry
        exact ⟨1#32 <<< n, rfl, congrArg Except.ok hentry.symm⟩
    · simp [shiftOne, hn, MaskOrBit.InRange]

/-- A table is made exactly if the bit numbers are below 32, with an entry for each argument and
the mask that was meant by it. -/
theorem makeBitTranslationTable_iff {args : List (MaskOrBit × List CChar)}
    {table : List BitTranslation} :
    makeBitTranslationTable args = .ok table ↔
      (∀ a ∈ args, a.1.InRange) ∧ table = args.map (fun a => ⟨a.1.bits, a.2⟩) := by
  induction args generalizing table with
  | nil =>
    simp only [makeBitTranslationTable, List.mapM_nil, List.map_nil]
    constructor
    · intro h
      cases h
      exact ⟨fun _ ha => absurd ha List.not_mem_nil, rfl⟩
    · intro h
      rw [h.2]
      rfl
  | cons a args ih =>
    rw [makeBitTranslationTable] at ih
    rw [makeBitTranslationTable, List.mapM_cons, bind_ok]
    simp only [bind_ok, bitTranslation_iff, ih, List.forall_mem_cons, List.map_cons]
    constructor
    · rintro ⟨entry, ⟨ha, rfl⟩, entries, ⟨hargs, rfl⟩, htable⟩
      cases htable
      exact ⟨⟨ha, hargs⟩, rfl⟩
    · rintro ⟨⟨ha, hargs⟩, rfl⟩
      exact ⟨_, ⟨ha, rfl⟩, _, ⟨hargs, rfl⟩, rfl⟩

/-- The variables that are handed on by reference: the text so far, the
separator in front of the next item, and the bits still to be translated. -/
structure Translation where
  result : List CChar
  sep : List CChar
  bits : BitVec 32
deriving DecidableEq, Repr

def Translation.start (bits : BitVec 32) : Translation := ⟨[], [], bits⟩

def Translation.append (t : Translation) (item : List CChar) : Translation :=
  { t with result := t.result ++ t.sep ++ item, sep := chars ", " }

def Translation.clear (t : Translation) (mask : BitVec 32) : Translation :=
  { t with bits := t.bits &&& ~~~mask }

def Translation.has (t : Translation) (first : BitTranslation) : Bool :=
  t.bits &&& first.mask == first.mask

def translateEntry (t : Translation) (first : BitTranslation) : Translation :=
  if t.has first then (t.append first.name).clear first.mask else t

def bitsToStringImpl (t : Translation) (table : List BitTranslation) : Translation :=
  table.foldl translateEntry t

def bitName (bitnum : Nat) : List CChar := chars "bit " ++ numeral 10 bitnum

/-- The loop of `report_unknown`. The fuel bounds its turns: `none` is a loop
that still runs. -/
def reportFrom : Nat → Nat → Translation → Option (Except Fault Translation)
  | 0, _, _ => none
  | fuel + 1, bitnum, t =>
    if t.bits = 0#32 then some (.ok t)
    else
      match shiftOne bitnum with
      | .error e => some (.error e)
      | .ok one =>
        if t.bits &&& one ≠ 0#32 then
          reportFrom fuel (bitnum + 1) ((t.append (bitName bitnum)).clear one)
        else reportFrom fuel (bitnum + 1) t

inductive Policy where
  | ignoreUnknown
  | reportUnknown
  | assertUnknown
deriving DecidableEq, Repr

/-- The policy's `operator()`. The assertion does not look at the bits. -/
def Policy.apply (fuel : Nat) (t : Translation) : Policy → Option (Except Fault Translation)
  | ignoreUnknown => some (.ok t)
  | reportUnknown => reportFrom fuel 0 t
  | assertUnknown => some (.error (.assertion "there are unknown bits set"))

def bitsToString (fuel : Nat) (policy : Policy) (bits : BitVec 32)
    (table : List BitTranslation) : Option (Except Fault (List CChar)) :=
  (policy.apply fuel (bitsToStringImpl (.start bits) table)).map (fun x => x.map Translation.result)

example : (makeBitTranslationTable [(.bit 1, chars "foo"), (.bit 4, chars "bar"),
    (.mask 0xd#32, chars "rest")]).map (bitsToString 33 .reportUnknown 0x3f#32) =
    .ok (some (.ok (chars "foo, bar, rest, bit 5"))) := by rfl

end Valuelib.Stdext
