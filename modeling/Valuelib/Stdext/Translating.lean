import Valuelib.Stdext.Bits
import Valuelib.Base.BitNumbers
import Valuelib.Base.Greedy
import Valuelib.Base.Separated

namespace Valuelib.Stdext
open Text Checked BitNumbers Greedy Separated

structure Translation.Shows (t : Translation) (items : List (List CChar)) : Prop where
  result : t.result = joined (chars ", ") items
  sep : t.sep = pending (chars ", ") items

theorem start_shows (bits : BitVec 32) : (Translation.start bits).Shows [] := ⟨rfl, rfl⟩

theorem Translation.Shows.append {t : Translation} {items : List (List CChar)} (h : t.Shows items)
    (item : List CChar) : (t.append item).Shows (items ++ [item]) := by
  refine ⟨?_, ?_⟩
  · rw [joined_concat, ← h.result, ← h.sep]
    rfl
  · rw [pending_concat]
    rfl

theorem Translation.Shows.clear {t : Translation} {items : List (List CChar)} (h : t.Shows items)
    (mask : BitVec 32) : (t.clear mask).Shows items :=
  ⟨h.result, h.sep⟩

def part (e : BitTranslation) : Finset Nat := bitNumbers e.mask

theorem has_iff {t : Translation} {e : BitTranslation} :
    t.has e = true ↔ part e ≤ bitNumbers t.bits := by
  rw [Translation.has, beq_iff_eq, ← bitNumbers_subset]
  rfl

/-- The entries that the loop names: those whose test succeeds in their turn. -/
def named (t : Translation) : List BitTranslation → List BitTranslation
  | [] => []
  | first :: rest =>
    if t.has first then first :: named (translateEntry t first) rest
    else named (translateEntry t first) rest

def names (entries : List BitTranslation) : List (List CChar) := entries.map BitTranslation.name

/-- The loop over the table takes the entries from the bits greedily, and writes
the names of those it takes. -/
theorem bitsToStringImpl_spec (table : List BitTranslation) (t : Translation)
    (items : List (List CChar)) (h : t.Shows items) :
    (bitsToStringImpl t table).Shows (items ++ names (named t table)) ∧
      Takes part (bitNumbers t.bits) table (named t table)
        (bitNumbers (bitsToStringImpl t table).bits) := by
  induction table generalizing t items with
  | nil => exact ⟨by simpa [bitsToStringImpl, named, names] using h, .nil _⟩
  | cons first rest ih =>
    rw [bitsToStringImpl, List.foldl_cons, ← bitsToStringImpl]
    by_cases hhas : t.has first = true
    · have hturn : translateEntry t first = (t.append first.name).clear first.mask := by
        rw [translateEntry, if_pos hhas]
      obtain ⟨hshows, htakes⟩ := ih _ _ ((h.append first.name).clear first.mask)
      rw [named, if_pos hhas, hturn]
      refine ⟨by simpa [names] using hshows, .take (has_iff.mp hhas) ?_⟩
      have hcleared : bitNumbers ((t.append first.name).clear first.mask).bits =
          bitNumbers t.bits \ part first := bitNumbers_clear _ _
      rw [hcleared] at htakes
      exact htakes
    · have hturn : translateEntry t first = t := by
        rw [translateEntry, if_neg hhas]
      obtain ⟨hshows, htakes⟩ := ih t items h
      rw [named, if_neg hhas, hturn]
      exact ⟨hshows, .skip (fun hle => hhas (has_iff.mpr hle)) htakes⟩

def unknownFrom (bitnum : Nat) (bits : BitVec 32) : List Nat :=
  (List.range' bitnum (32 - bitnum)).filter bits.getLsbD

theorem mem_unknownFrom {n : Nat} {bits : BitVec 32} :
    n ∈ unknownFrom 0 bits ↔ bits.getLsbD n = true := by
  simp only [unknownFrom, List.mem_filter, List.mem_range'_1, and_iff_right_iff_imp]
  intro h
  exact ⟨Nat.zero_le n, by simpa using BitVec.lt_of_getLsbD h⟩

theorem unknownFrom_ascending (bitnum : Nat) (bits : BitVec 32) :
    (unknownFrom bitnum bits).Pairwise (· < ·) := by
  have hrange := List.pairwise_lt_range' (s := bitnum) (n := 32 - bitnum)
  exact hrange.sublist List.filter_sublist

/-- One turn of the loop, seen in the bits that are unknown. -/
theorem unknownFrom_step {bitnum : Nat} {bits : BitVec 32} (h : bitnum < 32) :
    unknownFrom bitnum bits =
      (if bits.getLsbD bitnum then [bitnum] else []) ++ unknownFrom (bitnum + 1) bits := by
  have hrange : 32 - bitnum = 32 - (bitnum + 1) + 1 := by omega
  rw [unknownFrom, hrange, List.range'_succ, List.filter_cons]
  split <;> rfl

theorem unknownFrom_clear {bitnum : Nat} {bits : BitVec 32} (h : bitnum < 32) :
    unknownFrom (bitnum + 1) (bits &&& ~~~(1#32 <<< bitnum)) = unknownFrom (bitnum + 1) bits := by
  apply List.filter_congr
  intro n hn
  have hlt : bitnum < n := (List.mem_range'_1.mp hn).1
  rw [Bool.eq_iff_iff, ← mem_bitNumbers, bitNumbers_clear, bitNumbers_one h]
  simp [show n ≠ bitnum by omega]

theorem unknownFrom_eq_nil {bitnum : Nat} {bits : BitVec 32} (h : bits = 0#32) :
    unknownFrom bitnum bits = [] := by
  simp [unknownFrom, h]

/-- One turn of the loop of `report_unknown`. -/
theorem reportFrom_turn {fuel bitnum : Nat} {t : Translation} (hzero : t.bits ≠ 0#32)
    (h : bitnum < 32) : reportFrom (fuel + 1) bitnum t =
      if t.bits.getLsbD bitnum then
        reportFrom fuel (bitnum + 1) ((t.append (bitName bitnum)).clear (1#32 <<< bitnum))
      else reportFrom fuel (bitnum + 1) t := by
  rw [reportFrom, if_neg hzero, shiftOne, if_pos h]
  exact if_congr (and_one h) rfl rfl

/-- Below its bit number the loop has left nothing. -/
def Scanned (t : Translation) (bitnum : Nat) : Prop := ∀ n < bitnum, t.bits.getLsbD n = false

theorem Scanned.skip {t : Translation} {bitnum : Nat} (h : Scanned t bitnum)
    (hbit : ¬ t.bits.getLsbD bitnum = true) : Scanned t (bitnum + 1) := by
  intro n hn
  rcases Nat.lt_succ_iff_lt_or_eq.mp hn with hn | rfl
  · exact h n hn
  · simpa using hbit

theorem Scanned.clear {t : Translation} {bitnum : Nat} (h : Scanned t bitnum) (hlt : bitnum < 32) :
    Scanned (t.clear (1#32 <<< bitnum)) (bitnum + 1) := by
  intro n hn
  rw [← Bool.not_eq_true, ← mem_bitNumbers, Translation.clear, bitNumbers_clear,
    bitNumbers_one hlt]
  rcases Nat.lt_succ_iff_lt_or_eq.mp hn with hn | rfl
  · simp [h n hn]
  · simp

/-- When bit 31 has been scanned nothing is left. -/
theorem Scanned.done {t : Translation} {bitnum : Nat} (h : Scanned t bitnum) (hge : 32 ≤ bitnum) :
    t.bits = 0#32 := by
  apply BitVec.eq_of_getLsbD_eq
  intro n hn
  rw [h n (by omega)]
  simp

/-- With room for its turns the loop of `report_unknown` ends, and never shifts
too far. -/
theorem reportFrom_spec (fuel bitnum : Nat) (t : Translation) (items : List (List CChar))
    (hfuel : 33 ≤ fuel + bitnum) (hbitnum : bitnum ≤ 32) (hscanned : Scanned t bitnum)
    (h : t.Shows items) :
    ∃ t', reportFrom fuel bitnum t = some (.ok t') ∧
      t'.Shows (items ++ (unknownFrom bitnum t.bits).map bitName) := by
  induction fuel generalizing bitnum t items with
  | zero => omega
  | succ fuel ih =>
    by_cases hzero : t.bits = 0#32
    · refine ⟨t, ?_, by simpa [unknownFrom_eq_nil hzero] using h⟩
      rw [reportFrom, if_pos hzero]
    · have hlt : bitnum < 32 := by
        by_contra hge
        exact hzero (hscanned.done (by omega))
      rw [reportFrom_turn hzero hlt, unknownFrom_step hlt]
      by_cases hbit : t.bits.getLsbD bitnum = true
      · rw [if_pos hbit, if_pos hbit]
        obtain ⟨t', ht', hshows⟩ := ih (bitnum + 1)
          ((t.append (bitName bitnum)).clear (1#32 <<< bitnum)) _ (by omega) hlt
          (hscanned.clear hlt) ((h.append (bitName bitnum)).clear _)
        refine ⟨t', ht', ?_⟩
        simpa [Translation.clear, Translation.append, unknownFrom_clear hlt] using hshows
      · rw [if_neg hbit, if_neg hbit]
        obtain ⟨t', ht', hshows⟩ := ih (bitnum + 1) t items (by omega) hlt
          (hscanned.skip hbit) h
        exact ⟨t', ht', by simpa using hshows⟩

end Valuelib.Stdext
