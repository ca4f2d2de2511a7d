import Valuelib.Stdext.Translating

namespace Valuelib.Stdext
open Text Checked BitNumbers Greedy Separated

def union : List (BitVec 32) → BitVec 32
  | [] => 0#32
  | mask :: masks => mask ||| union masks

/-- Entries of a table and bit numbers that together make up the bits, each bit
once. -/
structure Partition (table : List BitTranslation) (bits : BitVec 32)
    (named : List BitTranslation) (unknown : List Nat) : Prop where
  inTable : named.Sublist table
  ascending : unknown.Pairwise (· < ·)
  inWord : ∀ n ∈ unknown, n < 32
  disjoint : named.Pairwise (fun e e' => e.mask &&& e'.mask = 0#32)
  apart : ∀ e ∈ named, ∀ n ∈ unknown, e.mask.getLsbD n = false
  whole : union (named.map BitTranslation.mask ++ unknown.map (1#32 <<< ·)) = bits

theorem bitNumbers_union_append (masks masks' : List (BitVec 32)) :
    bitNumbers (union (masks ++ masks')) =
      bitNumbers (union masks) ∪ bitNumbers (union masks') := by
  induction masks with
  | nil => simp [union]
  | cons mask masks ih => simp [union, ih, Finset.union_assoc]

theorem bitNumbers_union_masks (entries : List BitTranslation) :
    bitNumbers (union (entries.map BitTranslation.mask)) = join part entries := by
  induction entries with
  | nil => simp [union, join]
  | cons e entries ih => simp [union, join, ih, part]

theorem bitNumbers_union_bits (numbers : List Nat) (h : ∀ n ∈ numbers, n < 32) :
    bitNumbers (union (numbers.map (1#32 <<< ·))) = numbers.toFinset := by
  induction numbers with
  | nil => simp [union]
  | cons n numbers ih =>
    rw [List.map_cons, union, bitNumbers_or, ih (fun k hk => h k (List.mem_cons_of_mem n hk)),
      bitNumbers_one (h n List.mem_cons_self), List.toFinset_cons, Finset.insert_eq]

theorem unknownFrom_toFinset (bits : BitVec 32) :
    (unknownFrom 0 bits).toFinset = bitNumbers bits := by
  ext n
  rw [List.mem_toFinset, mem_unknownFrom, mem_bitNumbers]

/-- What is taken greedily, and the bits that are left, make up the input. -/
theorem partition_of_takes {table entries : List BitTranslation} {bits rest : BitVec 32}
    (h : Takes part (bitNumbers bits) table entries (bitNumbers rest)) :
    Partition table bits entries (unknownFrom 0 rest) := by
  have hbound : ∀ n ∈ unknownFrom 0 rest, n < 32 := fun n hn =>
    BitVec.lt_of_getLsbD (mem_unknownFrom.mp hn)
  refine ⟨h.sublist, unknownFrom_ascending 0 rest, hbound, ?_, ?_, ?_⟩
  · exact h.pairwise.imp (fun hd => bitNumbers_disjoint.mp hd)
  · intro e he n hn
    have hd := Finset.disjoint_left.mp (h.disjoint_rest he)
    rw [← Bool.not_eq_true, ← mem_bitNumbers]
    intro hmask
    exact hd hmask (mem_bitNumbers.mpr (mem_unknownFrom.mp hn))
  · rw [← bitNumbers_inj, bitNumbers_union_append, bitNumbers_union_masks,
      bitNumbers_union_bits _ hbound, unknownFrom_toFinset]
    exact h.join_sup_rest

/-- The entries named for the bits, and the bits that no entry is named for. -/
theorem start_spec (table : List BitTranslation) (bits : BitVec 32) :
    (bitsToStringImpl (.start bits) table).Shows (names (named (.start bits) table)) ∧
      Takes part (bitNumbers bits) table (named (.start bits) table)
        (bitNumbers (bitsToStringImpl (.start bits) table).bits) :=
  bitsToStringImpl_spec table (.start bits) [] (start_shows bits)

theorem bitsToString_ignore (fuel : Nat) (table : List BitTranslation) (bits : BitVec 32) :
    bitsToString fuel .ignoreUnknown bits table =
      some (.ok (joined (chars ", ") (names (named (.start bits) table)))) := by
  rw [← (start_spec table bits).1.result]
  rfl

/-- With enough fuel, the names are followed by the numbers of the bits left. -/
theorem bitsToString_report {fuel : Nat} (hfuel : 33 ≤ fuel) (table : List BitTranslation)
    (bits : BitVec 32) :
    bitsToString fuel .reportUnknown bits table =
      some (.ok (joined (chars ", ") (names (named (.start bits) table) ++
        (unknownFrom 0 (bitsToStringImpl (.start bits) table).bits).map bitName))) := by
  obtain ⟨t, ht, hshows⟩ := reportFrom_spec fuel 0 _ _ hfuel (Nat.zero_le 32)
    (fun n hn => absurd hn (Nat.not_lt_zero n)) (start_spec table bits).1
  rw [bitsToString, Policy.apply, ht, ← hshows.result]
  rfl

/-- Translating bits to text loses nothing: the text lists table entries and bit
numbers that together are the input. -/
theorem bits_to_string_lossless (table : List BitTranslation) (bits : BitVec 32) :
    ∃ entries unknown, Partition table bits entries unknown ∧
      (∀ fuel ≥ 33, bitsToString fuel .reportUnknown bits table =
        some (.ok (joined (chars ", ") (names entries ++ unknown.map bitName)))) ∧
      ∀ fuel, bitsToString fuel .ignoreUnknown bits table =
        some (.ok (joined (chars ", ") (names entries))) := by
  let unknown := unknownFrom 0 (bitsToStringImpl (.start bits) table).bits
  refine ⟨named (.start bits) table, unknown, ?_, ?_, ?_⟩
  · apply partition_of_takes
    exact (start_spec table bits).2
  · intro fuel hfuel
    exact bitsToString_report hfuel table bits
  · intro fuel
    exact bitsToString_ignore fuel table bits

/-- Some bit is left over when the entries are taken from the bits greedily. -/
def LeftOver (table : List BitTranslation) (bits : BitVec 32) : Prop :=
  ∃ entries rest, Takes part (bitNumbers bits) table entries rest ∧ rest.Nonempty

/-- What is left over is what the loop over the table leaves. -/
theorem leftOver_iff {table : List BitTranslation} {bits : BitVec 32} :
    LeftOver table bits ↔ (bitsToStringImpl (.start bits) table).bits ≠ 0#32 := by
  have htakes := (start_spec table bits).2
  rw [ne_eq, ← bitNumbers_inj, bitNumbers_zero, ← ne_eq, ← Finset.nonempty_iff_ne_empty]
  constructor
  · intro h
    obtain ⟨entries, rest, hrest, hne⟩ := h
    rw [(htakes.unique hrest).2]
    exact hne
  · intro h
    exact ⟨_, _, htakes, h⟩

/-- When nothing is left over there is nothing to report. -/
theorem report_eq_ignore {fuel : Nat} (hfuel : 33 ≤ fuel) {table : List BitTranslation}
    {bits : BitVec 32} (h : ¬ LeftOver table bits) :
    bitsToString fuel .reportUnknown bits table = bitsToString fuel .ignoreUnknown bits table := by
  have hzero : (bitsToStringImpl (.start bits) table).bits = 0#32 := by
    by_contra hne
    exact h (leftOver_iff.mpr hne)
  rw [bitsToString_report hfuel, bitsToString_ignore, unknownFrom_eq_nil hzero, List.map_nil,
    List.append_nil]

/-- What the three policies are meant to do: to differ only on unknown bits. -/
structure PoliciesAgree (table : List BitTranslation) (bits : BitVec 32) : Prop where
  fails : (∀ fuel, ∃ text,
    bitsToString fuel .assertUnknown bits table = some (.error (.assertion text))) ↔
      LeftOver table bits
  agree : ¬ LeftOver table bits → ∃ text, ∀ fuel ≥ 33, ∀ policy,
    bitsToString fuel policy bits table = some (.ok text)

theorem bitsToString_assert (fuel : Nat) (table : List BitTranslation) (bits : BitVec 32) :
    bitsToString fuel .assertUnknown bits table =
      some (.error (.assertion "there are unknown bits set")) := rfl

/-- The assertion fails on any input, so the policies do what they are meant to
do exactly when it is right to fail. The other two agree when nothing is left. -/
theorem policiesAgree_iff (table : List BitTranslation) (bits : BitVec 32) :
    (PoliciesAgree table bits ↔ LeftOver table bits) ∧
      (¬ LeftOver table bits → ∃ text, ∀ fuel ≥ 33, ∀ policy ≠ .assertUnknown,
        bitsToString fuel policy bits table = some (.ok text)) := by
  refine ⟨⟨?_, ?_⟩, ?_⟩
  · intro h
    exact h.fails.mp (fun fuel => ⟨_, bitsToString_assert fuel table bits⟩)
  · intro h
    refine ⟨iff_of_true ?_ h, fun hno => absurd h hno⟩
    intro fuel
    exact ⟨_, bitsToString_assert fuel table bits⟩
  · intro h
    refine ⟨joined (chars ", ") (names (named (.start bits) table)), ?_⟩
    intro fuel hfuel policy hpolicy
    cases policy with
    | ignoreUnknown => exact bitsToString_ignore fuel table bits
    | reportUnknown => rw [report_eq_ignore hfuel h, bitsToString_ignore]
    | assertUnknown => exact absurd rfl hpolicy

/-- The bit that the table names, and an assertion about unknown bits. -/
theorem known_bits_asserted :
    bitsToString 33 .assertUnknown 2#32 [⟨2#32, chars "foo"⟩] =
        some (.error (.assertion "there are unknown bits set")) ∧
      ¬ LeftOver [⟨2#32, chars "foo"⟩] 2#32 ∧ ¬ PoliciesAgree [⟨2#32, chars "foo"⟩] 2#32 := by
  have hnone : ¬ LeftOver [⟨2#32, chars "foo"⟩] 2#32 := by
    rw [leftOver_iff]
    decide
  refine ⟨rfl, hnone, ?_⟩
  intro h
  exact hnone (h.fails.mp (fun fuel => ⟨_, rfl⟩))

/-- The entries that a table without overlaps names do not depend on its order. -/
structure OrderIrrelevant (table table' : List BitTranslation) (bits : BitVec 32) : Prop where
  named : ∀ t ∈ [table, table'],
    named (.start bits) t = t.filter (fun e => bits &&& e.mask == e.mask)
  same : (Stdext.named (.start bits) table).Perm (Stdext.named (.start bits) table')
  left : (bitsToStringImpl (.start bits) table).bits = (bitsToStringImpl (.start bits) table').bits
  texts : ∃ unknown, ∀ fuel ≥ 33, ∀ t ∈ [table, table'],
    bitsToString fuel .reportUnknown bits t =
      some (.ok (joined (chars ", ") (names (Stdext.named (.start bits) t) ++ unknown)))

/-- Where no masks overlap, the entries named are those wholly set. -/
theorem named_eq_filter {table : List BitTranslation}
    (hd : table.Pairwise (fun e e' => e.mask &&& e'.mask = 0#32)) (bits : BitVec 32) :
    named (.start bits) table = table.filter (fun e => bits &&& e.mask == e.mask) := by
  rw [(start_spec table bits).2.eq_filter (hd.imp bitNumbers_disjoint.mpr)]
  apply List.filter_congr
  intro e _
  rw [Bool.eq_iff_iff, decide_eq_true_eq, beq_iff_eq, ← bitNumbers_subset]
  rfl

/-- The order of a table without overlaps does not matter. -/
theorem order_irrelevant {table table' : List BitTranslation} (hperm : table.Perm table')
    (hdisjoint : table.Pairwise (fun e e' => e.mask &&& e'.mask = 0#32)) (bits : BitVec 32) :
    OrderIrrelevant table table' bits := by
  have hdisjoint' : table'.Pairwise (fun e e' => e.mask &&& e'.mask = 0#32) :=
    hperm.pairwise hdisjoint (fun h => by rwa [BitVec.and_comm])
  obtain ⟨hsame, hleft⟩ := (start_spec table bits).2.perm (start_spec table' bits).2 hperm
    (hdisjoint.imp bitNumbers_disjoint.mpr)
  rw [bitNumbers_inj] at hleft
  refine ⟨?_, hsame, hleft, ?_⟩
  · intro t ht
    rcases List.mem_pair.mp ht with rfl | rfl
    · exact named_eq_filter hdisjoint bits
    · exact named_eq_filter hdisjoint' bits
  · refine ⟨(unknownFrom 0 (bitsToStringImpl (.start bits) table).bits).map bitName, ?_⟩
    intro fuel hfuel t ht
    rcases List.mem_pair.mp ht with rfl | rfl
    · exact bitsToString_report hfuel t bits
    · rw [hleft]
      exact bitsToString_report hfuel t bits

/-- Two bits and a mask, turned around. -/
theorem order_irrelevant_swapped :
    OrderIrrelevant [⟨2#32, chars "foo"⟩, ⟨0xc#32, chars "rest"⟩]
      [⟨0xc#32, chars "rest"⟩, ⟨2#32, chars "foo"⟩] 0x3f#32 := by
  apply order_irrelevant (.swap _ _ _)
  decide

end Valuelib.Stdext
