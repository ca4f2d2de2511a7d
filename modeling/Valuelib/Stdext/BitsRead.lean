import Valuelib.Stdext.BitsToString
import Valuelib.Text.Reading

namespace Valuelib.Stdext
open Text CChar BitNumbers Greedy Separated

variable {table : List BitTranslation}

/-- Names that can be read in a list: not empty, without a comma, unlike the names of
bits that no entry has, and each for one mask. -/
structure Readable (table : List BitTranslation) : Prop where
  nonempty : ∀ e ∈ table, e.name ≠ []
  plain : ∀ e ∈ table, comma ∉ e.name
  apart : ∀ e ∈ table, ∀ n < 32, e.name ≠ bitName n
  oneMask : ∀ e ∈ table, ∀ e' ∈ table, e.name = e'.name → e.mask = e'.mask

theorem numeral_injective {m n : Nat} (h : numeral 10 m = numeral 10 n) : m = n := by
  have hm := readNumeral_numeral (b := 10) (n := m) (by omega) (by omega)
  rw [h, readNumeral_numeral (by omega) (by omega)] at hm
  exact (Option.some.inj hm).symm

theorem bitName_injective : Function.Injective bitName := by
  intro m n h
  exact numeral_injective (List.append_cancel_left h)

theorem bitName_ne_nil (n : Nat) : bitName n ≠ [] := by
  apply List.append_ne_nil_of_right_ne_nil
  exact numeral_ne_nil

theorem comma_not_mem_bitName (n : Nat) : comma ∉ bitName n := by
  intro h
  rw [bitName, List.mem_append] at h
  rcases h with h | h
  · revert h; decide
  · obtain ⟨d, hd, hcomma⟩ := digit_of_mem_numeral (by omega) h
    have hall : ∀ d < 10, comma ≠ digit d := by decide
    exact hall d hd hcomma

/-- Two lists one after the other, told apart by a property of their members. -/
theorem append_apart {α : Type} (p : α → Prop) [DecidablePred p] {l l' k k' : List α}
    (hl : ∀ a ∈ l, ¬ p a) (hl' : ∀ a ∈ l', ¬ p a) (hk : ∀ a ∈ k, p a) (hk' : ∀ a ∈ k', p a)
    (h : l ++ k = l' ++ k') : l = l' ∧ k = k' := by
  have hnone : ∀ m : List α, (∀ a ∈ m, ¬ p a) → m.filter p = [] := by
    intro m hm
    simpa [List.filter_eq_nil_iff] using hm
  have hall : ∀ m : List α, (∀ a ∈ m, p a) → m.filter p = m := by
    intro m hm
    simpa [List.filter_eq_self] using hm
  have hfilter := congrArg (List.filter p) h
  simp only [List.filter_append, hnone l hl, hnone l' hl', hall k hk, hall k' hk',
    List.nil_append] at hfilter
  rw [hfilter] at h
  exact ⟨List.append_cancel_right h, hfilter⟩

def items (table : List BitTranslation) (bits : BitVec 32) : List (List CChar) :=
  names (named (.start bits) table) ++
    (unknownFrom 0 (bitsToStringImpl (.start bits) table).bits).map bitName

theorem partition (table : List BitTranslation) (bits : BitVec 32) :
    Partition table bits (named (.start bits) table)
      (unknownFrom 0 (bitsToStringImpl (.start bits) table).bits) := by
  apply partition_of_takes
  exact (start_spec table bits).2

theorem mem_items {bits : BitVec 32} {item : List CChar} (h : item ∈ items table bits) :
    (∃ e ∈ table, e.name = item) ∨ ∃ n < 32, bitName n = item := by
  have hpartition := partition table bits
  rw [items, List.mem_append, names, List.mem_map, List.mem_map] at h
  rcases h with h | h
  · obtain ⟨e, he, hitem⟩ := h
    exact .inl ⟨e, hpartition.inTable.subset he, hitem⟩
  · obtain ⟨n, hn, hitem⟩ := h
    exact .inr ⟨n, hpartition.inWord n hn, hitem⟩

namespace Readable

/-- The items that a readable table leads to are not empty and have no comma. -/
theorem plain_items (h : Readable table) {bits : BitVec 32} {item : List CChar}
    (hitem : item ∈ items table bits) : item ≠ [] ∧ comma ∉ item := by
  rcases mem_items hitem with hitem | hitem
  · obtain ⟨e, he, rfl⟩ := hitem
    exact ⟨h.nonempty e he, h.plain e he⟩
  · obtain ⟨n, _, rfl⟩ := hitem
    exact ⟨bitName_ne_nil n, comma_not_mem_bitName n⟩

/-- The text gives back the items. -/
theorem items_of_text (h : Readable table) {bits bits' : BitVec 32}
    (htext : joined (chars ", ") (items table bits) = joined (chars ", ") (items table bits')) :
    items table bits = items table bits' := by
  have hempty : ∀ bits item rest, items table bits = item :: rest →
      joined (chars ", ") (item :: rest) ≠ [] := by
    intro bits item rest hitems
    have hitem : item ∈ items table bits := hitems ▸ List.mem_cons_self
    exact List.append_ne_nil_of_left_ne_nil (h.plain_items hitem).1 _
  cases hitems : items table bits with
  | nil =>
    cases hitems' : items table bits' with
    | nil => rfl
    | cons item rest =>
      rw [hitems, hitems'] at htext
      exact absurd htext.symm (hempty bits' item rest hitems')
  | cons item rest =>
    cases hitems' : items table bits' with
    | nil =>
      rw [hitems, hitems'] at htext
      exact absurd htext (hempty bits item rest hitems)
    | cons item' rest' =>
      rw [hitems, hitems'] at htext
      exact joined_inj (fun z hz => (h.plain_items (hitems ▸ hz)).2)
        (fun z hz => (h.plain_items (hitems' ▸ hz)).2) htext

/-- The items give back the masks and the bit numbers. -/
theorem bits_of_items (h : Readable table) {bits bits' : BitVec 32}
    (hitems : items table bits = items table bits') : bits = bits' := by
  have hpartition := partition table bits
  have hpartition' := partition table bits'
  have hnames : ∀ bits, ∀ item ∈ names (named (.start bits) table),
      ¬ ∃ n < 32, item = bitName n := by
    intro bits item hitem hbit
    obtain ⟨e, he, rfl⟩ := List.mem_map.mp hitem
    obtain ⟨n, hn, hname⟩ := hbit
    exact h.apart e ((partition table bits).inTable.subset he) n hn hname
  have hbits : ∀ bits, ∀ item ∈
      (unknownFrom 0 (bitsToStringImpl (.start bits) table).bits).map bitName,
      ∃ n < 32, item = bitName n := by
    intro bits item hitem
    obtain ⟨n, hn, rfl⟩ := List.mem_map.mp hitem
    exact ⟨n, (partition table bits).inWord n hn, rfl⟩
  obtain ⟨hnamed, hunknown⟩ := append_apart (fun item => ∃ n < 32, item = bitName n)
    (hnames bits) (hnames bits') (hbits bits) (hbits bits') hitems
  -- An entry with the name of another one has its mask.
  have hmask : ∀ e ∈ table, ((table.find? (·.name = e.name)).map BitTranslation.mask).getD 0#32 =
      e.mask := by
    intro e he
    cases hfind : table.find? (·.name = e.name) with
    | none =>
      have hnone := List.find?_eq_none.mp hfind e he
      simp at hnone
    | some e' =>
      have hname : e'.name = e.name := by simpa using List.find?_some hfind
      exact h.oneMask e' (List.mem_of_find?_eq_some hfind) e he hname
  have hmasks : ∀ bits, (named (.start bits) table).map BitTranslation.mask =
      (names (named (.start bits) table)).map
        (fun name => ((table.find? (·.name = name)).map BitTranslation.mask).getD 0#32) := by
    intro bits
    rw [names, List.map_map]
    apply List.map_congr_left
    intro e he
    exact (hmask e ((partition table bits).inTable.subset he)).symm
  rw [← hpartition.whole, ← hpartition'.whole, hmasks, hmasks, hnamed,
    List.map_injective_iff.mpr bitName_injective hunknown]

end Readable

/-- From the text of `report_unknown` the bits can be read back. -/
theorem report_injective (h : Readable table) {fuel : Nat} (hfuel : 33 ≤ fuel) :
    Function.Injective (fun bits => bitsToString fuel .reportUnknown bits table) := by
  intro bits bits' htext
  have hitems : ∀ bits, bitsToString fuel .reportUnknown bits table =
      some (.ok (joined (chars ", ") (items table bits))) := bitsToString_report hfuel table
  simp only [hitems, Option.some.injEq, Except.ok.injEq] at htext
  exact h.bits_of_items (h.items_of_text htext)

/-- A table with masks that overlap. -/
theorem report_injective_overlap :
    Function.Injective (fun bits => bitsToString 33 .reportUnknown bits
      [⟨2#32, chars "foo"⟩, ⟨16#32, chars "bar"⟩, ⟨13#32, chars "rest"⟩, ⟨3#32, chars "low"⟩]) := by
  refine report_injective ⟨?_, ?_, ?_, ?_⟩ (Nat.le_refl 33)
  · simp [chars]
  · decide
  · decide
  · decide

end Valuelib.Stdext
