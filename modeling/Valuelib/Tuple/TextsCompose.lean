import Valuelib.Tuple.Pieces
import Valuelib.Base.PrefixFree

namespace Valuelib.Tuple
open Text Separated

def Value.freshText (v : Value) : List CChar := (printTuple v Stream.fresh).text

def assembled (text : Value → List CChar) : Value → List CChar
  | .integer n => n.text .dec
  | .string s => quoted s
  | .tuple vs => chars "(" ++ joined (chars ", ") (vs.map text) ++ chars ")"
  | .pair first second => chars "(" ++ text first ++ chars ", " ++ text second ++ chars ")"
  | .range vs =>
    chars "[" ++ (if vs.isEmpty then [] else chars " ") ++ joined (chars ", ") (vs.map text) ++
      chars " ]"
  | .bytes bs => chars "[" ++ dump bs 0 ++ chars " ]"

inductive Within : Value → Value → Prop where
  | refl (v : Value) : Within v v
  | element {y e v : Value} (he : e ∈ v.elements) (h : Within y e) : Within y v

/-- What printing values one after the other is meant to do. -/
structure TextsCompose (vs : List Value) : Prop where
  whole : (printAll vs Stream.fresh).text = vs.flatMap Value.freshText
  parts : ∀ v ∈ vs, ∀ y, Within y v → y.freshText = assembled Value.freshText y

def FormatKept (vs : List Value) : Prop := (printAll vs Stream.fresh).format = Stream.fresh.format

namespace Piece

def IsBytes : Piece → Prop
  | bytes _ => True
  | _ => False

/-- Not an integer, or one that both bases show alike. -/
def OneDigit : Piece → Prop
  | integer n => 0 ≤ n.toInt ∧ n.toInt < 10
  | _ => True

def baseAfter (b : Base) : Piece → Base
  | bytes _ => .hex
  | _ => b

theorem formatAfter_base (f : Format) (p : Piece) :
    (p.formatAfter f).base = p.baseAfter f.base := by
  cases p with
  | text t => rfl
  | integer n => rfl
  | bytes bs => rfl

theorem baseAfter_of_bytes {b : Base} {p : Piece} (h : p.IsBytes) : p.baseAfter b = .hex := by
  cases p with
  | text t => cases h
  | integer n => cases h
  | bytes bs => rfl

theorem baseAfter_of_not_bytes {b : Base} {p : Piece} (h : ¬ p.IsBytes) : p.baseAfter b = b := by
  cases p with
  | text t => rfl
  | integer n => rfl
  | bytes bs => exact absurd trivial h

theorem oneDigit_of_bytes {p : Piece} (h : p.IsBytes) : p.OneDigit := by
  cases p with
  | text t => cases h
  | integer n => cases h
  | bytes bs => trivial

theorem formatAfter_of_not_bytes {f : Format} {p : Piece} (h : ¬ p.IsBytes) :
    p.formatAfter f = f := by
  cases p with
  | text t => rfl
  | integer n => rfl
  | bytes bs => exact absurd trivial h

end Piece

def inBases : Base → List Piece → List (Base × Piece)
  | _, [] => []
  | b, p :: ps => (b, p) :: inBases (p.baseAfter b) ps

/-- The text of some pieces is their texts, each in the base in force. -/
theorem foldl_put_text (ps : List Piece) (os : Stream) :
    (ps.foldl Stream.put os).text =
      os.text ++ (inBases os.format.base ps).flatMap (fun bp => bp.2.shown bp.1) := by
  induction ps generalizing os with
  | nil => simp [inBases]
  | cons p ps ih =>
    rw [List.foldl_cons, ih]
    simp [Stream.put, inBases, Piece.formatAfter_base]

theorem inBases_map_snd (b : Base) (ps : List Piece) : (inBases b ps).map Prod.snd = ps := by
  induction ps generalizing b with
  | nil => rfl
  | cons p ps ih => simp [inBases, ih]

section Integers

variable (n : Integer)

theorem toInt_natAbs {n : Integer} (h : 0 ≤ n.toInt) : n.toInt.natAbs = n.bits.toNat := by
  unfold Integer.toInt at h ⊢
  split
  · rename_i hsigned
    rw [if_pos hsigned] at h
    have hmsb : n.bits.msb = false := by
      rw [BitVec.msb_eq_toInt]
      simpa using h
    rw [BitVec.toInt_eq_toNat_of_msb hmsb]
    rfl
  · rfl

theorem count_minus_hex : (n.text .hex).count minus = 0 := by
  apply count_minus_numeral
  · omega
  · omega

theorem count_minus_dec : (n.text .dec).count minus = if n.toInt < 0 then 1 else 0 := by
  have hdigits : (numeral 10 n.toInt.natAbs).count minus = 0 :=
    count_minus_numeral (by omega) (by omega)
  rw [Integer.text, List.count_append, hdigits]
  split <;> simp

theorem text_dec_of_nonneg {n : Integer} (h : 0 ≤ n.toInt) :
    n.text .dec = numeral 10 n.bits.toNat := by
  rw [Integer.text, if_neg (by omega), toInt_natAbs h, List.nil_append]

/-- Both bases show an integer alike when it is a decimal digit. -/
theorem text_eq_iff : n.text .hex = n.text .dec ↔ 0 ≤ n.toInt ∧ n.toInt < 10 := by
  by_cases h : 0 ≤ n.toInt
  · have hnat := toInt_natAbs h
    rw [text_dec_of_nonneg h, Integer.text, hex_eq_dec_iff]
    omega
  · constructor
    · intro heq
      have hcount := count_minus_dec n
      rw [← heq, count_minus_hex, if_pos (by omega)] at hcount
      cases hcount
    · intro hdigit
      exact absurd hdigit.1 h

end Integers

theorem Piece.shown_eq_iff (p : Piece) : p.shown .hex = p.shown .dec ↔ p.OneDigit := by
  cases p with
  | text t => simp [shown, OneDigit]
  | integer n => exact text_eq_iff n
  | bytes bs => simp [shown, OneDigit]

/-- The whole text is decimal only if every piece is: a sign cannot be made up
for, and without signs hexadecimal is never longer. -/
theorem shown_of_flatMap {bps : List (Base × Piece)}
    (h : bps.flatMap (fun bp => bp.2.shown bp.1) = bps.flatMap (fun bp => bp.2.shown .dec)) :
    ∀ bp ∈ bps, bp.2.shown bp.1 = bp.2.shown .dec := by
  have hminus : ∀ bp ∈ bps,
      (bp.2.shown bp.1).count minus = (bp.2.shown .dec).count minus := by
    apply PrefixFree.flatMap_measure_eq (m := List.count minus) (fun s t => List.count_append) _ h
    intro bp _
    obtain ⟨b, p⟩ := bp
    cases b with
    | dec => exact Nat.le_refl _
    | hex =>
      cases p with
      | text t => exact Nat.le_refl _
      | bytes bs => exact Nat.le_refl _
      | integer n => simp [Piece.shown, count_minus_hex]
  have hlength : ∀ bp ∈ bps,
      (bp.2.shown bp.1).length = (bp.2.shown .dec).length := by
    apply PrefixFree.flatMap_measure_eq (m := List.length) (fun s t => List.length_append) _ h
    intro bp hbp
    have hcount := hminus bp hbp
    obtain ⟨b, p⟩ := bp
    cases b with
    | dec => exact Nat.le_refl _
    | hex =>
      cases p with
      | text t => exact Nat.le_refl _
      | bytes bs => exact Nat.le_refl _
      | integer n =>
        simp only [Piece.shown, count_minus_hex, count_minus_dec] at hcount
        have hnonneg : 0 ≤ n.toInt := by
          split at hcount
          · cases hcount
          · omega
        simp only [Piece.shown]
        rw [text_dec_of_nonneg hnonneg]
        exact hex_length_le (Nat.le_refl _)
  exact PrefixFree.flatMap_eq_of_length hlength h

/-- A piece after a range of bytes has to be the same in hexadecimal. -/
def ReadsAlike (p q : Piece) : Prop := p.IsBytes → q.OneDigit

theorem inBases_alike_iff (b : Base) (ps : List Piece) :
    (∀ bp ∈ inBases b ps, bp.1 = .hex → bp.2.OneDigit) ↔
      (b = .hex → ∀ p ∈ ps, p.OneDigit) ∧ ps.Pairwise ReadsAlike := by
  induction ps generalizing b with
  | nil => simp [inBases]
  | cons p ps ih =>
    simp only [inBases, List.mem_cons, forall_eq_or_imp, ih, List.pairwise_cons, ReadsAlike]
    by_cases hp : p.IsBytes
    · have hdigit := Piece.oneDigit_of_bytes hp
      simp only [Piece.baseAfter_of_bytes hp, hp, hdigit, true_implies, implies_true, true_and]
      tauto
    · simp only [Piece.baseAfter_of_not_bytes hp, hp, false_implies]
      tauto

/-- Pieces on a fresh stream are all decimal under this condition only. -/
theorem put_fresh_text_iff (ps : List Piece) :
    (ps.foldl Stream.put Stream.fresh).text = ps.flatMap (Piece.shown .dec) ↔
      ps.Pairwise ReadsAlike := by
  have hdec : ps.flatMap (Piece.shown .dec) =
      (inBases .dec ps).flatMap (fun bp => bp.2.shown .dec) := by
    rw [← List.flatMap_map Prod.snd, inBases_map_snd]
  have halike := inBases_alike_iff .dec ps
  simp only [reduceCtorEq, false_implies, true_and] at halike
  rw [foldl_put_text, hdec, ← halike]
  constructor
  · intro h bp hbp hhex
    have hshown := shown_of_flatMap h bp hbp
    rwa [hhex, Piece.shown_eq_iff] at hshown
  · intro h
    apply List.flatMap_congr
    intro bp hbp
    have hbp := h bp hbp
    obtain ⟨b, p⟩ := bp
    cases b with
    | dec => rfl
    | hex => exact (Piece.shown_eq_iff p).mpr (hbp rfl)

def decimalText (v : Value) : List CChar := (pieces v).flatMap (Piece.shown .dec)

theorem freshText_eq_iff (v : Value) :
    v.freshText = decimalText v ↔ (pieces v).Pairwise ReadsAlike := by
  rw [Value.freshText, printTuple_eq v _ rfl]
  exact put_fresh_text_iff (pieces v)

theorem joined_pieces (sep : List Piece) (vs : List Value) :
    (joined sep (vs.map pieces)).flatMap (Piece.shown .dec) =
      joined (sep.flatMap (Piece.shown .dec)) (vs.map decimalText) := by
  cases vs with
  | nil => rfl
  | cons v vs => simp [joined, decimalText, List.flatMap_map, List.flatMap_assoc]

/-- Decimal texts are put together from decimal texts. -/
theorem decimalText_assembled (v : Value) : decimalText v = assembled decimalText v := by
  cases v with
  | integer n => simp [decimalText, pieces, assembled, Piece.shown]
  | string s => simp [decimalText, pieces, assembled, Piece.shown]
  | bytes bs => simp [decimalText, pieces, assembled, Piece.shown]
  | pair first second => simp [decimalText, pieces, assembled, Piece.shown]
  | tuple vs =>
    rw [decimalText, pieces, piecesOf_eq_map]
    simp [joined_pieces, assembled, Piece.shown]
  | range vs =>
    rw [decimalText, pieces, piecesOf_eq_map]
    cases vs with
    | nil => simp [joined, assembled, Piece.shown]
    | cons v vs =>
      simp only [List.flatMap_append, List.flatMap_cons, joined_pieces]
      simp [assembled, Piece.shown]

theorem assembled_congr {f g : Value → List CChar} {v : Value}
    (h : ∀ e ∈ v.elements, f e = g e) : assembled f v = assembled g v := by
  cases v with
  | integer n => rfl
  | string s => rfl
  | bytes bs => rfl
  | pair first second =>
    simp only [assembled, h first (by simp [Value.elements]), h second (by simp [Value.elements])]
  | tuple vs => simp only [assembled, List.map_congr_left (l := vs) h]
  | range vs => simp only [assembled, List.map_congr_left (l := vs) h]

theorem pieces_sublist_of_mem {e v : Value} (h : e ∈ v.elements) :
    (pieces e).Sublist (pieces v) := by
  cases v with
  | integer n => cases h
  | string s => cases h
  | bytes bs => cases h
  | pair first second =>
    simp only [Value.elements, List.mem_cons, List.not_mem_nil, or_false] at h
    rw [pieces]
    apply List.Sublist.trans _ (List.sublist_append_left _ _)
    cases h with
    | inl h =>
      subst h
      exact (List.sublist_cons_self _ _).trans (List.sublist_append_left _ _)
    | inr h =>
      subst h
      exact (List.sublist_cons_self _ _).trans (List.sublist_append_right _ _)
  | tuple vs =>
    rw [pieces, piecesOf_eq_map]
    apply List.Sublist.trans _ (List.sublist_append_left _ _)
    exact (sublist_joined (List.mem_map_of_mem h)).trans (List.sublist_cons_self _ _)
  | range vs =>
    rw [pieces, piecesOf_eq_map]
    apply List.Sublist.trans _ (List.sublist_append_left _ _)
    exact (sublist_joined (List.mem_map_of_mem h)).trans (List.sublist_append_right _ _)

theorem pieces_sublist {y v : Value} (h : Within y v) : (pieces y).Sublist (pieces v) := by
  induction h with
  | refl => exact List.Sublist.refl _
  | element he _ ih => exact ih.trans (pieces_sublist_of_mem he)

/-- Values whose parts print as they should print in decimal. -/
theorem freshText_eq_of_parts (v : Value)
    (h : ∀ y, Within y v → y.freshText = assembled Value.freshText y) :
    v.freshText = decimalText v := by
  induction v using Value.forall_of_elements with
  | h v ih =>
    rw [h v (.refl v), decimalText_assembled]
    apply assembled_congr
    intro e he
    exact ih e he (fun y hy => h y (.element he hy))

theorem freshText_of_pairwise {y v : Value} (h : (pieces v).Pairwise ReadsAlike)
    (hy : Within y v) : y.freshText = decimalText y := by
  apply (freshText_eq_iff y).mpr
  exact h.sublist (pieces_sublist hy)

/-- The texts compose when nothing after bytes is told apart by its base. -/
theorem textsCompose_iff (vs : List Value) :
    TextsCompose vs ↔ (vs.flatMap pieces).Pairwise ReadsAlike := by
  have hwhole : (printAll vs Stream.fresh).text = vs.flatMap decimalText ↔
      (vs.flatMap pieces).Pairwise ReadsAlike := by
    rw [printAll_eq vs _ rfl, ← put_fresh_text_iff, List.flatMap_assoc]
    rfl
  constructor
  · intro h
    rw [← hwhole, h.whole]
    apply List.flatMap_congr
    intro v hv
    exact freshText_eq_of_parts v (h.parts v hv)
  · intro h
    have hvs : ∀ v ∈ vs, ∀ y, Within y v → y.freshText = decimalText y := by
      intro v hv y hy
      exact freshText_of_pairwise ((List.pairwise_flatMap.mp h).1 v hv) hy
    constructor
    · rw [hwhole.mpr h]
      apply List.flatMap_congr
      intro v hv
      exact (hvs v hv v (.refl v)).symm
    · intro v hv y hy
      have hpieces := ((List.pairwise_flatMap.mp h).1 v hv).sublist (pieces_sublist hy)
      rw [hvs v hv y hy, decimalText_assembled]
      apply assembled_congr
      intro e he
      exact (freshText_of_pairwise hpieces (.element he (.refl e))).symm

theorem foldl_put_format (ps : List Piece) (os : Stream) :
    (ps.foldl Stream.put os).format = ps.foldl Piece.formatAfter os.format := by
  induction ps generalizing os with
  | nil => rfl
  | cons p ps ih => exact ih (os.put p)

/-- Nothing sets the base back. -/
theorem foldl_formatAfter_hex (ps : List Piece) (f : Format) (h : f.base = .hex) :
    (ps.foldl Piece.formatAfter f).base = .hex := by
  induction ps generalizing f with
  | nil => exact h
  | cons p ps ih =>
    apply ih
    rw [Piece.formatAfter_base, h]
    cases p <;> rfl

theorem foldl_formatAfter_iff (ps : List Piece) (f : Format) (h : f.base = .dec) :
    ps.foldl Piece.formatAfter f = f ↔ ∀ p ∈ ps, ¬ p.IsBytes := by
  induction ps with
  | nil => simp
  | cons p ps ih =>
    rw [List.forall_mem_cons, List.foldl_cons]
    by_cases hp : p.IsBytes
    · constructor
      · intro heq
        have hbase : (p.formatAfter f).base = .hex := by
          rw [Piece.formatAfter_base, Piece.baseAfter_of_bytes hp]
        have hhex := foldl_formatAfter_hex ps _ hbase
        rw [heq, h] at hhex
        cases hhex
      · intro hnone
        exact absurd hp hnone.1
    · rw [Piece.formatAfter_of_not_bytes hp, ih]
      simp [hp]

/-- The format is kept when there are no bytes. -/
theorem formatKept_iff (vs : List Value) :
    FormatKept vs ↔ ∀ p ∈ vs.flatMap pieces, ¬ p.IsBytes := by
  rw [FormatKept, printAll_eq vs _ rfl, foldl_put_format]
  exact foldl_formatAfter_iff _ _ rfl

/-- The texts compose as long as no integer from ten on and no negative one comes
after a range of bytes; the format survives if there is no such range. -/
theorem texts_compose_iff (vs : List Value) :
    (TextsCompose vs ↔ (vs.flatMap pieces).Pairwise ReadsAlike) ∧
      (FormatKept vs ↔ ∀ p ∈ vs.flatMap pieces, ¬ p.IsBytes) := by
  constructor
  · exact textsCompose_iff vs
  · exact formatKept_iff vs

/-- A byte and a ten: the ten comes out as `a`. -/
theorem hexadecimal_ten :
    ¬ TextsCompose [.bytes [1], .integer ⟨32, by decide, true, 10⟩] ∧
      ¬ TextsCompose [.tuple [.bytes [1], .integer ⟨32, by decide, true, 10⟩]] ∧
      ¬ FormatKept [.bytes [1]] := by
  refine ⟨?_, ?_, ?_⟩
  · intro h
    have hwhole := h.whole
    revert hwhole
    decide +kernel
  · intro h
    have htuple := h.parts _ List.mem_cons_self _ (.refl _)
    revert htuple
    decide +kernel
  · unfold FormatKept
    decide +kernel

end Valuelib.Tuple
