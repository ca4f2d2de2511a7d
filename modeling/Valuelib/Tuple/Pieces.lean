import Valuelib.Tuple.Print
import Valuelib.Base.Separated

namespace Valuelib.Tuple
open Text Separated

namespace Value

def elements : Value → List Value
  | tuple vs => vs
  | pair first second => [first, second]
  | range vs => vs
  | _ => []

theorem sizeOf_lt_of_mem {e v : Value} (h : e ∈ v.elements) : sizeOf e < sizeOf v := by
  cases v with
  | integer n => cases h
  | string s => cases h
  | bytes bs => cases h
  | tuple vs =>
    have := List.sizeOf_lt_of_mem (show e ∈ vs from h)
    simp only [tuple.sizeOf_spec]
    omega
  | range vs =>
    have := List.sizeOf_lt_of_mem (show e ∈ vs from h)
    simp only [range.sizeOf_spec]
    omega
  | pair first second =>
    simp only [elements, List.mem_cons, List.not_mem_nil, or_false] at h
    simp only [pair.sizeOf_spec]
    cases h with
    | inl h =>
      subst h
      omega
    | inr h =>
      subst h
      omega

/-- What a value inherits from its elements holds of every value. -/
theorem forall_of_elements {p : Value → Prop} (h : ∀ v, (∀ e ∈ v.elements, p e) → p v)
    (v : Value) : p v := by
  apply h v
  intro e _he
  exact forall_of_elements h e
  termination_by sizeOf v
  decreasing_by exact sizeOf_lt_of_mem _he

end Value

/-- What reaches the stream in one go: a text of its own, an integer, or a whole
range of bytes. -/
inductive Piece where
  | text (t : List CChar)
  | integer (n : Integer)
  | bytes (bs : List UInt8)

def byteBreak (count : Nat) : List CChar :=
  if count ≠ 0 ∧ count % 64 = 0 then chars "\n  "
  else if count % 16 = 0 then chars " "
  else []

def hexByte (e : UInt8) : List CChar :=
  List.replicate (2 - (numeral 16 e.toNat).length) 48 ++ numeral 16 e.toNat

def dump : List UInt8 → Nat → List CChar
  | [], _ => []
  | e :: es, count => byteBreak count ++ hexByte e ++ dump es (count + 1)

namespace Piece

def shown (b : Base) : Piece → List CChar
  | text t => t
  | integer n => n.text b
  | bytes bs => chars "[" ++ dump bs 0 ++ chars " ]"

/-- A range of bytes leaves its manipulators in force. -/
def formatAfter (f : Format) : Piece → Format
  | bytes bs => ⟨.hex, if bs = [] then f.fill else 48⟩
  | _ => f

end Piece

def Stream.put (os : Stream) (p : Piece) : Stream :=
  ⟨os.text ++ p.shown os.format.base, p.formatAfter os.format, 0⟩

mutual

def pieces : Value → List Piece
  | .integer n => [.integer n]
  | .string s => [.text (quoted s)]
  | .tuple vs =>
    .text (chars "(") :: joined [.text (chars ", ")] (piecesOf vs) ++ [.text (chars ")")]
  | .pair first second =>
    .text (chars "(") :: pieces first ++ .text (chars ", ") :: pieces second ++ [.text (chars ")")]
  | .range vs =>
    .text (chars "[") :: (if vs.isEmpty then [] else [.text (chars " ")]) ++
      joined [.text (chars ", ")] (piecesOf vs) ++ [.text (chars " ]")]
  | .bytes bs => [.bytes bs]

def piecesOf : List Value → List (List Piece)
  | [] => []
  | v :: vs => pieces v :: piecesOf vs

end

theorem piecesOf_eq_map (vs : List Value) : piecesOf vs = vs.map pieces := by
  induction vs with
  | nil => rfl
  | cons v vs ih => rw [piecesOf, ih, List.map_cons]

section Printing

variable {os : Stream}

@[simp] theorem Stream.put_width (os : Stream) (p : Piece) : (os.put p).width = 0 := rfl

theorem foldl_put_width (ps : List Piece) (h : os.width = 0) :
    (ps.foldl Stream.put os).width = 0 := by
  induction ps generalizing os with
  | nil => exact h
  | cons p ps ih => exact ih (os.put_width p)

theorem insert_eq (h : os.width = 0) (t : List CChar) : os.insert t = os.put (.text t) := by
  simp [Stream.insert, Stream.put, Piece.shown, Piece.formatAfter, h]

theorem insertInteger_eq (h : os.width = 0) (n : Integer) :
    os.insertInteger n = os.put (.integer n) := by
  simp [Stream.insertInteger, Stream.insert, Stream.put, Piece.shown, Piece.formatAfter, h]

theorem unsigned_text (e : UInt8) : (unsigned e).text .hex = numeral 16 e.toNat := by
  have he := e.toNat_lt
  simp only [Integer.text, unsigned, BitVec.toNat_setWidth, UInt8.toNat_toBitVec]
  rw [Nat.mod_eq_of_lt (by omega)]

theorem lineBreak_eq (h : os.width = 0) (count : Nat) :
    lineBreak os count = os.put (.text (byteBreak count)) := by
  unfold lineBreak byteBreak
  split
  · exact insert_eq h _
  · split
    · exact insert_eq h _
    · obtain ⟨text, format, width⟩ := os
      cases h
      simp [Stream.put, Piece.shown, Piece.formatAfter]

/-- The loop over the bytes, once the stream writes hexadecimal. -/
theorem emitBytes_eq (h : os.width = 0) (hhex : os.format.base = .hex) (es : List UInt8)
    (count : Nat) : emitBytes es count os =
      ⟨os.text ++ dump es count, ⟨.hex, if es = [] then os.format.fill else 48⟩, 0⟩ := by
  induction es generalizing os count with
  | nil =>
    obtain ⟨text, ⟨base, fill⟩, width⟩ := os
    cases h
    cases hhex
    simp [emitBytes, dump]
  | cons e es ih =>
    have hbyte : (((lineBreak os count).setfill 48).setw 2).insertInteger (unsigned e) =
        ⟨os.text ++ byteBreak count ++ hexByte e, ⟨.hex, 48⟩, 0⟩ := by
      rw [lineBreak_eq h]
      simp [Stream.insertInteger, Stream.insert, Stream.setw, Stream.setfill, Stream.put,
        Piece.shown, Piece.formatAfter, unsigned_text, hexByte, hhex]
    rw [emitBytes, hbyte, ih rfl rfl]
    simp [dump]

def Puts (print : Stream → Stream) (ps : List Piece) : Prop :=
  ∀ os : Stream, os.width = 0 → print os = ps.foldl Stream.put os

theorem emit_eq {vs : List Value} (hvs : ∀ v ∈ vs, Puts (printTuple v) (pieces v)) (i : Nat) :
    Puts (emit vs (i + 1)) (vs.flatMap ([.text (chars ", ")] ++ pieces ·)) := by
  induction vs generalizing i with
  | nil =>
    intro os _
    rfl
  | cons v vs ih =>
    intro os h
    have hcomma : comma os (i + 1) = os.put (.text (chars ", ")) := by
      rw [comma, if_pos (by omega), insert_eq h]
    rw [emit, hcomma, hvs v List.mem_cons_self _ (os.put_width _),
      ih (fun w hw => hvs w (List.mem_cons_of_mem v hw)) _ _ (foldl_put_width _ (os.put_width _))]
    simp

theorem emitRange_eq {vs : List Value} (hvs : ∀ v ∈ vs, Puts (printTuple v) (pieces v)) :
    Puts (emitRange vs (chars ", ")) (vs.flatMap ([.text (chars ", ")] ++ pieces ·)) := by
  induction vs with
  | nil =>
    intro os _
    rfl
  | cons v vs ih =>
    intro os h
    rw [emitRange, insert_eq h, hvs v List.mem_cons_self _ (os.put_width _),
      ih (fun w hw => hvs w (List.mem_cons_of_mem v hw)) _ (foldl_put_width _ (os.put_width _))]
    simp

/-- Printing a value puts its pieces on the stream. -/
theorem printTuple_eq (v : Value) : Puts (printTuple v) (pieces v) := by
  apply Value.forall_of_elements (p := fun v => Puts (printTuple v) (pieces v))
  intro v hv os h
  cases v with
  | integer n => exact insertInteger_eq h n
  | string s => exact insert_eq h (quoted s)
  | bytes bs =>
    rw [printTuple, insert_eq h, emitBytes_eq rfl rfl, insert_eq rfl]
    simp [pieces, Stream.put, Stream.hex, Piece.shown, Piece.formatAfter]
  | pair first second =>
    have hfirst := hv first (by simp [Value.elements])
    have hsecond := hv second (by simp [Value.elements])
    rw [printTuple, insert_eq h, hfirst _ rfl, insert_eq (foldl_put_width _ rfl), hsecond _ rfl,
      insert_eq (foldl_put_width _ rfl)]
    simp [pieces]
  | tuple vs =>
    rw [printTuple, insert_eq h]
    cases vs with
    | nil =>
      rw [emit, insert_eq rfl]
      rfl
    | cons v vs =>
      have hcomma : ∀ os, comma os 0 = os := fun _ => rfl
      rw [emit, hcomma, hv v List.mem_cons_self _ rfl,
        emit_eq (fun w hw => hv w (List.mem_cons_of_mem v hw)) 0 _ (foldl_put_width _ rfl),
        insert_eq (foldl_put_width _ (foldl_put_width _ rfl))]
      simp [pieces, piecesOf, piecesOf_eq_map, joined, List.flatMap_map]
  | range vs =>
    rw [printTuple, insert_eq h]
    cases vs with
    | nil =>
      rw [emitRange, insert_eq rfl]
      rfl
    | cons v vs =>
      rw [emitRange, insert_eq (os.put_width _), hv v List.mem_cons_self _ rfl,
        emitRange_eq (fun w hw => hv w (List.mem_cons_of_mem v hw)) _ (foldl_put_width _ rfl),
        insert_eq (foldl_put_width _ (foldl_put_width _ rfl))]
      simp [pieces, piecesOf, piecesOf_eq_map, joined, List.flatMap_map]

/-- Values printed one after the other put their pieces one after the other. -/
theorem printAll_eq (vs : List Value) : Puts (printAll vs) (vs.flatMap pieces) := by
  induction vs with
  | nil =>
    intro os _
    rfl
  | cons v vs ih =>
    intro os h
    rw [printAll, List.foldl_cons, printTuple_eq v os h]
    rw [List.flatMap_cons, List.foldl_append]
    exact ih _ (foldl_put_width _ h)

end Printing

end Valuelib.Tuple
