import Valuelib.Debug.Print
import Valuelib.Base.Separated

namespace Valuelib.Debug.Printing
open Text Separated
open Valuelib.Tuple (Base)

namespace Value

def elements : Value → List Value
  | pointer t => [t]
  | vector vs => vs
  | tuple vs => vs
  | nvp _ value => [value]
  | object pairs => pairs
  | method _ args => args
  | classMethod _ m => [m]
  | _ => []

theorem sizeOf_lt_of_mem {e v : Value} (h : e ∈ v.elements) : sizeOf e < sizeOf v := by
  cases v with
  | pointer t =>
    rw [List.mem_singleton.mp h, pointer.sizeOf_spec]
    omega
  | nvp name value =>
    rw [List.mem_singleton.mp h, nvp.sizeOf_spec]
    omega
  | classMethod classname m =>
    rw [List.mem_singleton.mp h, classMethod.sizeOf_spec]
    omega
  | vector vs =>
    have := List.sizeOf_lt_of_mem (show e ∈ vs from h)
    rw [vector.sizeOf_spec]
    omega
  | tuple vs =>
    have := List.sizeOf_lt_of_mem (show e ∈ vs from h)
    rw [tuple.sizeOf_spec]
    omega
  | object pairs =>
    have := List.sizeOf_lt_of_mem (show e ∈ pairs from h)
    rw [object.sizeOf_spec]
    omega
  | method name args =>
    have := List.sizeOf_lt_of_mem (show e ∈ args from h)
    rw [method.sizeOf_spec]
    omega
  | _ => cases h

/-- What a value inherits from its elements holds of every value. -/
theorem forall_of_elements {p : Value → Prop} (h : ∀ v, (∀ e ∈ v.elements, p e) → p v)
    (v : Value) : p v := by
  apply h v
  intro e _he
  exact forall_of_elements h e
  termination_by sizeOf v
  decreasing_by exact sizeOf_lt_of_mem _he

end Value

def word (b : Bool) : List CChar := chars (if b then "true" else "false")

def spaced (items : List (List CChar)) : List CChar :=
  if items = [] then [] else chars " " ++ joined (chars ", ") items

mutual

/-- The text of a value on a stream with a base, whatever else holds of the stream. -/
def Value.text (b : Base) : Value → List CChar
  | .bool x => word x
  | .int n => (int n).text b
  | .string s => quoted s
  | .milliseconds n => quoted (count n ++ chars "ms")
  | .seconds n => quoted (count n ++ chars "s")
  | .null => chars "null"
  | .pointer t => t.text b
  | .vector vs =>
    chars "[" ++ spaced (texts b vs) ++ (if vs = [] then [] else chars " ") ++ chars "]"
  | .tuple vs => chars "[" ++ spaced (texts b vs) ++ chars " ]"
  | .nvp name value => name ++ chars ": " ++ value.text b
  | .object pairs => chars "\x7b" ++ spaced (texts b pairs) ++ chars " \x7d"
  | .method name args => name ++ chars "(" ++ joined (chars ", ") (texts b args) ++ chars ")"
  | .classMethod classname method => classname ++ chars "::" ++ method.text b

def texts (b : Base) : List Value → List (List CChar)
  | [] => []
  | v :: vs => v.text b :: texts b vs

end

mutual

def Value.showsBool : Value → Bool
  | .bool _ => true
  | .pointer t => t.showsBool
  | .vector vs => anyBool vs
  | .tuple vs => anyBool vs
  | .nvp _ value => value.showsBool
  | .object pairs => anyBool pairs
  | .method _ args => anyBool args
  | .classMethod _ method => method.showsBool
  | _ => false

def anyBool : List Value → Bool
  | [] => false
  | v :: vs => v.showsBool || anyBool vs

end

/-- What goes on the stream first, and so stands in its width. -/
def Value.lead (b : Base) : Value → List CChar
  | .pointer t => t.lead b
  | .vector _ => chars "["
  | .tuple _ => chars "["
  | .nvp name _ => name
  | .object _ => chars "\x7b"
  | .method name _ => name
  | .classMethod classname _ => classname
  | v => v.text b

theorem texts_eq_map (b : Base) (vs : List Value) : texts b vs = vs.map (Value.text b) := by
  induction vs with
  | nil => rfl
  | cons v vs ih => rw [texts, ih, List.map_cons]

def OStream.shown (os : OStream) (lead text : List CChar) (words : Bool) : OStream where
  text := os.text ++ List.replicate (os.width - lead.length) os.format.fill ++ text
  format := os.format
  width := 0
  boolalpha := os.boolalpha || words

section Printing

variable {os : OStream} {lead text : List CChar} {words : Bool}

@[simp] theorem shown_format : (os.shown lead text words).format = os.format := rfl

@[simp] theorem shown_shown {lead' text' : List CChar} {words' : Bool} :
    (os.shown lead text words).shown lead' text' words' =
      os.shown lead (text ++ text') (words || words') := by
  simp [OStream.shown, Bool.or_assoc]

@[simp] theorem insert_eq : os.insert text = os.shown text text false := by
  simp [OStream.insert, Tuple.Stream.insert, OStream.shown]

theorem insertInteger_eq (n : Tuple.Integer) :
    os.insertInteger n = os.shown (n.text os.format.base) (n.text os.format.base) false :=
  insert_eq

theorem printBool_eq (b : Bool) :
    os.setBoolalpha.insertBool b = os.shown (word b) (word b) true := by
  rw [OStream.setBoolalpha, OStream.insertBool, insert_eq]
  simp [OStream.shown, word]

def Prints (v : Value) : Prop :=
  ∀ os : OStream, print v os = os.shown (v.lead os.format.base) (v.text os.format.base) v.showsBool

variable {vs : List Value}

def behind (b : Base) (vs : List Value) : List CChar := vs.flatMap (fun v => chars ", " ++ v.text b)

theorem emit_eq (hvs : ∀ v ∈ vs, Prints v) (i : Nat) :
    emit vs (i + 1) (os.shown lead text words) =
      os.shown lead (text ++ behind os.format.base vs) (words || anyBool vs) := by
  induction vs generalizing text words i with
  | nil => simp [emit, behind, anyBool]
  | cons v vs ih =>
    rw [emit, insert_eq, shown_shown, hvs v List.mem_cons_self, shown_shown,
      ih (fun w hw => hvs w (List.mem_cons_of_mem v hw))]
    simp [behind, anyBool, sep, Bool.or_assoc]

theorem emitArgs_eq (hvs : ∀ v ∈ vs, Prints v) (i : Nat) :
    emitArgs vs (i + 1) (os.shown lead text words) =
      os.shown lead (text ++ behind os.format.base vs) (words || anyBool vs) := by
  induction vs generalizing text words i with
  | nil => simp [emitArgs, behind, anyBool]
  | cons v vs ih =>
    rw [emitArgs, if_neg (Nat.succ_ne_zero i), insert_eq, shown_shown, hvs v List.mem_cons_self,
      shown_shown, ih (fun w hw => hvs w (List.mem_cons_of_mem v hw))]
    simp [behind, anyBool, Bool.or_assoc]

theorem printVector_eq (hvs : ∀ v ∈ vs, Prints v) (post : List CChar) :
    printVector vs (chars ", ") post (os.shown lead text words) =
      (os.shown lead (text ++ behind os.format.base vs) (words || anyBool vs),
        if vs = [] then post else chars " ") := by
  induction vs generalizing text words post with
  | nil => simp [printVector, behind, anyBool]
  | cons v vs ih =>
    rw [printVector, insert_eq, shown_shown, hvs v List.mem_cons_self, shown_shown,
      ih (fun w hw => hvs w (List.mem_cons_of_mem v hw))]
    simp [behind, anyBool, Bool.or_assoc]

theorem joined_texts (b : Base) (v : Value) (vs : List Value) :
    joined (chars ", ") (texts b (v :: vs)) = v.text b ++ behind b vs := by
  rw [texts, texts_eq_map, joined, List.flatMap_map]
  rfl

theorem spaced_texts (b : Base) (v : Value) (vs : List Value) :
    spaced (texts b (v :: vs)) = chars " " ++ v.text b ++ behind b vs := by
  rw [spaced, joined_texts, if_neg (by simp [texts]), List.append_assoc]

/-- The elements of a tuple or an object behind the opening bracket. -/
theorem emit_spaced (hvs : ∀ v ∈ vs, Prints v) :
    emit vs 0 (os.shown lead text words) =
      os.shown lead (text ++ spaced (texts os.format.base vs)) (words || anyBool vs) := by
  cases vs with
  | nil => simp [emit, texts, spaced, anyBool]
  | cons v vs =>
    rw [emit, insert_eq, shown_shown, hvs v List.mem_cons_self, shown_shown,
      emit_eq (fun w hw => hvs w (List.mem_cons_of_mem v hw)), spaced_texts]
    simp [anyBool, sep, Bool.or_assoc]

/-- Printing writes the text of the value, whose first piece stands in the width. The
base and the fill stay, and `boolalpha` is set by any `bool` on the way. -/
theorem print_eq (v : Value) : Prints v := by
  induction v using Value.forall_of_elements with
  | h v hv =>
    intro os
    cases v with
    | bool b => exact printBool_eq b
    | int n => exact insertInteger_eq (int n)
    | string s => exact insert_eq
    | milliseconds n => exact insert_eq
    | seconds n => exact insert_eq
    | null => exact insert_eq
    | pointer t => exact hv t List.mem_cons_self os
    | tuple vs =>
      have hvs : ∀ w ∈ vs, Prints w := hv
      rw [print, insert_eq, insert_eq, emit_spaced hvs, shown_shown]
      simp [Value.lead, Value.text, Value.showsBool]
    | object pairs =>
      have hpairs : ∀ w ∈ pairs, Prints w := hv
      rw [print, insert_eq, insert_eq, emit_spaced hpairs, shown_shown]
      simp [Value.lead, Value.text, Value.showsBool]
    | vector vs =>
      cases vs with
      | nil =>
        simp [print, printVector, Value.lead, Value.text, Value.showsBool, texts, spaced, anyBool]
      | cons v vs =>
        have hrest : ∀ w ∈ vs, Prints w := fun w hw => hv w (List.mem_cons_of_mem v hw)
        simp only [print, printVector, insert_eq, shown_shown, hv v List.mem_cons_self _,
          printVector_eq hrest, Value.text, spaced_texts]
        simp [Value.lead, Value.showsBool, anyBool]
    | nvp name value =>
      rw [print, hv value List.mem_cons_self]
      simp [Value.lead, Value.text, Value.showsBool]
    | method name args =>
      cases args with
      | nil =>
        simp [print, emitArgs, Value.lead, Value.text, Value.showsBool, texts, joined, anyBool]
      | cons arg args =>
        have hrest : ∀ w ∈ args, Prints w := fun w hw => hv w (List.mem_cons_of_mem arg hw)
        simp only [print, emitArgs, if_pos, insert_eq, shown_shown, hv arg List.mem_cons_self _,
          emitArgs_eq hrest, Value.text, joined_texts]
        simp [Value.lead, Value.showsBool, anyBool]
    | classMethod classname m =>
      rw [print, hv m List.mem_cons_self]
      simp [Value.lead, Value.text, Value.showsBool]

theorem shown_nothing (h : os.width = 0) : os.shown [] [] false = os := by
  obtain ⟨⟨_, _, width⟩, _⟩ := os
  cases h
  simp [OStream.shown]

/-- Values printed one after the other write their texts one after the other. -/
theorem printAll_eq (vs : List Value) :
    printAll vs (os.shown lead text words) = os.shown lead
      (text ++ vs.flatMap (Value.text os.format.base)) (words || vs.any Value.showsBool) := by
  induction vs generalizing text words with
  | nil => simp [printAll]
  | cons v vs ih =>
    rw [printAll, List.foldl_cons, print_eq v, shown_shown]
    refine Eq.trans ih ?_
    simp [Bool.or_assoc]

theorem printAll_fresh (vs : List Value) (h : os.width = 0) : printAll vs os =
    os.shown [] (vs.flatMap (Value.text os.format.base)) (vs.any Value.showsBool) := by
  have hall : printAll vs (os.shown [] [] false) = os.shown []
      ([] ++ vs.flatMap (Value.text os.format.base)) (false || vs.any Value.showsBool) :=
    printAll_eq vs
  rw [shown_nothing h] at hall
  simpa using hall

/-- Values printed in turn: each text stands as if it were the only one, and all that
later output can tell is whether a `bool` was among them. -/
theorem printed_in_turn (vs : List Value) (os : OStream) (h : os.width = 0) :
    printAll vs os = { os with
      text := os.text ++ vs.flatMap (Value.text os.format.base)
      boolalpha := os.boolalpha || vs.any Value.showsBool } := by
  rw [printAll_fresh vs h]
  simp [OStream.shown, h]

theorem printed_in_turn_flag :
    printAll [.int 1, .vector [.pointer (.bool true)]] ⟨.fresh, false⟩ =
      ⟨⟨chars "1[ true ]", ⟨.dec, 32⟩, 0⟩, true⟩ :=
  printed_in_turn _ _ rfl

end Printing

end Valuelib.Debug.Printing
