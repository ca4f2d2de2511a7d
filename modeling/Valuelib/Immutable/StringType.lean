import Valuelib.Text.Numeral

namespace Valuelib.Immutable
open Text

structure StringType (length : Nat) where
  data : Vector CChar (length + 1)
deriving DecidableEq, Repr

def string {length : Nat} (source : Vector CChar (length + 1)) : StringType length := ⟨source⟩

def literal (text : List CChar) : Vector CChar (text.length + 1) :=
  ⟨(text ++ [CChar.nul]).toArray, by simp⟩

namespace StringType

variable {length rLength : Nat}

def charAt (s : StringType length) (i : Nat) : CChar := s.data[i]?.getD CChar.nul

def size (_ : StringType length) : Nat := length

/-- The characters from `begin()` to `end()`. -/
def text (s : StringType length) : List CChar := s.data.toList.take s.size

/-- The buffer starts out filled with zeros; two loops copy into it. -/
def concat (s : StringType length) (r : StringType rLength) : StringType (length + rLength) :=
  string (Vector.ofFn (fun i =>
    if i < length then s.charAt i
    else if i < length + rLength then r.charAt (i - length)
    else CChar.nul))

/-- `concat` with a character array, whose terminator is copied with it. -/
def concatArray (s : StringType length) (r : Vector CChar (rLength + 1)) :
    StringType (length + rLength) :=
  string (Vector.ofFn (fun i =>
    if i < length then s.charAt i else r[i - length]?.getD CChar.nul))

def add (s : StringType length) (r : StringType rLength) : StringType (length + rLength) :=
  s.concat r

def addArray (s : StringType length) (r : Vector CChar (rLength + 1)) :
    StringType (length + rLength) := s.concatArray r

def cStr (s : StringType length) : List CChar := s.data.toList.takeWhile (· ≠ CChar.nul)

def toStdString (s : StringType length) : List CChar := s.text

end StringType

structure AnyString where
  length : Nat
  value : StringType length
deriving Repr

def AnyString.text (s : AnyString) : List CChar := s.value.text

def count {length : Nat} (s : StringType length) (c : CChar) : Nat := s.text.count c

inductive Failure where
  | invalidArgument (text : String)
deriving DecidableEq, Repr

/-- The check for quotes is commented out in the program. -/
def quoted {length : Nat} (s : StringType length) : Except Failure AnyString :=
  .ok ⟨_, ((string (literal [CChar.quote])).concat s).concatArray (literal [CChar.quote])⟩

structure Strings where
  first : AnyString
  rest : List AnyString

def Strings.all (t : Strings) : List AnyString := t.first :: t.rest

def joinFrom {delimiterLength : Nat} (del : StringType delimiterLength) :
    List AnyString → AnyString
  | [] => ⟨_, string (literal [])⟩
  | s :: ss => ⟨_, (del.concat s.value).concat (joinFrom del ss).value⟩

def join {delimiterLength : Nat} (delimiter : Vector CChar (delimiterLength + 1)) (t : Strings) :
    AnyString :=
  ⟨_, t.first.value.concat (joinFrom (string delimiter) t.rest).value⟩

def toQuotedListFrom : List AnyString → Except Failure AnyString
  | [] => .ok ⟨_, string (literal [])⟩
  | s :: ss => do
    let q ← quoted s.value
    let rest ← toQuotedListFrom ss
    return ⟨_, ((string (literal [CChar.comma])).concat q.value).concat rest.value⟩

def toQuotedList (t : Strings) : Except Failure AnyString := do
  let q ← quoted t.first.value
  let rest ← toQuotedListFrom t.rest
  return ⟨_, q.value.concat rest.value⟩

end Valuelib.Immutable
