import Valuelib.Tuple.Print

namespace Valuelib.Debug.Printing
open Text

structure OStream extends Tuple.Stream where
  boolalpha : Bool
deriving DecidableEq, Repr

namespace OStream

def insert (os : OStream) (text : List CChar) : OStream :=
  { os with toStream := os.toStream.insert text }

def insertInteger (os : OStream) (n : Tuple.Integer) : OStream :=
  { os with toStream := os.toStream.insertInteger n }

def setBoolalpha (os : OStream) : OStream := { os with boolalpha := true }

def insertBool (os : OStream) (b : Bool) : OStream :=
  os.insert (chars (if os.boolalpha then (if b then "true" else "false") else
    (if b then "1" else "0")))

end OStream

/-- What has a printer: a raw or shared pointer to a type that is not const is `null` or leads
to a value, and an object of a class is the `object` that its `as_object` returns. -/
inductive Value where
  | bool (b : Bool)
  | int (n : BitVec 32)
  | string (s : List CChar)
  | milliseconds (count : BitVec 64)
  | seconds (count : BitVec 64)
  | null
  | pointer (t : Value)
  | vector (vs : List Value)
  | tuple (vs : List Value)
  | nvp (name : List CChar) (value : Value)
  | object (pairs : List Value)
  | method (name : List CChar) (args : List Value)
  | classMethod (classname : List CChar) (method : Value)

theorem int_wide : 8 < 32 := by decide

theorem count_wide : 8 < 64 := by decide

def int (n : BitVec 32) : Tuple.Integer := ⟨32, int_wide, true, n⟩

def count (n : BitVec 64) : List CChar := Tuple.Integer.text ⟨64, count_wide, true, n⟩ .dec

def sep (i : Nat) : List CChar := chars (if i = 0 then " " else ", ")

mutual

def print : Value → OStream → OStream
  | .bool b, os => os.setBoolalpha.insertBool b
  | .int n, os => os.insertInteger (int n)
  | .string s, os => os.insert (quoted s)
  | .milliseconds n, os => os.insert (quoted (count n ++ chars "ms"))
  | .seconds n, os => os.insert (quoted (count n ++ chars "s"))
  | .null, os => os.insert (chars "null")
  | .pointer t, os => print t os
  | .vector vs, os =>
    let (os, post) := printVector vs (chars " ") [] (os.insert (chars "["))
    (os.insert post).insert (chars "]")
  | .tuple vs, os => (emit vs 0 (os.insert (chars "["))).insert (chars " ]")
  | .nvp name value, os => print value ((os.insert name).insert (chars ": "))
  | .object pairs, os => (emit pairs 0 (os.insert (chars "\x7b"))).insert (chars " \x7d")
  | .method name args, os =>
    (emitArgs args 0 ((os.insert name).insert (chars "("))).insert (chars ")")
  | .classMethod classname method, os => print method ((os.insert classname).insert (chars "::"))

def printVector : List Value → List CChar → List CChar → OStream → OStream × List CChar
  | [], _, post, os => (os, post)
  | v :: vs, sep, _, os => printVector vs (chars ", ") (chars " ") (print v (os.insert sep))

def emit : List Value → Nat → OStream → OStream
  | [], _, os => os
  | v :: vs, i, os => emit vs (i + 1) (print v (os.insert (sep i)))

def emitArgs : List Value → Nat → OStream → OStream
  | [], _, os => os
  | arg :: args, i, os =>
    emitArgs args (i + 1) (print arg (if i = 0 then os else os.insert (chars ", ")))

end

def printAll (vs : List Value) (os : OStream) : OStream := vs.foldl (fun os v => print v os) os

/-- `class_method`, with arguments that are stored as they are passed, without a conversion. -/
def classMethod (classname name : List CChar) (args : List Value) : Value :=
  .classMethod classname (.method name args)

end Valuelib.Debug.Printing
