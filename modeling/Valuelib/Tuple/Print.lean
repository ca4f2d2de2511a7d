import Valuelib.Text.Quoted
import Valuelib.Text.Numeral

namespace Valuelib.Tuple
open Text

inductive Base where
  | dec
  | hex
deriving DecidableEq, Repr

/-- The format flags and the fill character. The printers set no other flag. -/
structure Format where
  base : Base
  fill : CChar
deriving DecidableEq, Repr

structure Stream where
  text : List CChar
  format : Format
  width : Nat
deriving DecidableEq, Repr

/-- A value of an integral type wider than `char`. -/
structure Integer where
  width : Nat
  wide : 8 < width
  signed : Bool
  bits : BitVec width

def Integer.toInt (n : Integer) : Int := if n.signed then n.bits.toInt else n.bits.toNat

/-- Hexadecimal shows a negative number by its two's complement. -/
def Integer.text (n : Integer) : Base → List CChar
  | .dec => (if n.toInt < 0 then [minus] else []) ++ numeral 10 n.toInt.natAbs
  | .hex => numeral 16 n.bits.toNat

namespace Stream

def fresh : Stream := ⟨[], ⟨.dec, 32⟩, 0⟩

/-- Formatted insertion: the text stands to the right in the width, which is
then used up. -/
def insert (os : Stream) (text : List CChar) : Stream :=
  { os with
    text := os.text ++ List.replicate (os.width - text.length) os.format.fill ++ text
    width := 0 }

def insertInteger (os : Stream) (n : Integer) : Stream := os.insert (n.text os.format.base)

def hex (os : Stream) : Stream := { os with format := { os.format with base := .hex } }

def setfill (os : Stream) (c : CChar) : Stream := { os with format := { os.format with fill := c } }

def setw (os : Stream) (n : Nat) : Stream := { os with width := n }

end Stream

/-- What is printed. A `std::vector` is printed as the range of its elements. A
pair with a vector in it does not compile, and is here a pair like any other. -/
inductive Value where
  | integer (n : Integer)
  | string (s : List CChar)
  | tuple (vs : List Value)
  | pair (first second : Value)
  | range (vs : List Value)
  | bytes (bs : List UInt8)

def unsigned (e : UInt8) : Integer := ⟨32, by decide, false, e.toBitVec.setWidth 32⟩

/-- Sixteen bytes are a group and four groups a line. -/
def lineBreak (os : Stream) (count : Nat) : Stream :=
  if count ≠ 0 ∧ count % 64 = 0 then os.insert (chars "\n  ")
  else if count % 16 = 0 then os.insert (chars " ")
  else os

def emitBytes : List UInt8 → Nat → Stream → Stream
  | [], _, os => os
  | e :: es, count, os =>
    let os := ((lineBreak os count).setfill 48).setw 2
    emitBytes es (count + 1) (os.insertInteger (unsigned e))

def comma (os : Stream) (i : Nat) : Stream := if i ≠ 0 then os.insert (chars ", ") else os

mutual

def printTuple : Value → Stream → Stream
  | .integer n, os => os.insertInteger n
  | .string s, os => os.insert (quoted s)
  | .tuple vs, os => (emit vs 0 (os.insert (chars "("))).insert (chars ")")
  | .pair first second, os =>
    let os := (printTuple first (os.insert (chars "("))).insert (chars ", ")
    (printTuple second os).insert (chars ")")
  | .range vs, os => (emitRange vs (chars " ") (os.insert (chars "["))).insert (chars " ]")
  | .bytes bs, os => (emitBytes bs 0 (os.insert (chars "[")).hex).insert (chars " ]")

def emit : List Value → Nat → Stream → Stream
  | [], _, os => os
  | v :: vs, i, os => emit vs (i + 1) (printTuple v (comma os i))

def emitRange : List Value → List CChar → Stream → Stream
  | [], _, os => os
  | v :: vs, sep, os => emitRange vs (chars ", ") (printTuple v (os.insert sep))

end

def printAll (vs : List Value) (os : Stream) : Stream := vs.foldl (fun os v => printTuple v os) os

end Valuelib.Tuple
