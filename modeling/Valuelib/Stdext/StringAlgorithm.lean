import Valuelib.Text.Numeral
import Valuelib.Base.Separated

namespace Valuelib.Stdext
open Text CChar

abbrev OutIter := List CChar

inductive Separator where
  | string (s : List CChar)
  | array (source : List CChar)
  | character (c : CChar)

/-- `result += sep`, which takes a character array up to its terminator. -/
def Separator.appendTo (result : List CChar) : Separator → List CChar
  | string s => result ++ s
  | array source => result ++ source.takeWhile (· ≠ nul)
  | character c => result ++ [c]

def Separator.joinLoop (sep : Separator) : List (List CChar) → List CChar → List CChar
  | [], result => result
  | s :: first, result => sep.joinLoop first (sep.appendTo result ++ s)

def Separator.join (sep : Separator) : List (List CChar) → List CChar
  | [] => []
  | s :: first => sep.joinLoop first s

def Separator.text : Separator → List CChar
  | string s => s
  | array source => source.takeWhile (· ≠ nul)
  | character c => [c]

theorem Separator.joinLoop_eq (sep : Separator) (strings : List (List CChar))
    (result : List CChar) :
    sep.joinLoop strings result = result ++ strings.flatMap (sep.text ++ ·) := by
  induction strings generalizing result with
  | nil => simp [joinLoop]
  | cons s strings ih =>
    have hsep : sep.appendTo result = result ++ sep.text := by cases sep <;> rfl
    rw [joinLoop, ih, hsep]
    simp

/-- `join` puts the text of the separator between the strings. -/
theorem Separator.join_eq (sep : Separator) (strings : List (List CChar)) :
    sep.join strings = Separated.joined sep.text strings := by
  cases strings with
  | nil => rfl
  | cons s strings => exact sep.joinLoop_eq strings s

namespace CEscape

def emitEscaped (c : CChar) (iter : OutIter) : OutIter := iter ++ [backslash] ++ [c]

/-- The digits are written without a backslash in front. -/
def emitOctal (c : CChar) (iter : OutIter) : OutIter :=
  iter ++ (Nat.toDigits 8 (c.toNat &&& 0xff)).map Char.toUInt8

/-- `c_escape::operator()`. The printable characters among the cases of the
switch never get there. -/
def apply (c : CChar) (iter : OutIter) : OutIter :=
  if isprint c then iter ++ [c]
  else if c = quote ∨ c = doubleQuote ∨ c = backslash then emitEscaped c iter
  else if c = carriageReturn then emitEscaped 114 iter
  else if c = formFeed then emitEscaped 102 iter
  else if c = verticalTab then emitEscaped 118 iter
  else if c = newline then emitEscaped 110 iter
  else if c = tab then emitEscaped 116 iter
  else if c = backspace then emitEscaped 98 iter
  else if c = alert then emitEscaped 97 iter
  else emitOctal c iter

end CEscape

def doEscape (style : CChar → OutIter → OutIter) : List CChar → OutIter → OutIter
  | [], firstout => firstout
  | c :: cs, firstout => doEscape style cs (style c firstout)

def escape (s : List CChar) : List CChar := doEscape CEscape.apply s []

end Valuelib.Stdext
