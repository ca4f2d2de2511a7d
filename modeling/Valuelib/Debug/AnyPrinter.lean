import Valuelib.Text.Numeral

namespace Valuelib.Debug
open Text

/-- A thrown object, by what `catch (const std::out_of_range&)` takes: a
`std::out_of_range` or an object of a class derived from it, or anything else. -/
inductive Exception (ε : Type) where
  | outOfRange (what : String)
  | other (e : ε)

section Model

variable {τ : Type} {Held : τ → Type} {ε : Type}

/-- A `boost::any`: empty, or with a held value and its type. -/
abbrev Any (Held : τ → Type) := Option (Sigma Held)

/-- What a printer function does with its stream: it writes, prints further
values and goes on by how that ended, or throws. -/
inductive Program (Held : τ → Type) (ε : Type) where
  | done
  | write (text : List CChar) (rest : Program Held ε)
  | print (a : Any Held) (rest : Option (Exception ε) → Program Held ε)
  | throw (e : Exception ε)

abbrev PrintFunction (Held : τ → Type) (ε : Type) (t : τ) := Held t → Program Held ε

abbrev Outcome (ε : Type) := List CChar × Option (Exception ε)

abbrev Registry (Held : τ → Type) (ε : Type) := (t : τ) → Option (PrintFunction Held ε t)

def addPrinter [DecidableEq τ] (map : Registry Held ε) (t : τ) (func : PrintFunction Held ε t) :
    Registry Held ε × Bool :=
  match map t with
  | some _ => (map, false)
  | none => (Function.update map t (some func), true)

def Program.run (print : Any Held → List CChar → Option (Outcome ε)) :
    Program Held ε → List CChar → Option (Outcome ε)
  | .done, os => some (os, none)
  | .write text rest, os => rest.run print (os ++ text)
  | .print a rest, os =>
    match print a os with
    | none => none
    | some (os, thrown) => (rest thrown).run print os
  | .throw e, os => some (os, some e)

def attempt (map : Registry Held ε) (print : Any Held → List CChar → Option (Outcome ε))
    (t : τ) (val : Held t) (os : List CChar) : Option (Outcome ε) :=
  match map t with
  | none => some (os, some (.outOfRange "unordered_map::at"))
  | some func => (func val).run print os

def unregistered (demangle : τ → List CChar) (t : τ) : List CChar :=
  chars "unregistered object of type: " ++ demangle t

def catchOutOfRange (demangle : τ → List CChar) (t : τ) : Outcome ε → Outcome ε
  | (os, some (.outOfRange _)) => (os ++ unregistered demangle t, none)
  | (os, thrown) => (os, thrown)

def printAny (demangle : τ → List CChar) (map : Registry Held ε) :
    Nat → Any Held → List CChar → Option (Outcome ε)
  | 0, _, _ => none
  | _ + 1, none, os => some (os ++ chars "null", none)
  | depth + 1, some ⟨t, val⟩, os =>
    (attempt map (printAny demangle map depth) t val os).map (catchOutOfRange demangle t)

end Model

end Valuelib.Debug
