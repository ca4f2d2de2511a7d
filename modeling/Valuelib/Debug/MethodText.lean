import Valuelib.Debug.PrintTyped

namespace Valuelib.Debug.Printing
open Text Delimited PrefixFree
open Valuelib.Tuple (Base)

structure Call where
  classname : List CChar
  name : List CChar
  args : List Value

namespace Call

def value (c : Call) : Value := classMethod c.classname c.name c.args

def qualified (c : Call) : List CChar := c.classname ++ chars "::" ++ c.name

def told (c : Call) : List CChar × List Value := (c.qualified, collapsedAll c.args)

variable {κ : Type}

variable {layout : Layout κ} {signature : List CChar → List (Ty κ)} {b : Base} {c c' : Call}

end Call

end Valuelib.Debug.Printing
