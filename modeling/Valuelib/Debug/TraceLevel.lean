import Valuelib.Debug.Trace

namespace Valuelib.Debug
open Text

def putLeadIn : Nat → List CChar
  | 0 => []
  | 1 => chars ">"
  | n + 2 => chars "-" ++ putLeadIn (n + 1)

def putLeadOutLoop (ch : List CChar) : Nat → List CChar
  | 0 => []
  | n + 1 => ch ++ putLeadOutLoop (chars "-") n

def putLeadOut (depth : Nat) : List CChar := putLeadOutLoop (chars "<") depth

structure TraceLevel where
  depth : Nat
deriving DecidableEq, Repr

namespace TraceLevel

def construct (active : Bool) (currentDepth : Nat) : TraceLevel × Nat :=
  if active then (⟨raise currentDepth⟩, raise currentDepth) else (⟨0⟩, currentDepth)

def destroy (l : TraceLevel) (currentDepth : Nat) : Nat :=
  if l.depth ≠ 0 then lower currentDepth else currentDepth

def active (l : TraceLevel) : Bool := l.depth ≠ 0

def getLeadIn (l : TraceLevel) : List CChar :=
  putLeadIn (if l.depth ≠ 0 then l.depth - 1 else l.depth)

def sayLeadIn (l : TraceLevel) : List CChar := putLeadIn l.depth

def getLeadOut (l : TraceLevel) : List CChar :=
  putLeadOut (if l.depth ≠ 0 then l.depth - 1 else l.depth)

end TraceLevel

/-- What a thread does, as far as it is traced. A `call` enters a function that
begins with `VALUE_DEBUG_TRACE(module) << ...`, `say` and `ret` are
`VALUE_DEBUG_SAY() << ...` and `VALUE_DEBUG_RETURN(arg)` in the body of such a
function. Making the text of a record is code as well: it may call traced
functions and it may throw. -/
inductive Code where
  | done
  | throw
  | seq (first next : Code)
  | tryCatch (body handler : Code)
  | call (enabled : Bool) (printing : Code) (text : List CChar) (body : Code)
  | say (printing : Code) (text : List CChar)
  | ret (printing : Code) (text : List CChar)
deriving DecidableEq, Repr

/-- What running a piece of code leaves behind: `_current_depth`, the records
written to the log, and whether it was left by an exception. -/
structure Effect where
  currentDepth : Nat
  log : List (List CChar)
  threw : Bool
deriving DecidableEq, Repr

/-- What comes behind it unless an exception passes it by. -/
def Effect.andThen (first : Effect) (next : Nat → Effect) : Effect :=
  if first.threw then first
  else
    let second := next first.currentDepth
    { second with log := first.log ++ second.log }

/-- A record of the log: `lead << ...`. It is written when its text is complete. -/
def record (lead text : List CChar) (printing : Effect) : Effect :=
  printing.andThen fun d => ⟨d, [lead ++ text], false⟩

/-- Runs the code in a function with the given `value_debug_trace_level`. Called
code has a level of its own, or none, which writes nothing either. -/
def exec (level : TraceLevel) : Code → Nat → Effect
  | .done, d => ⟨d, [], false⟩
  | .throw, d => ⟨d, [], true⟩
  | .seq first next, d => (exec level first d).andThen (exec level next)
  | .tryCatch body handler, d =>
    let tried := exec level body d
    if tried.threw then { tried with threw := false }.andThen (exec level handler) else tried
  | .call enabled printing text body, d =>
    let (own, d) := TraceLevel.construct enabled d
    let entered :=
      if own.active then record own.getLeadIn text (exec ⟨0⟩ printing d) else ⟨d, [], false⟩
    let left := entered.andThen (exec own body)
    { left with currentDepth := own.destroy left.currentDepth }
  | .say printing text, d =>
    if level.active then record level.sayLeadIn text (exec ⟨0⟩ printing d) else ⟨d, [], false⟩
  | .ret printing text, d =>
    if level.active then
      record level.getLeadOut (chars "returns: " ++ text) (exec ⟨0⟩ printing d)
    else ⟨d, [], false⟩

end Valuelib.Debug
