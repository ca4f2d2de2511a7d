import Valuelib.Base.Checked
import Valuelib.Text.Numeral

namespace Valuelib.Debug
open Text Checked

/-- The arrow that `lead_in` cuts its text from, and its `model_size`. -/
def model : List CChar := chars "---------->"

def modelSize : Nat := 11

/-- `conditional_tracer::lead_in`. Inserting a range that ends before it begins
is undefined behaviour. -/
def leadIn (dist : Nat) : Except Fault (List CChar) :=
  if dist > modelSize then
    let ret := numeral 10 dist
    if ret.length ≤ modelSize then .ok (ret ++ model.drop ret.length)
    else .error (.undefined "inverted range")
  else .ok (model.drop (modelSize - dist))

/-- A `conditional_tracer` object: already destroyed, or alive with its `active`. -/
inductive Tracer where
  | gone
  | alive (active : Bool)
deriving DecidableEq, Repr

/-- One thread: `depth()`, the tracers outside `trace` by the order of their
creation, and the number of calls of `trace` that are still printing, each with
an active tracer of its own. -/
structure Thread where
  depth : Nat
  tracers : List Tracer
  printing : Nat
deriving DecidableEq, Repr

def Thread.initial : Thread := ⟨0, [], 0⟩

/-- What a thread does with its tracers. Printing the arguments of a traced call
may itself enter scopes and leave them, so it is two events: the call, and the
return or the exception that ends it. -/
inductive Event where
  | trace (enabled : Bool)
  | printed
  | printingThrows
  | moveConstruct (q : Nat)
  | moveAssign (p q : Nat)
  | leave (p : Nat)
deriving DecidableEq, Repr

def raise (n : Nat) : Nat := (n + 1) % UInt64.size

def lower (n : Nat) : Nat := (n + (UInt64.size - 1)) % UInt64.size

namespace Thread

def live (c : Thread) : Nat := c.tracers.countP (· ≠ .gone) + c.printing

def active (c : Thread) : Nat := c.tracers.count (.alive true) + c.printing

def tracerAt (c : Thread) (p : Nat) : Except Fault Bool :=
  match c.tracers[p]? with
  | some (.alive active) => .ok active
  | _ => .error (.undefined "no such tracer")

/-- A new object has an address of its own. -/
def room (c : Thread) : Except Fault Unit :=
  if c.live + 1 < UInt64.size then .ok () else .error (.undefined "no address left")

def trace (c : Thread) (enabled : Bool) : Except Fault Thread := do
  c.room
  if enabled then
    let _ ← leadIn c.depth
    return { c with printing := c.printing + 1 }
  else return { c with tracers := c.tracers ++ [.alive false] }

def printed (c : Thread) : Except Fault Thread :=
  match c.printing with
  | 0 => .error (.undefined "no call is printing")
  | n + 1 => .ok { c with
      depth := raise c.depth
      tracers := c.tracers ++ [.alive true]
      printing := n }

/-- An exception leaves `trace` from the printing and destroys its tracer. -/
def printingThrows (c : Thread) : Except Fault Thread :=
  match c.printing with
  | 0 => .error (.undefined "no call is printing")
  | n + 1 => .ok { c with depth := lower c.depth, printing := n }

def moveConstruct (c : Thread) (q : Nat) : Except Fault Thread := do
  let active ← c.tracerAt q
  c.room
  return { c with tracers := c.tracers.set q (.alive false) ++ [.alive active] }

def moveAssign (c : Thread) (p q : Nat) : Except Fault Thread := do
  let activeP ← c.tracerAt p
  let activeQ ← c.tracerAt q
  return { c with tracers := (c.tracers.set p (.alive activeQ)).set q (.alive activeP) }

def leave (c : Thread) (p : Nat) : Except Fault Thread := do
  let active ← c.tracerAt p
  return { c with
    depth := if active then lower c.depth else c.depth
    tracers := c.tracers.set p .gone }

end Thread

def step (c : Thread) (e : Event) : Except Fault (Thread × Bool) :=
  match e with
  | .trace enabled => (c.trace enabled).map (·, false)
  | .printed => c.printed.map (·, false)
  | .printingThrows => c.printingThrows.map (·, true)
  | .moveConstruct q => (c.moveConstruct q).map (·, false)
  | .moveAssign p q => (c.moveAssign p q).map (·, false)
  | .leave p => (c.leave p).map (·, false)

end Valuelib.Debug
