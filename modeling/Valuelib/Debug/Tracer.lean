import Valuelib.Debug.TraceDepth
import Valuelib.Base.Mutex
import Mathlib.Logic.Function.Basic

namespace Valuelib.Debug
open Text Checked Runs
open Mutex (Stop)

namespace Tracing

/-- The three constructors of `tracer`, with the texts of the arguments: inserting an argument
neither depends on the state of the shared stream nor leaves a change of it. -/
inductive Call where
  | function (funcname : List CChar) (args : List (List CChar))
  | classMethod (cn m : List CChar) (args : List (List CChar))
  | method (m : List CChar) (args : List (List CChar))
deriving DecidableEq, Repr

def emitArgs : List (List CChar) → List CChar
  | [] => []
  | arg :: args => arg ++ args.flatMap (chars ", " ++ ·)

def Call.text : Call → List CChar
  | .function funcname args => funcname ++ chars "(" ++ emitArgs args ++ chars ")"
  | .classMethod cn m args => cn ++ chars "::" ++ m ++ chars "(" ++ emitArgs args ++ chars ")"
  | .method m args => m ++ chars "(" ++ emitArgs args ++ chars ")"

def line (id lead : List CChar) (call : Call) : List CChar :=
  id ++ chars " : " ++ lead ++ call.text ++ [CChar.newline]

/-- What a thread has of its own: `depth()`, and its tracers that are alive. -/
structure Local where
  depth : Nat
  live : Nat
deriving DecidableEq, Repr

/-- The mutex of `common_data`, with the thread that holds it and what that thread
has still to write, and the stream that all tracers write to. -/
structure World where
  locals : Nat → Local
  lock : Option (Nat × List CChar)
  output : List CChar

def World.initial : World := ⟨fun _ => ⟨0, 0⟩, none, []⟩

/-- The writing of a line takes as many steps as it has characters, and an
exception may end it at each of them. -/
inductive Action where
  | construct (call : Call)
  | put
  | throws
  | finish
  | destroy
deriving DecidableEq, Repr

structure Event where
  thread : Nat
  action : Action
deriving DecidableEq, Repr

namespace World

/-- Locking a `std::mutex` that the thread holds already is undefined behaviour. -/
def construct (id : Nat → List CChar) (w : World) (t : Nat) (call : Call) : Except Stop World :=
  match w.lock with
  | some (holder, _) =>
    if holder = t then .error (.undefined "the thread holds the mutex") else .error .waits
  | none =>
    match leadIn (w.locals t).depth with
    | .ok lead => .ok { w with lock := some (t, line (id t) lead call) }
    | .error _ => .error (.undefined "no lead")

def pending (w : World) (t : Nat) : Except Stop (List CChar) :=
  match w.lock with
  | some (holder, rest) => if holder = t then .ok rest else .error .notNext
  | none => .error .notNext

def put (w : World) (t : Nat) : Except Stop World := do
  match ← w.pending t with
  | [] => .error .notNext
  | c :: rest => return { w with output := w.output ++ [c], lock := some (t, rest) }

/-- The constructor is left by an exception: the lock is destroyed, no tracer is. -/
def throws (w : World) (t : Nat) : Except Stop World := do
  let _ ← w.pending t
  return { w with lock := none }

/-- `++d`, and the end of the constructor. A new object has an address of its own. -/
def finish (w : World) (t : Nat) : Except Stop World := do
  match ← w.pending t with
  | _ :: _ => .error .notNext
  | [] =>
    let l := w.locals t
    if l.live + 1 < UInt64.size then
      return { w with
        locals := Function.update w.locals t ⟨raise l.depth, l.live + 1⟩
        lock := none }
    else .error (.undefined "no address left")

def destroy (w : World) (t : Nat) : Except Stop World :=
  let l := w.locals t
  match l.live with
  | 0 => .error .notNext
  | n + 1 => .ok { w with locals := Function.update w.locals t ⟨lower l.depth, n⟩ }

def act (id : Nat → List CChar) (w : World) (t : Nat) : Action → Except Stop World
  | .construct call => w.construct id t call
  | .put => w.put t
  | .throws => w.throws t
  | .finish => w.finish t
  | .destroy => w.destroy t

end World

def step (id : Nat → List CChar) (w : World) (e : Event) : Except Stop (World × Unit) :=
  (w.act id e.thread e.action).map (·, ())

end Tracing

end Valuelib.Debug
