import Valuelib.LightFuture.SharedState

namespace Valuelib.LightFuture
open Checked

/-- A `light_promise` or `light_future` object: already destroyed, or alive with
its `_shared_state`, which may be null. -/
inductive Slot where
  | gone
  | holds (s : Option Nat)
deriving DecidableEq, Repr

/-- A shared state on the heap. The record of a destroyed state is kept. -/
structure Cell (V X F : Type) where
  state : SharedState V X F
  destroyed : Bool
deriving DecidableEq, Repr

/-- One invocation of a completion function, with what the future passed to it
reported at that moment. -/
structure Call (V X F : Type) where
  state : Nat
  function : F
  valid : Bool
  outcome : Outcome V X
deriving DecidableEq, Repr

/-- All promises, futures and shared states of a program, the futures held as
arguments by the completion functions still running (innermost first), and the
invocations made so far. Objects are named by the order of their creation. -/
structure Config (V X F : Type) where
  states : List (Cell V X F)
  promises : List Slot
  futures : List Slot
  frames : List Nat
  calls : List (Call V X F)
deriving DecidableEq, Repr

variable {V X F : Type}

def Config.initial : Config V X F := ⟨[], [], [], [], []⟩

/-- The operations a program can make, at the top level or from inside a
completion function, and the two ways in which a completion function ends. The
objects owned by a callable or a payload are objects of the program too, so
their destruction is an event of its own. -/
inductive Event (V X F : Type) where
  | promiseToCall (f : F)
  | moveConstruct (q : Nat)
  | moveAssign (p q : Nat)
  | swap (p q : Nat)
  | setValue (p : Nat) (v : V) (passing moving : Option (ExceptionPtr X))
  | setException (p : Nat) (ep : ExceptionPtr X)
  | destroyPromise (p : Nat)
  | getFuture (p : Nat)
  | defaultFuture
  | copyFuture (f : Nat)
  | moveFuture (f : Nat)
  | assignFuture (f g : Nat)
  | moveAssignFuture (f g : Nat)
  | dropFuture (f : Nat)
  | get (f : Nat)
  | valid (f : Nat)
  | completionReturns
  | completionThrows (ep : ExceptionPtr X)
deriving DecidableEq, Repr

inductive Response (V X : Type) where
  | done
  | threw (ep : ExceptionPtr X)
  | invoked (argument : Nat)
  | got (outcome : Outcome V X)
  | isValid (answer : Bool)
deriving DecidableEq, Repr

namespace Config

def stateAt (c : Config V X F) (s : Nat) : Except Fault (Cell V X F) :=
  match c.states[s]? with
  | some cell => if cell.destroyed then .error (.undefined "destroyed state") else .ok cell
  | none => .error (.undefined "no such state")

def promiseAt (c : Config V X F) (p : Nat) : Except Fault (Option Nat) :=
  match c.promises[p]? with
  | some (.holds h) => .ok h
  | _ => .error (.undefined "no such promise")

def futureAt (c : Config V X F) (f : Nat) : Except Fault (Option Nat) :=
  match c.futures[f]? with
  | some (.holds h) => .ok h
  | _ => .error (.undefined "no such future")

def owners (c : Config V X F) (s : Nat) : Nat :=
  c.promises.count (.holds (some s)) + c.futures.count (.holds (some s))

def putState (c : Config V X F) (s : Nat) (cell : Cell V X F) : Config V X F :=
  { c with states := c.states.set s cell }

/-- A `std::shared_ptr` has let go: the last owner destroys the state. -/
def release (c : Config V X F) (h : Option Nat) : Except Fault (Config V X F) :=
  match h with
  | none => .ok c
  | some s =>
    if c.owners s = 0 then do
      let cell ← c.stateAt s
      cell.state.destructor
      return c.putState s { cell with destroyed := true }
    else .ok c

def get (c : Config V X F) (h : Option Nat) : Except Fault (Outcome V X) :=
  match h with
  | none => .ok (.throws (.futureError .noState))
  | some s => do
    let cell ← c.stateAt s
    return cell.state.get

def valid (c : Config V X F) (h : Option Nat) : Except Fault Bool :=
  match h with
  | none => .ok false
  | some s => do
    let cell ← c.stateAt s
    return cell.state.hasState

def promiseToCall (c : Config V X F) (f : F) : Config V X F :=
  { c with
    states := c.states ++ [⟨(SharedState.new f).addPromise, false⟩]
    promises := c.promises ++ [.holds (some c.states.length)] }

def moveConstruct (c : Config V X F) (q : Nat) : Except Fault (Config V X F) := do
  let h ← c.promiseAt q
  return { c with promises := c.promises.set q (.holds none) ++ [.holds h] }

def swap (c : Config V X F) (p q : Nat) : Except Fault (Config V X F) := do
  let hp ← c.promiseAt p
  let hq ← c.promiseAt q
  return { c with promises := (c.promises.set p (.holds hq)).set q (.holds hp) }

def removePromise (c : Config V X F) (h : Option Nat) : Except Fault (Config V X F) :=
  match h with
  | none => .ok c
  | some s => do
    let cell ← c.stateAt s
    let state ← cell.state.removePromise
    return c.putState s { cell with state := state }

def destroyPromise (c : Config V X F) (p : Nat) : Except Fault (Config V X F) := do
  let h ← c.promiseAt p
  let c ← c.removePromise h
  release { c with promises := c.promises.set p .gone } h

/-- `operator=(light_promise&& r)`: `auto tmp = std::move(r); swap(r);` and the
destruction of `tmp`. The operator is taken to return although its return
statement is missing. -/
def moveAssign (c : Config V X F) (p q : Nat) : Except Fault (Config V X F) := do
  let _ ← c.promiseAt p
  let tmp := c.promises.length
  let c ← c.moveConstruct q
  let c ← c.swap p q
  c.destroyPromise tmp

/-- The invocation made by `call`: the completion function starts to run with a
future of its own, which lives until the function ends. -/
def invoke (c : Config V X F) (s : Nat) (cell : Cell V X F) :
    Except Fault (Config V X F × Response V X) := do
  let (f, state) ← cell.state.call
  let argument := c.futures.length
  let c : Config V X F := { c.putState s { cell with state := state } with
    futures := c.futures ++ [.holds (some s)]
    frames := argument :: c.frames }
  let valid ← c.valid (some s)
  let outcome ← c.get (some s)
  return ({ c with calls := c.calls ++ [⟨s, f, valid, outcome⟩] }, .invoked argument)

/-- The state behind a promise on which a value or an exception is set. -/
def satisfier (c : Config V X F) (p : Nat) : Except Fault (Nat × Cell V X F) := do
  match ← c.promiseAt p with
  | none => .error (.undefined "null _shared_state")
  | some s => return (s, ← c.stateAt s)

/-- `set_value`, through `handle_set`. The argument is first moved into the
parameter of `shared_state::set_value`: `passing` is what that move throws. -/
def setValue (c : Config V X F) (p : Nat) (v : V) (passing moving : Option (ExceptionPtr X)) :
    Except Fault (Config V X F × Response V X) := do
  let (s, cell) ← c.satisfier p
  match passing with
  | some e => return (c, .threw e)
  | none =>
    match cell.state.setValue v moving with
    | .error e => return (c, .threw e)
    | .ok state => c.invoke s { cell with state := state }

def setException (c : Config V X F) (p : Nat) (ep : ExceptionPtr X) :
    Except Fault (Config V X F × Response V X) := do
  let (s, cell) ← c.satisfier p
  match cell.state.setException ep with
  | .error e => return (c, .threw e)
  | .ok state => c.invoke s { cell with state := state }

def getFuture (c : Config V X F) (p : Nat) : Except Fault (Config V X F) := do
  let h ← c.promiseAt p
  return { c with futures := c.futures ++ [.holds h] }

def copyFuture (c : Config V X F) (f : Nat) : Except Fault (Config V X F) := do
  let h ← c.futureAt f
  return { c with futures := c.futures ++ [.holds h] }

def moveFuture (c : Config V X F) (f : Nat) : Except Fault (Config V X F) := do
  let h ← c.futureAt f
  return { c with futures := c.futures.set f (.holds none) ++ [.holds h] }

def assignFuture (c : Config V X F) (f g : Nat) : Except Fault (Config V X F) := do
  let h ← c.futureAt f
  let k ← c.futureAt g
  release { c with futures := c.futures.set f (.holds k) } h

/-- Assigning a future to itself leaves it as it was. -/
def moveAssignFuture (c : Config V X F) (f g : Nat) : Except Fault (Config V X F) := do
  let h ← c.futureAt f
  let k ← c.futureAt g
  release { c with futures := (c.futures.set g (.holds none)).set f (.holds k) } h

def dropFuture (c : Config V X F) (f : Nat) : Except Fault (Config V X F) := do
  let h ← c.futureAt f
  release { c with futures := c.futures.set f .gone } h

/-- A completion function ends: its argument goes, if it is still there. -/
def endCompletion (c : Config V X F) : Except Fault (Config V X F) :=
  match c.frames with
  | [] => .error (.undefined "no completion function is running")
  | argument :: frames =>
    let c : Config V X F := { c with frames := frames }
    match c.futures[argument]? with
    | some (.holds _) => c.dropFuture argument
    | _ => .ok c

end Config

def answer (x : Except Fault (Config V X F)) (r : Response V X) :
    Except Fault (Config V X F × Response V X) := do
  let c ← x
  return (c, r)

def step (c : Config V X F) : Event V X F → Except Fault (Config V X F × Response V X)
  | .promiseToCall f => .ok (c.promiseToCall f, .done)
  | .moveConstruct q => answer (c.moveConstruct q) .done
  | .moveAssign p q => answer (c.moveAssign p q) .done
  | .swap p q => answer (c.swap p q) .done
  | .setValue p v passing moving => c.setValue p v passing moving
  | .setException p ep => c.setException p ep
  | .destroyPromise p => answer (c.destroyPromise p) .done
  | .getFuture p => answer (c.getFuture p) .done
  | .defaultFuture => .ok ({ c with futures := c.futures ++ [.holds none] }, .done)
  | .copyFuture f => answer (c.copyFuture f) .done
  | .moveFuture f => answer (c.moveFuture f) .done
  | .assignFuture f g => answer (c.assignFuture f g) .done
  | .moveAssignFuture f g => answer (c.moveAssignFuture f g) .done
  | .dropFuture f => answer (c.dropFuture f) .done
  | .get f => do
    let h ← c.futureAt f
    return (c, .got (← c.get h))
  | .valid f => do
    let h ← c.futureAt f
    return (c, .isValid (← c.valid h))
  | .completionReturns => answer c.endCompletion .done
  | .completionThrows ep => answer c.endCompletion (.threw ep)

end Valuelib.LightFuture
