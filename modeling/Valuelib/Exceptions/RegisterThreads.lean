import Valuelib.Exceptions.Register
import Valuelib.Base.Mutex
import Mathlib.Logic.Function.Basic

namespace Valuelib.Exceptions
open Mutex (Stop)

namespace Raising

/-- What a thread does next: nothing with the register, or one of the steps of
`impl::register_exception` and `impl::wrap`. `thrown` is what is thrown when the lock
is gone. -/
inductive Control where
  | ready
  | locksToRegister (e : Object) (thrown : Thrown)
  | registersBase (e : Object) (thrown : Thrown)
  | registersConst (e : Object) (thrown : Thrown)
  | registersNested (e : Object) (thrown : Thrown)
  | locksToFind (message : String) (e : Thrown)
  | finds (message : String) (e : Thrown)
  | unlocksToWrap (message : String) (e : Thrown)
  | wraps (message : String) (e : Thrown)
  | unlocks (thrown : Thrown)
deriving DecidableEq, Repr

structure Local where
  current : Option Thrown
  control : Control
deriving DecidableEq, Repr

/-- The threads, and the `_mutex` and the `_map` that they share. -/
structure World where
  locals : Nat → Local
  mutex : Option Nat
  map : Register

def World.initial : World := ⟨fun _ => ⟨none, .ready⟩, none, []⟩

/-- A call into the register, the next step of such a call, or what else changes the
exception that a thread handles. -/
inductive Action where
  | raise (e : Object)
  | raiseWithNested (e : Object)
  | reRaise (message : String)
  | handles (current : Option Thrown)
  | next
deriving DecidableEq, Repr

structure Event where
  thread : Nat
  action : Action
deriving DecidableEq, Repr

namespace World

def put (w : World) (i : Nat) (l : Local) : World :=
  { w with locals := Function.update w.locals i l }

def lock (w : World) (i : Nat) (l : Local) : Except Stop World :=
  (Mutex.lock w.mutex i).map (fun mutex => { w.put i l with mutex := mutex })

def throws (w : World) (i : Nat) (thrown : Thrown) : World := w.put i ⟨some thrown, .ready⟩

variable (codes : Codes)

def next (w : World) (i : Nat) : Except Stop World :=
  let l := w.locals i
  match l.control with
  | .ready => .error .notNext
  | .locksToRegister e thrown => w.lock i { l with control := .registersBase e thrown }
  | .registersBase e thrown =>
    match w.map.registerExactType e.type ⟨reRaiser codes e.type⟩ with
    | (map, true) => .ok { w.put i { l with control := .registersConst e thrown } with map := map }
    | (map, false) => .ok { w.put i { l with control := .unlocks thrown } with map := map }
  | .registersConst e thrown =>
    let (map, _) := w.map.registerExactType e.type ⟨reRaiser codes e.type⟩
    .ok { w.put i { l with control := .registersNested e thrown } with map := map }
  | .registersNested e thrown =>
    let (map, _) := w.map.registerExactType (typeWhenNesting e) ⟨reRaiser codes e.type⟩
    .ok { w.put i { l with control := .unlocks thrown } with map := map }
  | .locksToFind message e => w.lock i { l with control := .finds message e }
  | .finds message e =>
    match w.map.lookup e.object.type with
    | none => .ok (w.put i { l with control := .unlocksToWrap message e })
    -- The wrapper throws while the mutex is held.
    | some actions => .ok (w.put i { l with control := .unlocks (actions.wrapper message e) })
  | .unlocksToWrap message e =>
    .ok { w.put i { l with control := .wraps message e } with mutex := none }
  | .wraps message e => .ok (w.throws i (defaultWrap codes message e))
  | .unlocks thrown => .ok { w.throws i thrown with mutex := none }

/-- What a thread does that is not in a call into the register. To re-raise, it has
to handle an exception. -/
def begin (w : World) (i : Nat) : Action → Except Stop World
  | .raise e => .ok (w.put i { w.locals i with control := .locksToRegister e (.alone e) })
  | .raiseWithNested e =>
    let thrown := throwWithNested e (w.locals i).current
    .ok (w.put i { w.locals i with control := .locksToRegister e thrown })
  | .reRaise message =>
    match (w.locals i).current with
    | none => .error (.undefined "no current exception")
    | some e => .ok (w.put i { w.locals i with control := .locksToFind message e })
  | .handles current => .ok (w.put i ⟨current, .ready⟩)
  | .next => .error .notNext

end World

def step (codes : Codes) (w : World) (e : Event) : Except Stop (World × Unit) :=
  match e.action with
  | .next => (w.next codes e.thread).map (·, ())
  | action =>
    match (w.locals e.thread).control with
    | .ready => (w.begin e.thread action).map (·, ())
    | _ => .error .notNext

end Raising

end Valuelib.Exceptions
