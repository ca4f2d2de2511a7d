import Valuelib.Debug.AnyPrinterDispatch
import Valuelib.Base.Mutex

namespace Valuelib.Debug
open Text
open Mutex (Stop)

namespace Printers

section Model

variable {τ : Type} {Held : τ → Type} {ε : Type}

/-- What a thread has entered: the `try` of `impl::print` for a type, or a printer
function that is waiting for a print of its own. -/
inductive Activation (Held : τ → Type) (ε : Type) where
  | handler (ti : τ)
  | caller (rest : Option (Exception ε) → Program Held ε)

/-- What a thread does next: it goes on behind a call that has ended, lets a printer
function work, or is at one of the steps of `impl::print` and `impl::add_printer`. -/
inductive Control (Held : τ → Type) (ε : Type) where
  | ended (thrown : Option (Exception ε))
  | works (program : Program Held ε)
  | locks (ti : τ) (val : Held ti)
  | looksUp (ti : τ) (val : Held ti)
  | unlocks (ti : τ) (val : Held ti)
  | calls (ti : τ) (val : Held ti)
  | locksToAdd (ti : τ) (func : PrintFunction Held ε ti)
  | emplaces (ti : τ) (func : PrintFunction Held ε ti)

structure Local (Held : τ → Type) (ε : Type) where
  os : List CChar
  stack : List (Activation Held ε)
  control : Control Held ε

/-- The threads, and the `_mutex` and the `_map` that they share. -/
structure World (Held : τ → Type) (ε : Type) where
  locals : Nat → Local Held ε
  mutex : Option Nat
  map : Registry Held ε

def World.initial : World Held ε := ⟨fun _ => ⟨[], [], .ended none⟩, none, fun _ => none⟩

/-- A call from outside any printer function, or the next step of what was called. -/
inductive Action (Held : τ → Type) (ε : Type) where
  | print (a : Any Held)
  | addPrinter (ti : τ) (func : PrintFunction Held ε ti)
  | next

structure Event (Held : τ → Type) (ε : Type) where
  thread : Nat
  action : Action Held ε

inductive Response (τ : Type) where
  | quiet
  | added (ti : τ) (answer : Bool)
deriving DecidableEq, Repr

def Local.Ready (l : Local Held ε) : Prop := ∃ os thrown, l = ⟨os, [], .ended thrown⟩

def Local.print (l : Local Held ε) : Any Held → Local Held ε
  | none => { l with os := l.os ++ chars "null", control := .ended none }
  | some ⟨ti, val⟩ => { l with control := .locks ti val }

namespace World

def put (w : World Held ε) (i : Nat) (l : Local Held ε) : World Held ε :=
  { w with locals := Function.update w.locals i l }

def lock (w : World Held ε) (i : Nat) (l : Local Held ε) : Except Stop (World Held ε) :=
  (Mutex.lock w.mutex i).map (fun mutex => { w.put i l with mutex := mutex })

variable [DecidableEq τ]

def next (demangle : τ → List CChar) (w : World Held ε) (i : Nat) :
    Except Stop (World Held ε × Response τ) :=
  let l := w.locals i
  match l.control with
  | .ended thrown =>
    match l.stack with
    | [] => .error .notNext
    | .handler ti :: stack =>
      let (os, thrown) := catchOutOfRange demangle ti (l.os, thrown)
      .ok (w.put i ⟨os, stack, .ended thrown⟩, .quiet)
    | .caller rest :: stack => .ok (w.put i ⟨l.os, stack, .works (rest thrown)⟩, .quiet)
  | .works .done => .ok (w.put i { l with control := .ended none }, .quiet)
  | .works (.write text rest) =>
    .ok (w.put i { l with os := l.os ++ text, control := .works rest }, .quiet)
  | .works (.print a rest) =>
    .ok (w.put i (Local.print { l with stack := .caller rest :: l.stack } a), .quiet)
  | .works (.throw e) => .ok (w.put i { l with control := .ended (some e) }, .quiet)
  | .locks ti val => (w.lock i { l with control := .looksUp ti val }).map (·, .quiet)
  | .looksUp ti val =>
    match w.map ti with
    -- `at` throws, and the lock is destroyed on the way to the handler.
    | none =>
      let thrown := some (.outOfRange "unordered_map::at")
      .ok ({ w.put i ⟨l.os, .handler ti :: l.stack, .ended thrown⟩ with mutex := none }, .quiet)
    | some _ => .ok (w.put i { l with control := .unlocks ti val }, .quiet)
  | .unlocks ti val =>
    .ok ({ w.put i { l with control := .calls ti val } with mutex := none }, .quiet)
  -- `printer` is a reference into the map, used without the mutex.
  | .calls ti val =>
    match w.map ti with
    | none => .error (.undefined "no such element")
    | some func => .ok (w.put i ⟨l.os, .handler ti :: l.stack, .works (func val)⟩, .quiet)
  | .locksToAdd ti func => (w.lock i { l with control := .emplaces ti func }).map (·, .quiet)
  | .emplaces ti func =>
    let (map, inserted) := addPrinter w.map ti func
    .ok ({ w.put i { l with control := .ended none } with mutex := none, map := map },
      .added ti inserted)

/-- A call, by a thread in which nothing else is going on. -/
def begin (w : World Held ε) (i : Nat) (l : Local Held ε) :
    Except Stop (World Held ε × Response τ) :=
  match (w.locals i).stack, (w.locals i).control with
  | [], .ended _ => .ok (w.put i l, .quiet)
  | _, _ => .error .notNext

end World

variable [DecidableEq τ]

def step (demangle : τ → List CChar) (w : World Held ε) (e : Event Held ε) :
    Except Stop (World Held ε × Response τ) :=
  let l := w.locals e.thread
  match e.action with
  | .print a => w.begin e.thread (l.print a)
  | .addPrinter ti func => w.begin e.thread { l with control := .locksToAdd ti func }
  | .next => w.next demangle e.thread

end Model

end Printers

end Valuelib.Debug
