import Valuelib.Base.Checked
import Valuelib.Base.RefCount

namespace Valuelib.Stdext.BindWeak
open Checked RefCount

/-- A `std::shared_ptr` or `std::weak_ptr`: its control block and what `get()`
returns, which the aliasing constructor sets independently of the block. -/
structure Pointer where
  block : Option Nat
  get : Option Nat
deriving DecidableEq, Repr

def Pointer.null : Pointer := ⟨none, none⟩

inductive Slot where
  | gone
  | holds (p : Pointer)
deriving DecidableEq, Repr

def Slot.block : Slot → Option Nat
  | .gone => none
  | .holds p => p.block

structure WeakBinder (F : Type) where
  weakPtr : Pointer
  f : F
deriving DecidableEq, Repr

/-- A call of a binder that is running `_f`, with its `locked_ptr`. -/
structure Frame (F : Type) where
  lockedPtr : Pointer
  f : F
deriving DecidableEq, Repr

/-- The objects of a program that are owned by pointers, its pointers, its
binders, and the calls that are running, innermost first. -/
structure Config (F : Type) where
  blocks : List Block
  pointers : List Slot
  binders : List (WeakBinder F)
  frames : List (Frame F)
deriving DecidableEq, Repr

variable {F R : Type}

def Config.initial : Config F := ⟨[], [], [], []⟩

/-- What a program can do, at the top level or from inside a function that is
running: `lock` is what `shared_from_this` does too. -/
inductive Event (F R : Type) where
  | makeShared
  | copy (p : Nat)
  | aliasing (p : Nat) (get : Option Nat)
  | move (p : Nat)
  | assign (p q : Nat)
  | reset (p : Nat)
  | destroy (p : Nat)
  | bindWeak (f : F) (p : Nat)
  | lock (b : Nat)
  | call (b : Nat)
  | returns (r : R)
  | throws
deriving DecidableEq, Repr

/-- The answer of a step. A call of a binder starts its function or it answers
`none`, and the function's result is the call's. -/
inductive Response (F R : Type) where
  | done
  | running (f : F)
  | none
  | result (r : R)
  | threw
deriving DecidableEq, Repr

namespace Config

def pointerAt (c : Config F) (p : Nat) : Except Fault Pointer :=
  match c.pointers[p]? with
  | some (.holds ptr) => .ok ptr
  | _ => .error (.undefined "no such pointer")

def binderAt (c : Config F) (b : Nat) : Except Fault (WeakBinder F) :=
  match c.binders[b]? with
  | some binder => .ok binder
  | none => .error (.undefined "no such binder")

def expired (c : Config F) (p : Pointer) : Bool :=
  match p.block with
  | none => true
  | some k => (c.blocks[k]?.map Block.useCount).getD 0 = 0

/-- `std::weak_ptr::lock`, its result only: the count is raised where the result
is kept. -/
def lock (c : Config F) (p : Pointer) : Pointer := if c.expired p then .null else p

def makeShared (c : Config F) : Config F :=
  { c with
    blocks := c.blocks ++ [.of 1]
    pointers := c.pointers ++ [.holds ⟨some c.blocks.length, some c.blocks.length⟩] }

def share (c : Config F) (p : Pointer) : Config F :=
  { c with blocks := gain c.blocks p.block, pointers := c.pointers ++ [.holds p] }

def copy (c : Config F) (p : Nat) : Except Fault (Config F) := do
  return c.share (← c.pointerAt p)

def aliasing (c : Config F) (p : Nat) (get : Option Nat) : Except Fault (Config F) := do
  return c.share { ← c.pointerAt p with get := get }

def move (c : Config F) (p : Nat) : Except Fault (Config F) := do
  let ptr ← c.pointerAt p
  return { c with pointers := c.pointers.set p (.holds .null) ++ [.holds ptr] }

def replace (c : Config F) (p : Nat) (old : Pointer) (new : Slot) : Config F :=
  { c with
    blocks := lose (gain c.blocks new.block) old.block
    pointers := c.pointers.set p new }

def assign (c : Config F) (p q : Nat) : Except Fault (Config F) := do
  let old ← c.pointerAt p
  let new ← c.pointerAt q
  return c.replace p old (.holds new)

def reset (c : Config F) (p : Nat) : Except Fault (Config F) := do
  let old ← c.pointerAt p
  return c.replace p old (.holds .null)

def destroy (c : Config F) (p : Nat) : Except Fault (Config F) := do
  let old ← c.pointerAt p
  return c.replace p old .gone

/-- `bind_weak`: a `std::weak_ptr` to what the pointer points to. A member function
is bound to the pointer's `get()` besides, which is the same target. -/
def bindWeak (c : Config F) (f : F) (p : Nat) : Except Fault (Config F) := do
  let ptr ← c.pointerAt p
  return { c with binders := c.binders ++ [⟨ptr, f⟩] }

/-- `weak_binder::operator()`, up to the call of `_f`. -/
def call (c : Config F) (b : Nat) : Except Fault (Config F × Response F R) := do
  let binder ← c.binderAt b
  let lockedPtr := c.lock binder.weakPtr
  match lockedPtr.get with
  | some _ =>
    return ({ c with
      blocks := gain c.blocks lockedPtr.block
      frames := ⟨lockedPtr, binder.f⟩ :: c.frames }, .running binder.f)
  | none =>
    return ({ c with blocks := lose (gain c.blocks lockedPtr.block) lockedPtr.block }, .none)

def leave (c : Config F) (r : Response F R) : Except Fault (Config F × Response F R) :=
  match c.frames with
  | [] => .error (.undefined "nothing is running")
  | frame :: frames =>
    .ok ({ c with blocks := lose c.blocks frame.lockedPtr.block, frames := frames }, r)

end Config

def answer (x : Except Fault (Config F)) : Except Fault (Config F × Response F R) :=
  x.map (·, .done)

def step (c : Config F) : Event F R → Except Fault (Config F × Response F R)
  | .makeShared => .ok (c.makeShared, .done)
  | .copy p => answer (c.copy p)
  | .aliasing p get => answer (c.aliasing p get)
  | .move p => answer (c.move p)
  | .assign p q => answer (c.assign p q)
  | .reset p => answer (c.reset p)
  | .destroy p => answer (c.destroy p)
  | .bindWeak f p => answer (c.bindWeak f p)
  | .lock b => do
    let binder ← c.binderAt b
    return (c.share (c.lock binder.weakPtr), .done)
  | .call b => c.call b
  | .returns r => c.leave (.result r)
  | .throws => c.leave .threw

end Valuelib.Stdext.BindWeak
