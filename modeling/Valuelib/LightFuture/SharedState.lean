import Valuelib.Base.Checked

namespace Valuelib.LightFuture
open Checked

inductive WhichType where
  | noState
  | value
  | exception
deriving DecidableEq, Repr

inductive FutureErrc where
  | brokenPromise
  | noState
  | promiseAlreadySatisfied
deriving DecidableEq, Repr

/-- A `std::exception_ptr`: to a `std::future_error`, or to some other object. -/
inductive ExceptionPtr (X : Type) where
  | futureError (code : FutureErrc)
  | other (x : X)
deriving DecidableEq, Repr

/-- The union of `_value` and `_exception`, with the member constructed in it. -/
inductive Storage (V X : Type) where
  | empty
  | value (v : V)
  | exception (ep : ExceptionPtr X)
deriving DecidableEq, Repr

/-- What reading a state or a future gives: the stored value, or a throw. -/
inductive Outcome (V X : Type) where
  | value (v : V)
  | throws (ep : ExceptionPtr X)
  | undefined
deriving DecidableEq, Repr

/-- `shared_state_with_completion`. For `T = void` the payload type is `Unit`. -/
structure SharedState (V X F : Type) where
  which : WhichType
  storage : Storage V X
  promises : Nat
  function : Option F
deriving DecidableEq, Repr

def increment (n : Nat) : Nat := (n + 1) % UInt64.size

def decrement (n : Nat) : Nat := (n + (UInt64.size - 1)) % UInt64.size

theorem increment_zero : increment 0 = 1 := rfl

theorem decrement_one : decrement 1 = 0 := rfl

-- Only the two values above are needed, and unfolding the modulus is costly.
attribute [irreducible] increment decrement

variable {V X F : Type}

namespace SharedState

def new (f : F) : SharedState V X F := ⟨.noState, .empty, 0, some f⟩

def setException (s : SharedState V X F) (ep : ExceptionPtr X) :
    Except (ExceptionPtr X) (SharedState V X F) :=
  match s.which with
  | .noState => .ok { s with storage := .exception ep, which := .exception }
  | .exception | .value => .error (.futureError .promiseAlreadySatisfied)

/-- `moving` is what the payload's move constructor throws, if it throws while
the value is moved into the storage. -/
def setValue (s : SharedState V X F) (value : V) (moving : Option (ExceptionPtr X)) :
    Except (ExceptionPtr X) (SharedState V X F) :=
  match s.which with
  | .noState =>
    match moving with
    | some e => .error e
    | none => .ok { s with storage := .value value, which := .value }
  | .exception | .value => .error (.futureError .promiseAlreadySatisfied)

def hasState (s : SharedState V X F) : Bool :=
  match s.which with
  | .noState => false
  | .exception | .value => true

/-- A tag that does not match the constructed member is undefined behaviour. -/
def reference (s : SharedState V X F) : Outcome V X :=
  match s.which with
  | .noState => .throws (.futureError .noState)
  | .exception =>
    match s.storage with
    | .exception ep => .throws ep
    | _ => .undefined
  | .value =>
    match s.storage with
    | .value v => .value v
    | _ => .undefined

def get (s : SharedState V X F) : Outcome V X := s.reference

def addPromise (s : SharedState V X F) : SharedState V X F :=
  { s with promises := increment s.promises }

def removePromise (s : SharedState V X F) : Except Fault (SharedState V X F) :=
  let s := { s with promises := decrement s.promises }
  if s.promises = 0 ∧ s.hasState = false then
    match s.setException (.futureError .brokenPromise) with
    | .ok s => .ok s
    | .error _ => .error (.assertion "this should not throw")
  else .ok s

/-- `call` up to the invocation: the function taken out of the state, which is
disarmed before the function runs. -/
def call (s : SharedState V X F) : Except Fault (F × SharedState V X F) :=
  match s.function with
  | none => .error (.assertion "_function")
  | some f =>
    if s.hasState then .ok (f, { s with function := none })
    else .error (.assertion "this->has_state()")

def destructor (s : SharedState V X F) : Except Fault Unit :=
  if s.promises ≠ 0 then .error (.assertion "!_promises")
  else match s.which with
    | .noState => .error (.assertion "should have some state")
    | .value | .exception => .ok ()

end SharedState

end Valuelib.LightFuture
