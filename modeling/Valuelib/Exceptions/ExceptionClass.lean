import Mathlib.Data.List.Basic

namespace Valuelib.Exceptions

/-- The classes of exception objects: the standard ones that the register names,
any class derived from another, and the class under which `std::throw_with_nested`
throws an object of a given class. -/
inductive ExceptionClass where
  | exception
  | logicError
  | invalidArgument
  | runtimeError
  | systemError
  | derived (name : String) (base : ExceptionClass) (final nests fromString : Bool)
  | nested (base : ExceptionClass)
deriving DecidableEq, Repr

namespace ExceptionClass

/-- The class itself and the classes it derives from, up to `std::exception`. -/
def ancestors : ExceptionClass → List ExceptionClass
  | exception => [exception]
  | logicError => [logicError, exception]
  | invalidArgument => [invalidArgument, logicError, exception]
  | runtimeError => [runtimeError, exception]
  | systemError => [systemError, runtimeError, exception]
  | derived name base final nests fromString =>
    derived name base final nests fromString :: base.ancestors
  | nested base => nested base :: base.ancestors

def isA (c k : ExceptionClass) : Bool := decide (k ∈ c.ancestors)

def isFinal : ExceptionClass → Bool
  | derived _ _ final _ _ => final
  | _ => false

def derivesNested : ExceptionClass → Bool
  | derived _ base _ nests _ => nests || base.derivesNested
  | nested _ => true
  | _ => false

def constructibleFromString : ExceptionClass → Bool
  | logicError | invalidArgument | runtimeError => true
  | derived _ _ _ _ fromString => fromString
  | exception | systemError | nested _ => false

/-- The classes for which `raise` and `raise_with_nested` are meant. -/
structure Announceable (c : ExceptionClass) : Prop where
  nonFinal : c.isFinal = false
  plain : c.derivesNested = false
  constructible : c = systemError ∨ c.constructibleFromString = true

end ExceptionClass

structure ErrorCode where
  value : Int
  category : String
deriving DecidableEq, Repr

/-- An exception object. Only a `std::system_error` has an error code. -/
structure Object where
  type : ExceptionClass
  message : String
  code : Option ErrorCode
deriving DecidableEq, Repr

/-- An exception in flight, alone or with the one nested in it. -/
inductive Thrown where
  | alone (object : Object)
  | nesting (object : Object) (inner : Thrown)
deriving DecidableEq, Repr

namespace Thrown

def object : Thrown → Object
  | alone object => object
  | nesting object _ => object

/-- The objects of a nested chain, outermost first. -/
def chain : Thrown → List Object
  | alone object => [object]
  | nesting object inner => object :: inner.chain

end Thrown

/-- `std::throw_with_nested`, called while `current` is handled. An object of a
final class, or of one that has a nested exception of its own, is thrown as it is. -/
def throwWithNested (e : Object) (current : Option Thrown) : Thrown :=
  if e.type.isFinal || e.type.derivesNested then .alone e
  else
    let e := { e with type := .nested e.type }
    match current with
    | some inner => .nesting e inner
    | none => .alone e

theorem throwWithNested_plain {e : Object} {inner : Thrown} (hf : e.type.isFinal = false)
    (hn : e.type.derivesNested = false) :
    throwWithNested e (some inner) = .nesting { e with type := .nested e.type } inner := by
  simp [throwWithNested, hf, hn]

end Valuelib.Exceptions
