import Valuelib.Text.Numeral
import Valuelib.Text.Quoted

namespace Valuelib.Debug
open Text

def anyChar (c : CChar) : Bool := c != CChar.newline && c != CChar.carriageReturn

/-- The group of a match with `^pre(.*)post$`. -/
def regexMatch (pre post s : List CChar) : Option (List CChar) :=
  if pre.isPrefixOf s then
    let rest := s.drop pre.length
    if post.isSuffixOf rest then
      let group := rest.take (rest.length - post.length)
      if group.all anyChar then some group else none
    else none
  else none

def stripImpl (s : List CChar) : Option (List CChar) :=
  match regexMatch (chars "std::__nested<") (chars ">") s with
  | some group => some group
  | none =>
    regexMatch
      (chars "boost::exception_detail::clone_impl<boost::exception_detail::error_info_injector<")
      (chars "> >") s

def stripNested (s : List CChar) : List CChar := (stripImpl s).getD s

example : stripNested (chars "std::__nested<std::runtime_error>") = chars "std::runtime_error" := by
  decide

/-- A `std::exception`, as a formatter sees it: what `demangle(typeid(e))` and
`e.what()` give. -/
structure StdException where
  type : List CChar
  what : List CChar
deriving DecidableEq, Repr

def nonstandardException : StdException :=
  ⟨chars "value::debug::nonstandard_exception", chars "no message"⟩

def noException : StdException :=
  ⟨chars "value::debug::no_exception", chars "no exception to unwrap"⟩

/-- An exception object: a `std::exception`, or an object of some other type. -/
inductive Link where
  | standard (e : StdException)
  | other (type : List CChar)
deriving DecidableEq, Repr

structure Thrown where
  object : Link
  nested : List Link
deriving DecidableEq, Repr

def Thrown.links (t : Thrown) : List Link := t.object :: t.nested

/-- `Formatter::operator()`, on a stream of any kind. It may throw. -/
abbrev Formatter (Stream ε : Type) := Stream → StdException → Nat → Except ε Stream

variable {Stream ε : Type}

/-- `unwrapper::write(os, e, depth)`, for an `e` in which the given exceptions are
nested. -/
def writeException (format : Formatter Stream ε) (os : Stream) (e : StdException) (depth : Nat) :
    List Link → Except ε Stream
  | [] => format os e depth
  | link :: nested => do
    let os ← format os e depth
    match link with
    | .standard e => writeException format os e (depth + 1) nested
    | .other _ => format os nonstandardException (depth + 1)

def write (format : Formatter Stream ε) (os : Stream) (ep : Thrown) (depth : Nat) :
    Except ε Stream :=
  match ep.object with
  | .standard e => writeException format os e depth ep.nested
  | .other _ => format os nonstandardException depth

def unwrap (format : Formatter Stream ε) (os : Stream) (ep : Option Thrown) :
    Except ε Stream :=
  match ep with
  | none => write format os ⟨.standard noException, []⟩ 0
  | some t => write format os t 0

/-- What is left of an exception that is copied as a `std::exception`: an object
of that class, whose `what()` in libc++ and libstdc++ is the name of the class. -/
def sliced (_e : StdException) : StdException := ⟨chars "std::exception", chars "std::exception"⟩

/-- `make_exception_ptr(e)` for an `e` of static type `std::exception`. -/
def makeExceptionPtr (e : StdException) : Thrown := ⟨.standard (sliced e), []⟩

def unwrapReference (format : Formatter Stream ε) (os : Stream) (e : StdException) :
    Except ε Stream :=
  unwrap format os (some (makeExceptionPtr e))

def tidyExceptionName (e : StdException) : List CChar :=
  if e.type = nonstandardException.type then chars "nonstandard_exception"
  else stripNested e.type

def indentingEntry (e : StdException) (depth : Nat) : List CChar :=
  (if depth ≠ 0 then [CChar.newline] else []) ++
    (List.replicate depth 32 ++ tidyExceptionName e ++ chars " : " ++ e.what)

def csvEntry (e : StdException) (depth : Nat) : List CChar :=
  (if depth ≠ 0 then chars ", " else []) ++
    (quoted (tidyExceptionName e) ++ chars " : " ++ quoted e.what)

def indentingFormatter : Formatter (List CChar) ε := fun os e depth =>
  .ok (os ++ indentingEntry e depth)

def csvFormatter : Formatter (List CChar) ε := fun os e depth => .ok (os ++ csvEntry e depth)

end Valuelib.Debug
