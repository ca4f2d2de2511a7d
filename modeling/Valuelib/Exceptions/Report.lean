import Valuelib.Exceptions.Chain
import Valuelib.Debug.CsvChain
import Valuelib.Base.Separated

namespace Valuelib.Exceptions
open Text CChar Separated ExceptionClass

/-- What `demangle` gives for each class: a name on one line, the class under which an
object is thrown nested by its template in libc++. -/
structure Names where
  name : ExceptionClass → List CChar
  nested : ∀ e, name (.nested e) = chars "std::__nested<" ++ name e ++ chars ">"
  oneLine : ∀ e, (name e).all Debug.anyChar = true

/-- `what()` in libc++: a `std::system_error` adds the message of its code, if that is
an error. -/
def Object.what (codeMessage : ErrorCode → List CChar) (o : Object) : List CChar :=
  match o.code with
  | none => chars o.message
  | some code =>
    if code.value = 0 then chars o.message
    else if o.message = "" then codeMessage code
    else chars o.message ++ chars ": " ++ codeMessage code

def Thrown.innermost : Thrown → Object
  | alone object => object
  | nesting _ inner => inner.innermost

/-- Nothing in the chain was thrown nested while no exception was handled: such an
object has a null pointer for its nested exception, and `unwrap` ends the program there. -/
def Thrown.Complete (x : Thrown) : Prop := x.innermost.type.derivesNested = false

section Pointer

variable (names : Names) (codeMessage : ErrorCode → List CChar)

def Object.shown (o : Object) : Debug.StdException := ⟨names.name o.type, o.what codeMessage⟩

def Thrown.current (x : Thrown) (_complete : x.Complete) : Debug.Thrown :=
  Debug.chain (x.object.shown names codeMessage) (x.chain.tail.map (·.shown names codeMessage))

end Pointer

def line (fields : List CChar × List CChar) (depth : Nat) : List CChar :=
  List.replicate depth 32 ++ fields.1 ++ chars " : " ++ fields.2

section Reports

variable {ε : Type} {names : Names} {codeMessage : ErrorCode → List CChar}

def entries (names : Names) (codeMessage : ErrorCode → List CChar) (x : Thrown) :
    List (List CChar × List CChar) :=
  x.chain.map (fun o => Debug.csvFields (o.shown names codeMessage))

variable {codes : Codes}

end Reports

end Valuelib.Exceptions
