import Valuelib.Exceptions.ExceptionClass

namespace Valuelib.Exceptions
open ExceptionClass

abbrev Codes := ExceptionClass → String → Option ErrorCode

def construct (codes : Codes) (type : ExceptionClass) (message : String) : Object :=
  ⟨type, message, codes type message⟩

def constructSystemError (code : Option ErrorCode) (message : String) : Object :=
  ⟨.systemError, message, code⟩

/-- `re_raiser<SourceType>` and its specialisation for `std::system_error`, called
while `source` is handled. -/
def reRaiser (codes : Codes) (sourceType : ExceptionClass) (message : String)
    (source : Thrown) : Thrown :=
  if sourceType = .systemError then
    throwWithNested (constructSystemError source.object.code message) (some source)
  else throwWithNested (construct codes sourceType message) (some source)

structure Actions where
  wrapper : String → Thrown → Thrown

abbrev Register := List (ExceptionClass × Actions)

/-- The type that the register catches when it throws the object nested. -/
def typeWhenNesting (model : Object) : ExceptionClass :=
  (throwWithNested model (some (.alone ⟨.runtimeError, "test", none⟩))).object.type

namespace Register

def registerExactType (r : Register) (ti : ExceptionClass) (function : Actions) :
    Register × Bool :=
  match r.lookup ti with
  | none => ((ti, function) :: r, true)
  | some _ => (r, false)

/-- The object is copied into its static type, so that both `typeid`s are its
own class. -/
def registerException (r : Register) (e : Object) (function : Actions) : Register :=
  match r.registerExactType e.type function with
  | (r, true) =>
    let (r, _) := r.registerExactType e.type function
    (r.registerExactType (typeWhenNesting e) function).1
  | (r, false) => r

end Register

variable (codes : Codes)

def defaultWrap (message : String) (e : Thrown) : Thrown :=
  if e.object.type.isA .invalidArgument then
    throwWithNested (construct codes .invalidArgument message) (some e)
  else if e.object.type.isA .logicError then
    throwWithNested (construct codes .logicError message) (some e)
  else if e.object.type.isA .systemError then
    throwWithNested (constructSystemError e.object.code message) (some e)
  else if e.object.type.isA .runtimeError then
    throwWithNested (construct codes .runtimeError message) (some e)
  else throwWithNested (construct codes .runtimeError message) (some e)

/-- A wrapper always throws, so the report "failed to wrap" is never made. -/
def wrap (r : Register) (message : String) (e : Thrown) : Thrown :=
  match r.lookup e.object.type with
  | none => defaultWrap codes message e
  | some actions => actions.wrapper message e

/-- A call of `raise`, or of `raise_with_nested` while `current` is handled. -/
inductive Announcement where
  | raise (e : Object)
  | raiseWithNested (e : Object) (current : Option Thrown)
deriving DecidableEq, Repr

def Announcement.object : Announcement → Object
  | raise e => e
  | raiseWithNested e _ => e

def announce (r : Register) (e : Object) : Register × Thrown :=
  (r.registerException e ⟨reRaiser codes e.type⟩, .alone e)

def announceWithNested (r : Register) (e : Object) (current : Option Thrown) :
    Register × Thrown :=
  (r.registerException e ⟨reRaiser codes e.type⟩, throwWithNested e current)

def Announcement.make (r : Register) : Announcement → Register × Thrown
  | raise e => announce codes r e
  | raiseWithNested e current => announceWithNested codes r e current

def announceAll (r : Register) (announcements : List Announcement) : Register :=
  announcements.foldl (fun r a => (a.make codes r).1) r

def reRaise (r : Register) (message : String) (current : Thrown) : Thrown :=
  wrap codes r message current

/-- One handler that re-raises, after whatever was announced before. -/
structure Layer where
  announcements : List Announcement
  message : String
deriving DecidableEq, Repr

/-- An exception passes through the handlers, innermost first. -/
def unwind (r : Register) (x : Thrown) : List Layer → Thrown
  | [] => x
  | layer :: layers =>
    let r := announceAll codes r layer.announcements
    unwind r (reRaise codes r layer.message x) layers

end Valuelib.Exceptions
