import Valuelib.LightFuture.LightPromise

namespace Valuelib.LightFuture

/-- What a promise and its futures share, for those who use them: an outcome that
is written once, and until then the function that is to be called with it. -/
inductive Entry (V X F : Type) where
  | pending (f : F)
  | settled (outcome : Outcome V X)
deriving DecidableEq, Repr

/-- A table of entries, and which entries the promises and futures stand for. No
entry is counted, armed or destroyed. -/
structure Table (V X F : Type) where
  entries : List (Entry V X F)
  promises : List Slot
  futures : List Slot
  frames : List Nat
  calls : List (Call V X F)
deriving DecidableEq, Repr

variable {V X F : Type}

namespace Table

def initial : Table V X F := ⟨[], [], [], [], []⟩

def held (slots : List Slot) (i : Nat) : Except Unit (Option Nat) :=
  match slots[i]? with
  | some (.holds h) => .ok h
  | _ => .error ()

def read (t : Table V X F) : Option Nat → Outcome V X
  | none => .throws (.futureError .noState)
  | some s =>
    match t.entries[s]? with
    | some (.settled outcome) => outcome
    | _ => .throws (.futureError .noState)

def isSettled (t : Table V X F) : Option Nat → Bool
  | none => false
  | some s =>
    match t.entries[s]? with
    | some (.settled _) => true
    | _ => false

def breakPromise (t : Table V X F) : Option Nat → Table V X F
  | none => t
  | some s =>
    match t.entries[s]? with
    | some (.pending _) =>
      { t with entries := t.entries.set s (.settled (.throws (.futureError .brokenPromise))) }
    | _ => t

def settle (t : Table V X F) (s : Nat) (f : F) (outcome : Outcome V X) : Table V X F where
  entries := t.entries.set s (.settled outcome)
  promises := t.promises
  futures := t.futures ++ [.holds (some s)]
  frames := t.futures.length :: t.frames
  calls := t.calls ++ [⟨s, f, true, outcome⟩]

def set (t : Table V X F) (p : Nat) (outcome : Outcome V X) (moving : Option (ExceptionPtr X)) :
    Except Unit (Table V X F × Response V X) := do
  match ← held t.promises p with
  | none => .error ()
  | some s =>
    match t.entries[s]? with
    | some (.pending f) =>
      match moving with
      | some e => return (t, .threw e)
      | none => return (t.settle s f outcome, .invoked t.futures.length)
    | _ => return (t, .threw (.futureError .promiseAlreadySatisfied))

def endCall (t : Table V X F) : Except Unit (Table V X F) :=
  match t.frames with
  | [] => .error ()
  | argument :: frames =>
    match t.futures[argument]? with
    | some (.holds _) => .ok { t with frames := frames, futures := t.futures.set argument .gone }
    | _ => .ok { t with frames := frames }

def step (t : Table V X F) : Event V X F → Except Unit (Table V X F × Response V X)
  | .promiseToCall f =>
    .ok ({ t with
      entries := t.entries ++ [.pending f]
      promises := t.promises ++ [.holds (some t.entries.length)] }, .done)
  | .moveConstruct q => do
    let h ← held t.promises q
    return ({ t with promises := t.promises.set q (.holds none) ++ [.holds h] }, .done)
  -- The promise on the right is broken, and its slot takes over what was on the left.
  | .moveAssign p q => do
    let hp ← held t.promises p
    let hq ← held t.promises q
    let left := if p = q then none else hp
    return (breakPromise { t with
      promises := (t.promises.set p (.holds none)).set q (.holds left) ++ [.gone] } hq, .done)
  | .swap p q => do
    let hp ← held t.promises p
    let hq ← held t.promises q
    return ({ t with promises := (t.promises.set p (.holds hq)).set q (.holds hp) }, .done)
  | .setValue p v passing moving => do
    match ← held t.promises p, passing with
    | some _, some e => return (t, .threw e)
    | _, _ => t.set p (.value v) moving
  | .setException p ep => t.set p (.throws ep) none
  | .destroyPromise p => do
    let h ← held t.promises p
    return (breakPromise { t with promises := t.promises.set p .gone } h, .done)
  | .getFuture p => do
    let h ← held t.promises p
    return ({ t with futures := t.futures ++ [.holds h] }, .done)
  | .defaultFuture => .ok ({ t with futures := t.futures ++ [.holds none] }, .done)
  | .copyFuture f => do
    let h ← held t.futures f
    return ({ t with futures := t.futures ++ [.holds h] }, .done)
  | .moveFuture f => do
    let h ← held t.futures f
    return ({ t with futures := t.futures.set f (.holds none) ++ [.holds h] }, .done)
  | .assignFuture f g => do
    let _ ← held t.futures f
    let k ← held t.futures g
    return ({ t with futures := t.futures.set f (.holds k) }, .done)
  | .moveAssignFuture f g => do
    let _ ← held t.futures f
    let k ← held t.futures g
    return ({ t with futures := (t.futures.set g (.holds none)).set f (.holds k) }, .done)
  | .dropFuture f => do
    let _ ← held t.futures f
    return ({ t with futures := t.futures.set f .gone }, .done)
  | .get f => do
    let h ← held t.futures f
    return (t, .got (t.read h))
  | .valid f => do
    let h ← held t.futures f
    return (t, .isValid (t.isSettled h))
  | .completionReturns => do
    return (← t.endCall, .done)
  | .completionThrows ep => do
    return (← t.endCall, .threw ep)

end Table

end Valuelib.LightFuture
