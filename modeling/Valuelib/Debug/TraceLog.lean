import Valuelib.Debug.TraceLevel
import Valuelib.Debug.TraceDepth
import Valuelib.Base.Outline

namespace Valuelib.Debug
open Text Outline

/-- A record apart from its lead: a call or something said, or a returned value. -/
inductive Note where
  | entry (text : List CChar)
  | returned (text : List CChar)
deriving DecidableEq, Repr

def render : Nat × Note → List CChar
  | (n, .entry text) => putLeadIn n ++ text
  | (n, .returned text) => putLeadOut (n - 1) ++ (chars "returns: " ++ text)

namespace Code

def nesting : Code → Nat
  | .done | .throw => 0
  | .seq first next => max first.nesting next.nesting
  | .tryCatch body handler => max body.nesting handler.nesting
  | .call _ printing _ body => max printing.nesting body.nesting + 1
  | .say printing _ | .ret printing _ => printing.nesting

/-- Whether an exception leaves the code. Without an active call around it
nothing is printed for `say` and `ret`. -/
def throws (active : Bool) : Code → Bool
  | .done => false
  | .throw => true
  | .seq first next => first.throws active || next.throws active
  | .tryCatch body handler => body.throws active && handler.throws active
  | .call enabled printing _ body => enabled && printing.throws false || body.throws enabled
  | .say printing _ | .ret printing _ => active && printing.throws false

/-- What is logged, each record with the number of active calls around it, by
the shape of the code alone. -/
def records (n : Nat) (active : Bool) : Code → List (Nat × Note)
  | .done | .throw => []
  | .seq first next =>
    first.records n active ++ if first.throws active then [] else next.records n active
  | .tryCatch body handler =>
    body.records n active ++ if body.throws active then handler.records n active else []
  | .call false _ _ body => body.records n false
  | .call true printing text body =>
    printing.records (n + 1) false ++
      if printing.throws false then [] else (n, .entry text) :: body.records (n + 1) true
  | .say printing text =>
    if active then
      printing.records n false ++ if printing.throws false then [] else [(n, .entry text)]
    else []
  | .ret printing text =>
    if active then
      printing.records n false ++ if printing.throws false then [] else [(n, .returned text)]
    else []

end Code

def told (active : Bool) (c : Code) (d : Nat) : Effect :=
  ⟨d, (c.records d active).map render, c.throws active⟩

def levelAt (active : Bool) (d : Nat) : TraceLevel := ⟨if active then d else 0⟩

theorem levelAt_false (d : Nat) : levelAt false d = ⟨0⟩ := rfl

theorem active_levelAt {active : Bool} {d : Nat} (h : active = true → 0 < d) :
    (levelAt active d).active = active := by
  cases active with
  | false => rfl
  | true =>
    have := h rfl
    simp [levelAt, TraceLevel.active]
    omega

/-- A function with tracing switched off. -/
theorem exec_untraced (level : TraceLevel) (printing body : Code) (text : List CChar) (d : Nat) :
    exec level (.call false printing text body) d = exec ⟨0⟩ body d := by
  simp [exec, TraceLevel.construct, TraceLevel.active, TraceLevel.destroy, Effect.andThen]

/-- A function with tracing switched on: it runs on the next depth, and its
record is written from the depth it was called on. -/
theorem exec_traced {level : TraceLevel} {printing body : Code} {text : List CChar} {d : Nat}
    (hd : d + 1 < UInt64.size) :
    exec level (.call true printing text body) d =
      let left := (record (putLeadIn d) text (exec ⟨0⟩ printing (d + 1))).andThen
        (exec (levelAt true (d + 1)) body)
      { left with currentDepth := lower left.currentDepth } := by
  simp [exec, TraceLevel.construct, TraceLevel.active, TraceLevel.destroy, TraceLevel.getLeadIn,
    levelAt, raise_eq hd]

/-- A record that is made in code of no level of its own. -/
theorem record_told {printing : Code} {d : Nat} {lead text : List CChar} (n : Nat) (note : Note)
    (h : render (n, note) = lead ++ text) :
    record lead text (told false printing d) =
      ⟨d, (printing.records d false ++
        if printing.throws false then [] else [(n, note)]).map render,
        printing.throws false⟩ := by
  unfold record Effect.andThen told
  cases printing.throws false with
  | true => simp
  | false => simp [h]

/-- Code that is followed by more goes on with it unless it throws. -/
theorem told_andThen {active : Bool} {first : Code} {d : Nat} {next : Nat → Effect} :
    (told active first d).andThen next =
      if first.throws active then told active first d
      else { next d with log := (first.records d active).map render ++ (next d).log } := by
  unfold Effect.andThen told
  cases first.throws active with
  | true => rfl
  | false => rfl

/-- Running the code does what its shape tells, and leaves the depth as it was. -/
theorem exec_told (c : Code) {active : Bool} {d : Nat} (hactive : active = true → 0 < d)
    (hfits : d + c.nesting < UInt64.size) : exec (levelAt active d) c d = told active c d := by
  induction c generalizing active d with
  | done => rfl
  | throw => rfl
  | seq first next ih ih' =>
    simp only [Code.nesting] at hfits
    rw [exec, ih hactive (by omega), told_andThen, ih' hactive (by omega)]
    cases hthrows : first.throws active with
    | true => simp [told, Code.records, Code.throws, hthrows]
    | false => simp [told, Code.records, Code.throws, hthrows]
  | tryCatch body handler ih ih' =>
    simp only [Code.nesting] at hfits
    rw [exec, ih hactive (by omega)]
    simp only [Effect.andThen, told, ih' hactive (show d + handler.nesting < UInt64.size by omega)]
    cases hthrows : body.throws active with
    | true => simp [Code.records, Code.throws, hthrows]
    | false => simp [Code.records, Code.throws, hthrows]
  | call enabled printing text body ih ih' =>
    simp only [Code.nesting] at hfits
    cases enabled with
    | false =>
      have hbody : exec (levelAt false d) body d = told false body d := ih' (by simp) (by omega)
      rw [exec_untraced, ← levelAt_false d, hbody]
      simp [told, Code.records, Code.throws]
    | true =>
      have hprinting : exec (levelAt false (d + 1)) printing (d + 1) =
          told false printing (d + 1) := ih (by simp) (by omega)
      have hbody : exec (levelAt true (d + 1)) body (d + 1) = told true body (d + 1) :=
        ih' (by simp) (by omega)
      have hlower : lower (d + 1) = d := lower_succ (by omega)
      rw [exec_traced (by omega), ← levelAt_false (d + 1), hprinting,
        record_told d (.entry text) rfl]
      simp only [Effect.andThen, hbody]
      cases hthrows : printing.throws false with
      | true => simp [told, Code.records, Code.throws, hthrows, hlower]
      | false => simp [told, Code.records, Code.throws, hthrows, hlower]
  | say printing text ih =>
    simp only [Code.nesting] at hfits
    have hprinting : exec (levelAt false d) printing d = told false printing d :=
      ih (by simp) (by omega)
    rw [exec, active_levelAt hactive]
    cases active with
    | false => rfl
    | true =>
      have hlead : (levelAt true d).sayLeadIn = putLeadIn d := rfl
      rw [if_pos rfl, ← levelAt_false d, hprinting, hlead, record_told d (.entry text) rfl]
      simp [told, Code.records, Code.throws]
  | ret printing text ih =>
    simp only [Code.nesting] at hfits
    have hprinting : exec (levelAt false d) printing d = told false printing d :=
      ih (by simp) (by omega)
    rw [exec, active_levelAt hactive]
    cases active with
    | false => rfl
    | true =>
      have hd := hactive rfl
      have hlead : (levelAt true d).getLeadOut = putLeadOut (d - 1) := by
        rw [TraceLevel.getLeadOut, levelAt, if_pos rfl, if_pos (Nat.ne_of_gt hd)]
      rw [if_pos rfl, ← levelAt_false d, hprinting, hlead,
        record_told d (.returned text) rfl]
      simp [told, Code.records, Code.throws]

/-- Whatever is thrown, and wherever: afterwards `_current_depth` is what it was
before, and each record has the lead of the active calls it was written in. -/
theorem traced_run_told (c : Code) (d : Nat) (hfits : d + c.nesting < UInt64.size) :
    exec ⟨0⟩ c d = told false c d := by
  rw [← levelAt_false d]
  exact exec_told c (by simp) hfits

/-- A call whose argument throws while it is printed, caught by its caller. -/
theorem traced_run_told_caught :
    exec ⟨0⟩ (.call true .done (chars "f()")
        (.seq (.tryCatch (.call true .throw (chars "g()") .done) (.say .done (chars "caught")))
          (.ret .done (chars "4")))) 0 =
      ⟨0, [chars "f()", chars ">caught", chars "returns: 4"], false⟩ := by
  refine (traced_run_told _ 0 ?_).trans rfl
  decide

end Valuelib.Debug
