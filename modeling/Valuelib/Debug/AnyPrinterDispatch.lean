import Valuelib.Debug.AnyPrinter
import Mathlib.Logic.Function.Basic

namespace Valuelib.Debug
open Text

variable {τ : Type} {Held : τ → Type} {ε : Type} {demangle : τ → List CChar}
  {map : Registry Held ε} {t : τ} {val : Held t} {os : List CChar} {outcome outcome' : Outcome ε}

def Prints (demangle : τ → List CChar) (map : Registry Held ε) (a : Any Held) (os : List CChar)
    (outcome : Outcome ε) : Prop :=
  ∃ depth, printAny demangle map depth a os = some outcome

def Applies (demangle : τ → List CChar) (map : Registry Held ε) (program : Program Held ε)
    (os : List CChar) (outcome : Outcome ε) : Prop :=
  ∃ depth, program.run (printAny demangle map depth) os = some outcome

theorem run_mono {print print' : Any Held → List CChar → Option (Outcome ε)}
    (hprint : ∀ a os outcome, print a os = some outcome → print' a os = some outcome)
    {program : Program Held ε} (h : program.run print os = some outcome) :
    program.run print' os = some outcome := by
  induction program generalizing os with
  | done => exact h
  | write text rest ih => exact ih h
  | throw e => exact h
  | print a rest ih =>
    rw [Program.run] at h ⊢
    cases ha : print a os with
    | none =>
      rw [ha] at h
      cases h
    | some first =>
      rw [ha] at h
      rw [hprint a os first ha]
      exact ih first.2 h

/-- More depth changes no result. -/
theorem printAny_succ {depth : Nat} {a : Any Held}
    (h : printAny demangle map depth a os = some outcome) :
    printAny demangle map (depth + 1) a os = some outcome := by
  induction depth generalizing a os outcome with
  | zero => cases h
  | succ depth ih =>
    match a with
    | none => exact h
    | some ⟨t, val⟩ =>
      rw [printAny] at h ⊢
      obtain ⟨inner, hinner, hcatch⟩ := Option.map_eq_some_iff.mp h
      apply Option.map_eq_some_iff.mpr
      refine ⟨inner, ?_, hcatch⟩
      unfold attempt at hinner ⊢
      cases ht : map t with
      | none =>
        rw [ht] at hinner
        exact hinner
      | some func =>
        rw [ht] at hinner
        exact run_mono (fun _ _ _ ha => ih ha) hinner

/-- A print that ends within some depth ends alike within a greater one. -/
theorem printAny_le {depth depth' : Nat} (hle : depth ≤ depth') {a : Any Held}
    (h : printAny demangle map depth a os = some outcome) :
    printAny demangle map depth' a os = some outcome := by
  induction hle with
  | refl => exact h
  | step _ ih => exact printAny_succ ih

/-- A print ends in one way only. -/
theorem Prints.unique {a : Any Held} (h : Prints demangle map a os outcome)
    (h' : Prints demangle map a os outcome') : outcome = outcome' := by
  obtain ⟨depth, h⟩ := h
  obtain ⟨depth', h'⟩ := h'
  have hmax := printAny_le (Nat.le_max_left depth depth') h
  rw [printAny_le (Nat.le_max_right depth depth') h'] at hmax
  exact (Option.some.inj hmax).symm

/-- A registered printer does the printing, inside the handler. -/
theorem prints_registered {func : PrintFunction Held ε t} (ht : map t = some func) :
    Prints demangle map (some ⟨t, val⟩) os outcome ↔
      ∃ inner, Applies demangle map (func val) os inner ∧
        catchOutOfRange demangle t inner = outcome := by
  constructor
  · intro h
    obtain ⟨depth, h⟩ := h
    cases depth with
    | zero => cases h
    | succ depth =>
      rw [printAny] at h
      obtain ⟨inner, hinner, hcatch⟩ := Option.map_eq_some_iff.mp h
      rw [attempt, ht] at hinner
      exact ⟨inner, ⟨depth, hinner⟩, hcatch⟩
  · intro h
    obtain ⟨inner, ⟨depth, hinner⟩, hcatch⟩ := h
    refine ⟨depth + 1, ?_⟩
    rw [printAny, attempt, ht]
    exact Option.map_eq_some_iff.mpr ⟨inner, hinner, hcatch⟩

theorem prints_unregistered (ht : map t = none) :
    Prints demangle map (some ⟨t, val⟩) os outcome ↔
      outcome = (os ++ unregistered demangle t, none) := by
  have hone : printAny demangle map 1 (some ⟨t, val⟩) os =
      some (os ++ unregistered demangle t, none) := by
    rw [printAny, attempt, ht]
    rfl
  constructor
  · intro h
    exact h.unique ⟨1, hone⟩
  · intro h
    subst h
    exact ⟨1, hone⟩

/-- A print as long as it meets registered types only: there is no text for others. -/
def printKnown (demangle : τ → List CChar) (map : Registry Held ε) :
    Nat → Any Held → List CChar → Option (Outcome ε)
  | 0, _, _ => none
  | _ + 1, none, os => some (os ++ chars "null", none)
  | depth + 1, some ⟨t, val⟩, os =>
    match map t with
    | none => none
    | some func =>
      ((func val).run (printKnown demangle map depth) os).map (catchOutOfRange demangle t)

def PrintsKnown (demangle : τ → List CChar) (map : Registry Held ε) (a : Any Held)
    (os : List CChar) (outcome : Outcome ε) : Prop :=
  ∃ depth, printKnown demangle map depth a os = some outcome

/-- Such a print is the same in every larger registry. -/
theorem printKnown_kept {map' : Registry Held ε}
    (hkept : ∀ t func, map t = some func → map' t = some func) {depth : Nat} {a : Any Held}
    (h : printKnown demangle map depth a os = some outcome) :
    printAny demangle map' depth a os = some outcome := by
  induction depth generalizing a os outcome with
  | zero => cases h
  | succ depth ih =>
    match a with
    | none => exact h
    | some ⟨t, val⟩ =>
      rw [printKnown] at h
      cases ht : map t with
      | none =>
        rw [ht] at h
        cases h
      | some func =>
        rw [ht] at h
        obtain ⟨inner, hinner, hcatch⟩ := Option.map_eq_some_iff.mp h
        rw [printAny, attempt, hkept t func ht]
        apply Option.map_eq_some_iff.mpr
        exact ⟨inner, run_mono (fun _ _ _ ha => ih ha) hinner, hcatch⟩

/-- The handler lets through what is no `std::out_of_range`. -/
theorem catchOutOfRange_eq_self (h : ∀ what, outcome.2 ≠ some (.outOfRange what)) :
    catchOutOfRange demangle t outcome = outcome := by
  match outcome with
  | (os, none) => rfl
  | (os, some (.other e)) => rfl
  | (os, some (.outOfRange what)) => exact absurd rfl (h what)

theorem catchOutOfRange_ne (what : String) :
    (catchOutOfRange demangle t outcome).2 ≠ some (.outOfRange what) := by
  match outcome with
  | (os, none) => simp [catchOutOfRange]
  | (os, some (.other e)) => simp [catchOutOfRange]
  | (os, some (.outOfRange what)) => simp [catchOutOfRange]

section Registrations

variable [DecidableEq τ]

abbrev Registration (Held : τ → Type) (ε : Type) := Sigma (PrintFunction Held ε)

def addAll (map : Registry Held ε) (calls : List (Registration Held ε)) : Registry Held ε :=
  calls.foldl (fun map call => (addPrinter map call.1 call.2).1) map

def registered (calls : List (Registration Held ε)) : Registry Held ε :=
  addAll (fun _ => none) calls

def first (calls : List (Registration Held ε)) (t : τ) : Option (PrintFunction Held ε t) :=
  calls.findSome? (fun call => if h : call.1 = t then some (h ▸ call.2) else none)

variable {calls : List (Registration Held ε)}

theorem addPrinter_apply (map : Registry Held ε) (u : τ) (func : PrintFunction Held ε u) (t : τ) :
    (addPrinter map u func).1 t = (map t).or (first [⟨u, func⟩] t) := by
  unfold addPrinter
  by_cases hut : u = t
  · subst hut
    cases hu : map u with
    | none => simp [first]
    | some _ => simp [hu]
  · have hfirst : first [⟨u, func⟩] t = none := by simp [first, hut]
    rw [hfirst, Option.or_none]
    cases map u with
    | none => simp [Function.update_of_ne (Ne.symm hut)]
    | some _ => rfl

/-- What is registered stays, and the first call for a type counts. -/
theorem addAll_apply (map : Registry Held ε) (calls : List (Registration Held ε)) (t : τ) :
    addAll map calls t = (map t).or (first calls t) := by
  induction calls generalizing map with
  | nil => simp [addAll, first]
  | cons call calls ih =>
    have hcons : first (call :: calls) t = (first [call] t).or (first calls t) := by
      simp only [first, List.findSome?_cons, List.findSome?_nil]
      split <;> rfl
    rw [addAll, List.foldl_cons, hcons, ← Option.or_assoc, ← addPrinter_apply]
    exact ih _

theorem registered_apply (calls : List (Registration Held ε)) (t : τ) :
    registered calls t = first calls t := by
  rw [registered, addAll_apply, Option.none_or]

/-- Later calls matter only to the types not registered before. -/
theorem registered_append (calls later : List (Registration Held ε)) (t : τ) :
    registered (calls ++ later) t = (registered calls t).or (first later t) := by
  rw [registered, addAll, List.foldl_append]
  exact addAll_apply _ later t

/-- What a registry is meant to do with a value after some calls of `add_printer`:
the first function for its type does the work, now and after further calls. -/
structure DispatchesFaithfully (demangle : τ → List CChar) (calls : List (Registration Held ε))
    (t : τ) (val : Held t) : Prop where
  faithful : ∀ func, first calls t = some func → ∀ os outcome,
    Prints demangle (registered calls) (some ⟨t, val⟩) os outcome ↔
      Applies demangle (registered calls) (func val) os outcome
  unknown : first calls t = none → ∀ os outcome,
    Prints demangle (registered calls) (some ⟨t, val⟩) os outcome ↔
      outcome = (os ++ unregistered demangle t, none)
  answer : ∀ func, (addPrinter (registered calls) t func).2 = true ↔ first calls t = none
  kept : ∀ func, first calls t = some func → ∀ later,
    registered (calls ++ later) t = some func
  repeated : ∀ func, first calls t ≠ none → registered (calls ++ [⟨t, func⟩]) = registered calls
  stable : ∀ later os outcome, PrintsKnown demangle (registered calls) (some ⟨t, val⟩) os outcome →
    Prints demangle (registered (calls ++ later)) (some ⟨t, val⟩) os outcome

theorem addPrinter_answer (func : PrintFunction Held ε t) :
    (addPrinter (registered calls) t func).2 = true ↔ first calls t = none := by
  rw [← registered_apply]
  unfold addPrinter
  cases registered calls t with
  | none => simp
  | some _ => simp

theorem registered_kept {func : PrintFunction Held ε t} (h : first calls t = some func)
    (later : List (Registration Held ε)) : registered (calls ++ later) t = some func := by
  rw [registered_append, registered_apply, h, Option.some_or]

theorem registered_repeated (func : PrintFunction Held ε t) (h : first calls t ≠ none) :
    registered (calls ++ [⟨t, func⟩]) = registered calls := by
  funext u
  rw [registered_append, registered_apply]
  by_cases htu : t = u
  · subst htu
    obtain ⟨known, hknown⟩ := Option.ne_none_iff_exists'.mp h
    rw [hknown, Option.some_or]
  · have hfirst : first [⟨t, func⟩] u = none := by simp [first, htu]
    rw [hfirst, Option.or_none]

/-- A print that meets registered types only is the same after further calls. -/
theorem prints_of_known {a : Any Held} (later : List (Registration Held ε))
    (h : PrintsKnown demangle (registered calls) a os outcome) :
    Prints demangle (registered (calls ++ later)) a os outcome := by
  obtain ⟨depth, h⟩ := h
  refine ⟨depth, printKnown_kept ?_ h⟩
  intro t func ht
  rw [registered_apply] at ht
  exact registered_kept ht later

/-- The dispatch is faithful as long as the printer in charge does not end with a
`std::out_of_range`: the handler takes that for a failed look-up. -/
theorem dispatch_faithful_iff (demangle : τ → List CChar) (calls : List (Registration Held ε))
    (t : τ) (val : Held t) :
    DispatchesFaithfully demangle calls t val ↔
      ∀ func, first calls t = some func → ∀ os outcome,
        Applies demangle (registered calls) (func val) os outcome →
          ∀ what, outcome.2 ≠ some (.outOfRange what) := by
  constructor
  · intro h func hfunc os outcome happlies
    have hlookup := (registered_apply calls t).trans hfunc
    have hprints := (h.faithful func hfunc os outcome).mpr happlies
    obtain ⟨inner, _, hcatch⟩ := (prints_registered hlookup).mp hprints
    rw [← hcatch]
    exact catchOutOfRange_ne
  · intro h
    refine ⟨?_, ?_, addPrinter_answer, fun _ => registered_kept, registered_repeated,
      fun later _ _ => prints_of_known later⟩
    · intro func hfunc os outcome
      rw [prints_registered ((registered_apply calls t).trans hfunc)]
      constructor
      · intro hinner
        obtain ⟨inner, happlies, hcatch⟩ := hinner
        rw [catchOutOfRange_eq_self (h func hfunc os inner happlies)] at hcatch
        exact hcatch ▸ happlies
      · intro happlies
        exact ⟨outcome, happlies, catchOutOfRange_eq_self (h func hfunc os outcome happlies)⟩
    · intro hnone os outcome
      exact prints_unregistered ((registered_apply calls t).trans hnone)

end Registrations

/-- A printer that writes, looks something up in vain and throws: its exception is
swallowed, and the type is called unregistered. -/
theorem swallowed_out_of_range :
    ¬ DispatchesFaithfully (fun _ => chars "int")
      ([⟨(), fun _ => .write (chars "5") (.throw (.outOfRange "vector::at"))⟩] :
        List (Registration (fun _ : Unit => Unit) Empty)) () () := by
  intro h
  have hprints := (h.faithful _ rfl [] (chars "5", some (.outOfRange "vector::at"))).mpr ⟨0, rfl⟩
  obtain ⟨depth, hdepth⟩ := hprints
  cases depth with
  | zero => cases hdepth
  | succ depth => cases hdepth

end Valuelib.Debug
