import Valuelib.Debug.TracerOutput

namespace Valuelib.Debug.Tracing
open Text Checked Runs

variable {id : Nat → List CChar} {w w' : World} {t : Nat}

def arrow (depth : Nat) : List CChar :=
  match leadIn depth with
  | .ok lead => lead
  | .error _ => []

/-- The lines of a run, as if each construction wrote its line at once, each with
the lead of the tracers that its thread has at that moment. -/
def linesOf (id : Nat → List CChar) : (Nat → Nat) → List Event → List CChar
  | _, [] => []
  | live, ⟨t, action⟩ :: es =>
    match action with
    | .construct call => line (id t) (arrow (live t)) call ++ linesOf id live es
    | .finish => linesOf id (Function.update live t (live t + 1)) es
    | .destroy => linesOf id (Function.update live t (live t - 1)) es
    | .put | .throws => linesOf id live es

namespace World

def live (w : World) (t : Nat) : Nat := (w.locals t).live

def unwritten (w : World) : List CChar :=
  match w.lock with
  | some (_, rest) => rest
  | none => []

theorem unwritten_held {rest : List CChar} (h : w.lock = some (t, rest)) : w.unwritten = rest := by
  rw [unwritten, h]

theorem unwritten_free (h : w.lock = none) : w.unwritten = [] := by
  rw [unwritten, h]

end World

def Counts (w : World) : Prop :=
  ∀ t, (w.locals t).depth = w.live t ∧ w.live t < UInt64.size

theorem initial_counts : Counts .initial := by
  intro t
  constructor
  · rfl
  · show 0 < UInt64.size
    decide

/-- What one thread does to its own tracers keeps every count. -/
theorem Counts.update (h : Counts w) {l : Local}
    (hlocals : w'.locals = Function.update w.locals t l)
    (hl : l.depth = l.live ∧ l.live < UInt64.size) : Counts w' := by
  intro u
  unfold World.live
  rw [hlocals]
  by_cases hu : u = t
  · subst hu
    rw [Function.update_self]
    exact hl
  · rw [Function.update_of_ne hu]
    exact h u

theorem live_update {l : Local} (hlocals : w'.locals = Function.update w.locals t l) :
    w'.live = Function.update w.live t l.live := by
  funext u
  unfold World.live
  rw [hlocals]
  by_cases hu : u = t
  · subst hu
    simp
  · rw [Function.update_of_ne hu, Function.update_of_ne hu]

def Prints (_ : World) (e : Event) : Prop := e.action ≠ .throws

/-- One step adds to the lines what the events say. -/
theorem step_lines (hc : Counts w) {e : Event} {r : Unit} (hprints : Prints w e)
    (hw : step id w e = .ok (w', r)) (es : List Event) :
    Counts w' ∧ w.output ++ w.unwritten ++ linesOf id w.live (e :: es) =
      w'.output ++ w'.unwritten ++ linesOf id w'.live es := by
  obtain ⟨t, action⟩ := e
  have hact : w.act id t action = .ok w' := step_act hw
  cases action with
  | construct call =>
    obtain ⟨lead, hfree, hlead, rfl⟩ := construct_ok hact
    refine ⟨hc, ?_⟩
    have harrow : arrow (w.live t) = lead := by
      rw [arrow, ← (hc t).1, hlead]
    change w.output ++ w.unwritten ++
      (line (id t) (arrow (w.live t)) call ++ linesOf id w.live es) =
      w.output ++ line (id t) lead call ++ linesOf id w.live es
    rw [World.unwritten_free hfree, harrow]
    simp
  | put =>
    obtain ⟨c, rest, hlock, rfl⟩ := put_ok hact
    refine ⟨hc, ?_⟩
    change w.output ++ w.unwritten ++ linesOf id w.live es =
      w.output ++ [c] ++ rest ++ linesOf id w.live es
    rw [World.unwritten_held hlock]
    simp
  | throws => exact absurd rfl hprints
  | finish =>
    obtain ⟨hlock, hroom, hw'⟩ := finish_ok hact
    have hlocals : w'.locals =
        Function.update w.locals t ⟨raise (w.locals t).depth, (w.locals t).live + 1⟩ := by rw [hw']
    have hraise : raise (w.locals t).depth = w.live t + 1 := by
      rw [(hc t).1]
      exact raise_eq hroom
    refine ⟨hc.update hlocals ⟨hraise, hroom⟩, ?_⟩
    rw [World.unwritten_held hlock, live_update hlocals, hw']
    rfl
  | destroy =>
    obtain ⟨n, hlive, hw'⟩ := destroy_ok hact
    have hlocals : w'.locals =
        Function.update w.locals t ⟨lower (w.locals t).depth, n⟩ := by rw [hw']
    have hn : w.live t = n + 1 := hlive
    have hlt : n < UInt64.size := by
      have hlt := (hc t).2
      omega
    have hlower : lower (w.locals t).depth = n := by
      rw [(hc t).1, hn]
      exact lower_succ hlt
    refine ⟨hc.update hlocals ⟨hlower, hlt⟩, ?_⟩
    rw [live_update hlocals, linesOf, hn, hw']
    rfl

/-- A run adds its lines to what is written or has still to be written. -/
theorem run_lines {es : List Event} (h : Run (step id) Prints w es w') (hc : Counts w) :
    w.output ++ w.unwritten ++ linesOf id w.live es = w'.output ++ w'.unwritten := by
  induction h with
  | nil => simp [linesOf]
  | cons allowed taken _ ih =>
    obtain ⟨hc, hlines⟩ := step_lines hc allowed taken _
    rw [hlines, ih hc]

/-- Where printing does not throw, the stream is made of whole lines whatever the
threads do in between, up to what one thread is about to write. -/
theorem lines_whole {es : List Event} (h : Run (step id) Prints .initial es w) :
    w.output ++ w.unwritten = linesOf id (fun _ => 0) es := by
  have hlines := run_lines h initial_counts
  exact hlines.symm

theorem lines_whole_nested :
    ∃ w : World, w.output ++ w.unwritten = chars "7 : f()\n7 : >g()\n" := by
  have hrun : ∃ w, Run (step (numeral 10)) anything .initial
      ([⟨7, .construct (.method (chars "f") [])⟩] ++ List.replicate 8 ⟨7, .put⟩ ++
        [⟨7, .finish⟩, ⟨7, .construct (.method (chars "g") [])⟩, ⟨7, .put⟩]) w :=
    exists_run _ (by decide +kernel)
  obtain ⟨w, h⟩ := hrun
  have hprints : Run (step (numeral 10)) Prints .initial _ w := h.restrict (by simp [Prints])
  exact ⟨w, (lines_whole hprints).trans rfl⟩

end Valuelib.Debug.Tracing
