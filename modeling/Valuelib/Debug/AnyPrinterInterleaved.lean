import Valuelib.Debug.AnyPrinterConcurrent

namespace Valuelib.Debug.Printers
open Text Runs

section Alone

variable {τ : Type} {Held : τ → Type} {ε : Type}

/-- The next step of a thread that has the registry to itself, as long as it adds no
printer and meets registered types only. -/
def Local.next (demangle : τ → List CChar) (map : Registry Held ε) (l : Local Held ε) :
    Option (Local Held ε) :=
  match l.control with
  | .ended thrown =>
    match l.stack with
    | [] => none
    | .handler ti :: stack =>
      let (os, thrown) := catchOutOfRange demangle ti (l.os, thrown)
      some ⟨os, stack, .ended thrown⟩
    | .caller rest :: stack => some ⟨l.os, stack, .works (rest thrown)⟩
  | .works .done => some { l with control := .ended none }
  | .works (.write text rest) => some { l with os := l.os ++ text, control := .works rest }
  | .works (.print a rest) => some (Local.print { l with stack := .caller rest :: l.stack } a)
  | .works (.throw e) => some { l with control := .ended (some e) }
  | .locks ti val => some { l with control := .looksUp ti val }
  | .looksUp ti val => (map ti).map (fun _ => { l with control := .unlocks ti val })
  | .unlocks ti val => some { l with control := .calls ti val }
  | .calls ti val =>
    (map ti).map (fun func => ⟨l.os, .handler ti :: l.stack, .works (func val)⟩)
  | .locksToAdd _ _ | .emplaces _ _ => none

variable {demangle : τ → List CChar} {map : Registry Held ε} {os os' : List CChar}
  {thrown : Option (Exception ε)}

/-- A printer function at work, given that its prints come to their ends. -/
theorem reaches_run {print : Any Held → List CChar → Option (Outcome ε)}
    (hprint : ∀ a os os' thrown, print a os = some (os', thrown) → ∀ stack control,
      Reaches (Local.next demangle map) (Local.print ⟨os, stack, control⟩ a)
        ⟨os', stack, .ended thrown⟩)
    {program : Program Held ε} (h : program.run print os = some (os', thrown))
    (stack : List (Activation Held ε)) :
    Reaches (Local.next demangle map) ⟨os, stack, .works program⟩ ⟨os', stack, .ended thrown⟩ := by
  induction program generalizing os with
  | done =>
    cases h
    exact .cons rfl (.here _)
  | write text rest ih => exact .cons rfl (ih h)
  | throw e =>
    cases h
    exact .cons rfl (.here _)
  | print a rest ih =>
    rw [Program.run] at h
    cases ha : print a os with
    | none =>
      rw [ha] at h
      cases h
    | some inner =>
      obtain ⟨between, caught⟩ := inner
      rw [ha] at h
      have hinner := hprint a os between caught ha (.caller rest :: stack) (.works (.print a rest))
      have hback : Local.next demangle map ⟨between, .caller rest :: stack, .ended caught⟩ =
          some ⟨between, stack, .works (rest caught)⟩ := rfl
      exact .cons rfl (hinner.trans (.cons hback (ih caught h)))

/-- The steps of a thread alone make up the print. -/
theorem reaches_print {depth : Nat} {a : Any Held}
    (h : printKnown demangle map depth a os = some (os', thrown))
    (stack : List (Activation Held ε)) (control : Control Held ε) :
    Reaches (Local.next demangle map) (Local.print ⟨os, stack, control⟩ a)
      ⟨os', stack, .ended thrown⟩ := by
  induction depth generalizing a os os' thrown stack control with
  | zero => cases h
  | succ depth ih =>
    match a with
    | none =>
      cases h
      exact .here _
    | some ⟨ti, val⟩ =>
      rw [printKnown] at h
      cases hti : map ti with
      | none =>
        rw [hti] at h
        cases h
      | some func =>
        rw [hti] at h
        obtain ⟨inner, hinner, hcatch⟩ := Option.map_eq_some_iff.mp h
        have hlook : Local.next demangle map ⟨os, stack, .looksUp ti val⟩ =
            some ⟨os, stack, .unlocks ti val⟩ := by
          simp only [Local.next, hti, Option.map_some]
        have hcall : Local.next demangle map ⟨os, stack, .calls ti val⟩ =
            some ⟨os, .handler ti :: stack, .works (func val)⟩ := by
          simp only [Local.next, hti, Option.map_some]
        have hcaught : Local.next demangle map ⟨inner.1, .handler ti :: stack, .ended inner.2⟩ =
            some ⟨os', stack, .ended thrown⟩ := by
          simp only [Local.next, hcatch]
        have hruns := reaches_run (fun _ _ _ _ ha => ih ha) hinner (.handler ti :: stack)
        exact .cons rfl (.cons hlook (.cons rfl (.cons hcall
          (hruns.trans (.cons hcaught (.here _))))))

end Alone

section Interleaved

variable {τ : Type} {Held : τ → Type} {ε : Type} [DecidableEq τ] {demangle : τ → List CChar}
  {map : Registry Held ε} {w w' : World Held ε} {i : Nat} {r : Response τ} {l l' : Local Held ε}

/-- Among others, the thread does what it would do alone with the types it knows. -/
theorem next_alone (hkept : ∀ t func, map t = some func → w.map t = some func)
    (h : w.next demangle i = .ok (w', r)) (hl : Local.next demangle map (w.locals i) = some l) :
    w'.locals i = l := by
  unfold World.next at h
  unfold Local.next at hl
  cases hc : (w.locals i).control with
  | ended thrown =>
    cases hs : (w.locals i).stack with
    | nil => simp [hc, hs] at hl
    | cons activation stack =>
      cases activation with
      | handler ti =>
        simp only [hc, hs, Except.ok.injEq, Prod.mk.injEq, Option.some.injEq] at h hl
        rw [← h.1, ← hl]
        exact put_locals_self _
      | caller rest =>
        simp only [hc, hs, Except.ok.injEq, Prod.mk.injEq, Option.some.injEq] at h hl
        rw [← h.1, ← hl]
        exact put_locals_self _
  | works program =>
    cases program with
    | _ =>
      simp only [hc, Except.ok.injEq, Prod.mk.injEq, Option.some.injEq] at h hl
      rw [← h.1, ← hl]
      exact put_locals_self _
  | locks ti val =>
    simp only [hc, Option.some.injEq] at h hl
    cases hlock : w.lock i { w.locals i with control := .looksUp ti val } with
    | error _ =>
      rw [hlock] at h
      cases h
    | ok u =>
      rw [hlock] at h
      cases h
      rw [(lock_ok hlock).2, ← hl]
      exact put_locals_self _
  | looksUp ti val =>
    obtain ⟨func, hfunc, hl⟩ := Option.map_eq_some_iff.mp (by simpa only [hc] using hl)
    simp only [hc, hkept ti func hfunc, Except.ok.injEq, Prod.mk.injEq] at h
    rw [← h.1, ← hl]
    exact put_locals_self _
  | unlocks ti val =>
    simp only [hc, Except.ok.injEq, Prod.mk.injEq, Option.some.injEq] at h hl
    rw [← h.1, ← hl]
    exact put_locals_self _
  | calls ti val =>
    obtain ⟨func, hfunc, hl⟩ := Option.map_eq_some_iff.mp (by simpa only [hc] using hl)
    simp only [hc, hkept ti func hfunc, Except.ok.injEq, Prod.mk.injEq] at h
    rw [← h.1, ← hl]
    exact put_locals_self _
  | locksToAdd ti func => simp [hc] at hl
  | emplaces ti func => simp [hc] at hl

/-- A thread that adds no printer, as a part of the world. -/
theorem thread_part (demangle : τ → List CChar) (map : Registry Held ε) (i : Nat) :
    Part (step demangle) (fun _ e => e.thread = i → e.action = .next)
      (fun w => ∀ t func, map t = some func → w.map t = some func) (fun w => w.locals i)
      (fun e => decide (e.thread = i)) (Local.next demangle map) where
  kept := by
    intro w e w' r hkept _ hstep t func ht
    exact (step_effect hstep).kept (hkept t func ht)
  mine := by
    intro w e w' r l hkept hnext hown hstep hl
    obtain ⟨thread, action⟩ := e
    have hthread : thread = i := of_decide_eq_true hown
    have haction : action = .next := hnext hthread
    subst hthread haction
    exact next_alone hkept hstep hl
  others := by
    intro w e w' r hown hstep
    exact (step_effect hstep).others i (Ne.symm (of_decide_eq_false hown))

theorem step_ready {e : Event Held ε} (hready : (w.locals i).Ready)
    (hnext : e.thread = i → e.action = .next) (hown : decide (e.thread = i) = true) :
    step demangle w e ≠ .ok (w', r) := by
  intro hstep
  obtain ⟨thread, action⟩ := e
  have hthread : thread = i := of_decide_eq_true hown
  have haction : action = .next := hnext hthread
  subst hthread haction
  obtain ⟨os, thrown, hlocal⟩ := hready
  simp [step, World.next, hlocal] at hstep

omit [DecidableEq τ] in
theorem Local.Ready.next_none (h : l.Ready) : Local.next demangle map l = none := by
  obtain ⟨os, thrown, rfl⟩ := h
  rfl

end Interleaved

section Result

variable {τ : Type} {Held : τ → Type} {ε : Type} [DecidableEq τ] {demangle : τ → List CChar}
  {w : World Held ε} {i : Nat} {os' : List CChar} {thrown : Option (Exception ε)}

/-- A print that knows its types takes the same number of its thread's steps and leaves
the same text, whatever the other threads print and add in between. -/
theorem concurrent_print {a : Any Held}
    (h : PrintsKnown demangle w.map a (w.locals i).os (os', thrown)) :
    ∃ n, ∀ es w', Run (step demangle) anything w (⟨i, .print a⟩ :: es) w' →
      (∀ e ∈ es, e.thread = i → e.action = .next) →
        es.countP (fun e => e.thread = i) ≤ n ∧
        ((w'.locals i).Ready ↔ es.countP (fun e => e.thread = i) = n) ∧
        ((w'.locals i).Ready → w'.locals i = ⟨os', [], .ended thrown⟩) := by
  obtain ⟨depth, h⟩ := h
  obtain ⟨n, hn⟩ := reaches_print h [] (w.locals i).control
  refine ⟨n, ?_⟩
  intro es w' hrun hes
  cases hrun with
  | @cons _ v _ _ _ r _ taken rest =>
    obtain ⟨⟨os, before, hready⟩, rfl, _⟩ := begin_ok taken
    have hstart : ((w.put i ((w.locals i).print a)).locals i) =
        Local.print ⟨(w.locals i).os, [], (w.locals i).control⟩ a := by
      rw [put_locals_self, hready]
    obtain ⟨hle, hrest⟩ := (thread_part demangle w.map i).follows
      (fun _ _ _ _ hv => step_ready ⟨os', thrown, hv⟩) (rest.restrict (fun _ => hes))
      (fun _ _ ht => ht) (hstart ▸ hn)
    cases hleft : n - es.countP (fun e => e.thread = i) with
    | zero =>
      rw [hleft] at hrest
      have hlast := Option.some.inj hrest
      refine ⟨hle, ⟨?_, ?_⟩, ?_⟩
      · intro _
        omega
      · intro _
        exact ⟨os', thrown, hlast⟩
      · intro _
        exact hlast
    | succ left =>
      have hbusy : ¬ (w'.locals i).Ready := by
        intro hready
        rw [hleft, repeated, hready.next_none] at hrest
        cases hrest
      refine ⟨hle, ⟨?_, ?_⟩, ?_⟩
      · intro h
        exact absurd h hbusy
      · intro h
        omega
      · intro h
        exact absurd h hbusy

/-- Another thread adds a printer while the one that was found is used without the mutex. -/
theorem concurrent_print_growing :
    ∃ w' : World (fun _ : Bool => Unit) Empty, w'.map false ≠ none ∧
      w'.locals 0 = ⟨chars "(" ++ chars "null" ++ chars ")", [], .ended none⟩ := by
  let func : PrintFunction (fun _ : Bool => Unit) Empty true := fun _ =>
    .write (chars "(") (.print none (fun _ => .write (chars ")") .done))
  let w : World (fun _ : Bool => Unit) Empty :=
    { World.initial with map := Function.update (fun _ => none) true (some func) }
  have hknown : PrintsKnown (fun _ => chars "int") w.map (some ⟨true, ()⟩) (w.locals 0).os
      (chars "(" ++ chars "null" ++ chars ")", none) := ⟨2, rfl⟩
  let es : List (Event (fun _ : Bool => Unit) Empty) :=
    List.replicate 3 ⟨0, .next⟩ ++
      [⟨1, .addPrinter false (fun _ => .done)⟩, ⟨1, .next⟩, ⟨0, .next⟩, ⟨1, .next⟩] ++
      List.replicate 6 ⟨0, .next⟩
  have hrun : ∃ w', Run (step (fun _ => chars "int")) anything w
      (⟨0, .print (some ⟨true, ()⟩)⟩ :: es) w' ∧ (w'.map false).isSome ∧ (w'.locals 0).Ready :=
    ⟨_, run_of_runAll rfl, rfl, ⟨_, _, rfl⟩⟩
  obtain ⟨w', h, hmap, hready⟩ := hrun
  obtain ⟨n, hprint⟩ := concurrent_print hknown
  obtain ⟨_, _, hlast⟩ := hprint es w' h (by simp [es])
  exact ⟨w', Option.isSome_iff_ne_none.mp hmap, hlast hready⟩

end Result

end Valuelib.Debug.Printers
