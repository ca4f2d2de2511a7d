import Valuelib.Debug.AnyPrinterThreads
import Valuelib.Base.Interleaved
import Valuelib.Base.Refinement

namespace Valuelib.Debug.Printers
open Text Runs Refinement

section Effect

variable {τ : Type} {Held : τ → Type} {ε : Type}

def Control.holds : Control Held ε → Bool
  | .looksUp _ _ | .unlocks _ _ | .emplaces _ _ => true
  | _ => false

def Control.refers : Control Held ε → Option τ
  | .unlocks ti _ | .calls ti _ => some ti
  | _ => none

variable {demangle : τ → List CChar} {w w' : World Held ε} {i : Nat} {r : Response τ}

/-- What a step of one thread does to the others and to what is shared. -/
structure Effect [DecidableEq τ] (w w' : World Held ε) (i : Nat) (r : Response τ) : Prop where
  others : ∀ j, j ≠ i → w'.locals j = w.locals j
  mutex : w'.mutex =
    match (w.locals i).control.holds, (w'.locals i).control.holds with
    | false, true => some i
    | true, false => none
    | _, _ => w.mutex
  acquires : (w'.locals i).control.holds → (w.locals i).control.holds ∨ w.mutex = none
  refers : ∀ ti, (w'.locals i).control.refers = some ti →
    (w.locals i).control.refers = some ti ∨ w.map ti ≠ none
  map : w'.map = w.map ∧ r = .quiet ∨
    ∃ ti func, w'.map = (addPrinter w.map ti func).1 ∧ r = .added ti (addPrinter w.map ti func).2

@[simp] theorem put_locals_self (l : Local Held ε) : (w.put i l).locals i = l := by
  simp [World.put]

theorem put_locals_other {j : Nat} (h : j ≠ i) (l : Local Held ε) :
    (w.put i l).locals j = w.locals j := by
  simp [World.put, h]

theorem lock_ok {l : Local Held ε} (h : w.lock i l = .ok w') :
    w.mutex = none ∧ w' = { w.put i l with mutex := some i } := by
  unfold World.lock at h
  cases hlock : Mutex.lock w.mutex i with
  | error _ =>
    rw [hlock] at h
    cases h
  | ok mutex =>
    obtain ⟨hnone, rfl⟩ := Mutex.lock_ok hlock
    rw [hlock] at h
    cases h
    exact ⟨hnone, rfl⟩

theorem begin_ok {l : Local Held ε} (h : w.begin i l = .ok (w', r)) :
    (w.locals i).Ready ∧ w' = w.put i l ∧ r = .quiet := by
  unfold World.begin at h
  split at h
  · rename_i thrown hs hc
    cases h
    refine ⟨⟨(w.locals i).os, thrown, ?_⟩, rfl, rfl⟩
    rw [← hs, ← hc]
  · cases h

variable [DecidableEq τ]

/-- A step away from the mutex. -/
theorem effect_put {l : Local Held ε} (hfree : (w.locals i).control.holds = false)
    (hl : l.control.holds = false) (hrefers : l.control.refers = none) :
    Effect w (w.put i l) i .quiet := by
  refine ⟨fun j hj => put_locals_other hj l, ?_, ?_, ?_, .inl ⟨rfl, rfl⟩⟩
  · simp [hfree, hl, World.put]
  · simp [hl]
  · simp [hrefers]

theorem effect_lock {l : Local Held ε} (h : (w.lock i l).map (·, .quiet) = .ok (w', r))
    (hfree : (w.locals i).control.holds = false)
    (hl : l.control.holds = true) (hrefers : l.control.refers = none) : Effect w w' i r := by
  cases hlock : w.lock i l with
  | error _ =>
    rw [hlock] at h
    cases h
  | ok u =>
    rw [hlock] at h
    cases h
    obtain ⟨hmutex, rfl⟩ := lock_ok hlock
    refine ⟨fun j hj => put_locals_other hj l, ?_, ?_, ?_, .inl ⟨rfl, rfl⟩⟩
    · simp [hl, hfree]
    · simp [hmutex]
    · simp [hrefers]

theorem effect_print {l : Local Held ε} (hfree : (w.locals i).control.holds = false)
    (a : Any Held) : Effect w (w.put i (l.print a)) i .quiet := by
  match a with
  | none => exact effect_put hfree rfl rfl
  | some ⟨ti, val⟩ => exact effect_put hfree rfl rfl

/-- What the next step of a thread does to the others and to what is shared. -/
theorem next_effect (h : w.next demangle i = .ok (w', r)) : Effect w w' i r := by
  unfold World.next at h
  cases hc : (w.locals i).control with
  | ended thrown =>
    have hfree : (w.locals i).control.holds = false := by rw [hc]; rfl
    cases hs : (w.locals i).stack with
    | nil => simp [hc, hs] at h
    | cons activation stack =>
      cases activation with
      | handler ti =>
        simp only [hc, hs, Except.ok.injEq, Prod.mk.injEq] at h
        obtain ⟨rfl, rfl⟩ := h
        exact effect_put hfree rfl rfl
      | caller rest =>
        simp only [hc, hs, Except.ok.injEq, Prod.mk.injEq] at h
        obtain ⟨rfl, rfl⟩ := h
        exact effect_put hfree rfl rfl
  | works program =>
    have hfree : (w.locals i).control.holds = false := by rw [hc]; rfl
    cases program with
    | done =>
      simp only [hc, Except.ok.injEq, Prod.mk.injEq] at h
      obtain ⟨rfl, rfl⟩ := h
      exact effect_put hfree rfl rfl
    | write text rest =>
      simp only [hc, Except.ok.injEq, Prod.mk.injEq] at h
      obtain ⟨rfl, rfl⟩ := h
      exact effect_put hfree rfl rfl
    | print a rest =>
      simp only [hc, Except.ok.injEq, Prod.mk.injEq] at h
      obtain ⟨rfl, rfl⟩ := h
      exact effect_print hfree a
    | throw e =>
      simp only [hc, Except.ok.injEq, Prod.mk.injEq] at h
      obtain ⟨rfl, rfl⟩ := h
      exact effect_put hfree rfl rfl
  | locks ti val =>
    simp only [hc] at h
    exact effect_lock h (by rw [hc]; rfl) rfl rfl
  | looksUp ti val =>
    cases hti : w.map ti with
    | none =>
      simp only [hc, hti, Except.ok.injEq, Prod.mk.injEq] at h
      obtain ⟨rfl, rfl⟩ := h
      refine ⟨fun j hj => put_locals_other hj _, ?_, ?_, ?_, .inl ⟨rfl, rfl⟩⟩
      · simp [hc, Control.holds]
      · simp [Control.holds]
      · simp [Control.refers]
    | some func =>
      simp only [hc, hti, Except.ok.injEq, Prod.mk.injEq] at h
      obtain ⟨rfl, rfl⟩ := h
      refine ⟨fun j hj => put_locals_other hj _, ?_, ?_, ?_, .inl ⟨rfl, rfl⟩⟩
      · simp [hc, Control.holds, World.put]
      · simp [hc, Control.holds]
      · simp [Control.refers, hti]
  | unlocks ti val =>
    simp only [hc, Except.ok.injEq, Prod.mk.injEq] at h
    obtain ⟨rfl, rfl⟩ := h
    refine ⟨fun j hj => put_locals_other hj _, ?_, ?_, ?_, .inl ⟨rfl, rfl⟩⟩
    · simp [hc, Control.holds]
    · simp [Control.holds]
    · simp [hc, Control.refers]
  | calls ti val =>
    have hfree : (w.locals i).control.holds = false := by rw [hc]; rfl
    cases hti : w.map ti with
    | none => simp [hc, hti] at h
    | some func =>
      simp only [hc, hti, Except.ok.injEq, Prod.mk.injEq] at h
      obtain ⟨rfl, rfl⟩ := h
      exact effect_put hfree rfl rfl
  | locksToAdd ti func =>
    simp only [hc] at h
    exact effect_lock h (by rw [hc]; rfl) rfl rfl
  | emplaces ti func =>
    simp only [hc, Except.ok.injEq, Prod.mk.injEq] at h
    obtain ⟨rfl, rfl⟩ := h
    refine ⟨fun j hj => put_locals_other hj _, ?_, ?_, ?_, .inr ⟨ti, func, rfl, rfl⟩⟩
    · simp [hc, Control.holds]
    · simp [Control.holds]
    · simp [Control.refers]

theorem step_effect {e : Event Held ε} (h : step demangle w e = .ok (w', r)) :
    Effect w w' e.thread r := by
  obtain ⟨i, action⟩ := e
  cases action with
  | print a =>
    obtain ⟨⟨os, thrown, hready⟩, rfl, rfl⟩ := begin_ok h
    exact effect_print (by rw [hready]; rfl) a
  | addPrinter ti func =>
    obtain ⟨⟨os, thrown, hready⟩, rfl, rfl⟩ := begin_ok h
    exact effect_put (by rw [hready]; rfl) rfl rfl
  | next => exact next_effect h

end Effect

section Guarded

variable {τ : Type} {Held : τ → Type} {ε : Type}

/-- The thread that holds the mutex is the one at work between its lock and unlock,
and what `printer` refers to is in the map. -/
structure Guarded (w : World Held ε) : Prop where
  holder : Mutex.Kept w.mutex (fun i => (w.locals i).control.holds)
  found : ∀ i ti, (w.locals i).control.refers = some ti → w.map ti ≠ none

def Control.acquires : Control Held ε → Bool
  | .locks _ _ | .locksToAdd _ _ => true
  | _ => false

theorem Control.acquires_of_holds {control : Control Held ε} (h : control.holds = true) :
    control.acquires = false := by
  cases control <;> first | rfl | cases h

variable [DecidableEq τ] {demangle : τ → List CChar} {w w' : World Held ε} {i : Nat}
  {r : Response τ} {es : List (Event Held ε)}

omit [DecidableEq τ] in
theorem initial_guarded : Guarded (.initial : World Held ε) := by
  constructor
  · intro i
    simp [World.initial, Control.holds]
  · intro i ti hrefers
    cases hrefers

/-- No printer function is ever replaced or removed. -/
theorem Effect.kept (h : Effect w w' i r) {ti : τ} {func : PrintFunction Held ε ti}
    (hti : w.map ti = some func) : w'.map ti = some func := by
  rcases h.map with ⟨hmap, _⟩ | ⟨u, added, hmap, _⟩
  · rw [hmap]
    exact hti
  · rw [hmap, addPrinter_apply, hti, Option.some_or]

theorem Effect.known (h : Effect w w' i r) {ti : τ} (hti : w.map ti ≠ none) : w'.map ti ≠ none := by
  obtain ⟨func, hfunc⟩ := Option.ne_none_iff_exists'.mp hti
  rw [h.kept hfunc]
  exact Option.some_ne_none func

theorem Effect.turn (h : Effect w w' i r) : Mutex.Turn w.mutex w'.mutex i
    (fun j => (w.locals j).control.holds) (fun j => (w'.locals j).control.holds) where
  others j hj := by rw [h.others j hj]
  changed := h.mutex
  free := h.acquires

/-- A step keeps the mutex with the thread at work and the printer in the map. -/
theorem Effect.guarded (h : Effect w w' i r) (hw : Guarded w) : Guarded w' := by
  refine ⟨h.turn.kept hw.holder, ?_⟩
  intro j ti hti
  by_cases hji : j = i
  · subst hji
    rcases h.refers ti hti with hold | hnew
    · exact h.known (hw.found j ti hold)
    · exact h.known hnew
  · rw [h.others j hji] at hti
    exact h.known (hw.found j ti hti)

theorem reachable_guarded (h : Run (step demangle) anything .initial es w) : Guarded w := by
  apply h.invariant _ initial_guarded
  intro w e w' r hw _ hstep
  exact (step_effect hstep).guarded hw

omit [DecidableEq τ] in
theorem lock_free (hmutex : w.mutex = none) (l : Local Held ε) :
    w.lock i l = .ok { w.put i l with mutex := some i } := by
  rw [World.lock, hmutex]
  rfl

omit [DecidableEq τ] in
theorem lock_waits {j : Nat} (hmutex : w.mutex = some j) (hj : j ≠ i) (l : Local Held ε) :
    w.lock i l = .error .waits := by
  rw [World.lock, hmutex, Mutex.lock_waits hj]
  rfl

theorem next_acquires (demangle : τ → List CChar) (hi : (w.locals i).control.acquires = true)
    (hmutex : w.mutex = none) : ∃ w' r, w.next demangle i = .ok (w', r) := by
  unfold World.next
  cases hc : (w.locals i).control with
  | locks ti val => simp [hc, lock_free hmutex, Except.map]
  | locksToAdd ti func => simp [hc, lock_free hmutex, Except.map]
  | _ => simp [hc, Control.acquires] at hi

theorem next_waits {j : Nat} (hi : (w.locals i).control.acquires = true) (hmutex : w.mutex = some j)
    (hj : j ≠ i) : w.next demangle i = .error .waits := by
  unfold World.next
  cases hc : (w.locals i).control with
  | locks ti val => simp [hc, lock_waits hmutex hj, Except.map]
  | locksToAdd ti func => simp [hc, lock_waits hmutex hj, Except.map]
  | _ => simp [hc, Control.acquires] at hi

/-- A thread that does not need the mutex can go on. -/
theorem next_moves (demangle : τ → List CChar) (hw : Guarded w)
    (hi : (w.locals i).control.acquires = false) (hready : ¬ (w.locals i).Ready) :
    ∃ w' r, w.next demangle i = .ok (w', r) := by
  unfold World.next
  cases hc : (w.locals i).control with
  | ended thrown =>
    cases hs : (w.locals i).stack with
    | nil =>
      apply absurd _ hready
      exact ⟨(w.locals i).os, thrown, by rw [← hs, ← hc]⟩
    | cons activation stack => cases activation <;> simp [hc, hs]
  | works program => cases program <;> simp [hc]
  | looksUp ti val => cases hti : w.map ti <;> simp [hc, hti]
  | unlocks ti val => simp [hc]
  | calls ti val =>
    have hfound := hw.found i ti (by rw [hc]; rfl)
    obtain ⟨func, hfunc⟩ := Option.ne_none_iff_exists'.mp hfound
    simp [hc, hfunc]
  | emplaces ti func => simp [hc]
  | _ => simp [hc, Control.acquires] at hi

/-- The steps with the mutex that a thread has after its next one. -/
def Control.left : Control Held ε → Nat
  | .looksUp _ _ => 1
  | _ => 0

theorem next_releases (hk : Mutex.Kept w.mutex (fun i => (w.locals i).control.holds))
    (hmutex : w.mutex = some i) (h : w.next demangle i = .ok (w', r)) :
    w'.mutex = none ∨ w'.mutex = some i ∧
      (w'.locals i).control.left < (w.locals i).control.left := by
  have hholds := (hk i).mp hmutex
  unfold World.next at h
  cases hc : (w.locals i).control with
  | looksUp ti val =>
    cases hti : w.map ti with
    | none =>
      simp only [hc, hti, Except.ok.injEq, Prod.mk.injEq] at h
      rw [← h.1]
      exact .inl rfl
    | some func =>
      simp only [hc, hti, Except.ok.injEq, Prod.mk.injEq] at h
      rw [← h.1]
      exact .inr ⟨hmutex, by simp [Control.left]⟩
  | unlocks ti val =>
    simp only [hc, Except.ok.injEq, Prod.mk.injEq] at h
    rw [← h.1]
    exact .inl rfl
  | emplaces ti func =>
    simp only [hc, Except.ok.injEq, Prod.mk.injEq] at h
    rw [← h.1]
    exact .inl rfl
  | _ => simp [hc, Control.holds] at hholds

/-- A thread holds the mutex for two more steps at most. -/
theorem threads_fair (demangle : τ → List CChar) :
    Mutex.Fair (step demangle) (fun i => ⟨i, .next⟩) (fun w : World Held ε => Guarded w) World.mutex
      (fun w i => (w.locals i).control.acquires = true) (fun w i => (w.locals i).Ready)
      (fun w i => (w.locals i).control.left) where
  kept hw hstep := (step_effect hstep).guarded hw
  moves hw hwants hready := next_moves demangle hw (Bool.eq_false_iff.mpr hwants) hready
  locks hwants hmutex := next_acquires demangle hwants hmutex
  waits hwants hj hmutex := next_waits hwants hmutex hj
  busy {w i} hw hmutex := by
    have hholds : (w.locals i).control.holds = true := (hw.holder i).mp hmutex
    refine ⟨by simp [Control.acquires_of_holds hholds], ?_⟩
    rintro ⟨os, thrown, hlocal⟩
    rw [hlocal] at hholds
    cases hholds
  releases hw hmutex hstep := next_releases hw.holder hmutex hstep
  patient hwants hij hstep := by
    rw [(step_effect hstep).others _ hij]
    exact hwants

omit [DecidableEq τ] in
theorem left_le (c : Control Held ε) : c.left ≤ 1 := by
  cases c <;> simp [Control.left]

end Guarded

section Answers

variable {τ : Type} {Held : τ → Type} {ε : Type} [DecidableEq τ] {demangle : τ → List CChar}
  {w w' w'' : World Held ε} {i : Nat} {r : Response τ} {rs : List (Response τ)} {t : τ}

/-- What was answered about a type, and whether the map has it before and after. -/
inductive Told (t : τ) (w w' : World Held ε) (rs : List (Response τ)) : Prop where
  | known (before : w.map t ≠ none) (after : w'.map t ≠ none)
      (answers : rs.count (.added t true) = 0)
  | never (before : w.map t = none) (after : w'.map t = none) (answers : ∀ b, .added t b ∉ rs)
  | once (before : w.map t = none) (after : w'.map t ≠ none)
      (answers : rs.count (.added t true) = 1)

/-- One step, seen from a type: an `add_printer` for it has its answer from the map
as it was, and the type is in the map afterwards. -/
theorem Effect.answer (h : Effect w w' i r) (t : τ) :
    (w'.map t = none ↔ w.map t = none) ∧ (∀ b, r ≠ .added t b) ∨
      w'.map t ≠ none ∧
        (w.map t ≠ none ∧ r = .added t false ∨ w.map t = none ∧ r = .added t true) := by
  rcases h.map with ⟨hmap, hr⟩ | ⟨u, func, hmap, hr⟩
  · left
    rw [hmap, hr]
    exact ⟨Iff.rfl, fun _ h => by cases h⟩
  · by_cases hut : u = t
    · subst hut
      right
      rw [hmap, hr]
      cases hu : w.map u with
      | none => simp [addPrinter, hu]
      | some _ => simp [addPrinter, hu]
    · left
      have hsame : w'.map t = w.map t := by
        rw [hmap, addPrinter_apply]
        simp [first, hut]
      rw [hsame, hr]
      exact ⟨Iff.rfl, fun _ h => hut (Response.added.inj h).1⟩

theorem Told.cons (h : Told t w' w'' rs) (heffect : Effect w w' i r) : Told t w w'' (r :: rs) := by
  rcases heffect.answer t with ⟨hsame, hr⟩ | ⟨hafter, ⟨hbefore, hr⟩ | ⟨hbefore, hr⟩⟩
  · have hcount : (r :: rs).count (.added t true) = rs.count (.added t true) :=
      List.count_cons_of_ne (hr true)
    cases h with
    | known before after answers => exact .known (mt hsame.mpr before) after (hcount.trans answers)
    | never before after answers =>
      refine .never (hsame.mp before) after ?_
      intro b hb
      rcases List.mem_cons.mp hb with heq | hmem
      · exact hr b heq.symm
      · exact answers b hmem
    | once before after answers => exact .once (hsame.mp before) after (hcount.trans answers)
  · subst hr
    cases h with
    | known _ after answers => exact .known hbefore after (by simpa using answers)
    | never before _ _ => exact absurd before hafter
    | once before _ _ => exact absurd before hafter
  · subst hr
    cases h with
    | known _ after answers => exact .once hbefore after (by simp [answers])
    | never before _ _ => exact absurd before hafter
    | once before _ _ => exact absurd before hafter

/-- Over a whole run the answers about each type are told by the maps at its ends. -/
theorem run_told {es : List (Event Held ε)} (h : Run (step demangle) anything w es w') :
    ∃ rs, answers (step demangle) w es = some rs ∧ ∀ t, Told t w w' rs := by
  induction h with
  | nil w =>
    refine ⟨[], rfl, ?_⟩
    intro t
    by_cases ht : w.map t = none
    · exact .never ht ht (fun _ h => nomatch h)
    · exact .known ht ht rfl
  | @cons w v w' e es r _ taken _ ih =>
    obtain ⟨rs, hanswers, htold⟩ := ih
    refine ⟨r :: rs, ?_, fun t => (htold t).cons (step_effect taken)⟩
    simp only [answers, taken, hanswers, Option.map_some]

end Answers

section Results

variable {τ : Type} {Held : τ → Type} {ε : Type} [DecidableEq τ] {w w' : World Held ε}

/-- In no order of the threads' steps is `printer` left without its element, the mutex
locked twice or a thread stuck: it waits for another one's two next steps at most. -/
theorem never_stuck (demangle : τ → List CChar) {es : List (Event Held ε)}
    (h : Run (step demangle) anything .initial es w) (i : Nat) (hi : ¬ (w.locals i).Ready) :
    (∀ reason, step demangle w ⟨i, .next⟩ ≠ .error (.undefined reason)) ∧
      ∃ j n w', n ≤ 2 ∧
        Run (step demangle) anything w (List.replicate n ⟨j, .next⟩ ++ [⟨i, .next⟩]) w' := by
  have hguarded := reachable_guarded h
  exact (threads_fair demangle).served (fun _ _ => left_le _) hguarded hi

/-- A print waits for an `add_printer`. -/
theorem never_stuck_waiting :
    ∃ (j n : Nat) (w w' : World (fun _ : Unit => Unit) Empty), w.mutex = some 0 ∧ n ≤ 2 ∧
      Run (step (fun _ => chars "int")) anything w
        (List.replicate n ⟨j, .next⟩ ++ [⟨1, .next⟩]) w' := by
  have hrun : ∃ w : World (fun _ : Unit => Unit) Empty,
      Run (step (fun _ => chars "int")) anything .initial
        [⟨0, .addPrinter () (fun _ => .done)⟩, ⟨1, .print (some ⟨(), ()⟩)⟩, ⟨0, .next⟩] w ∧
      w.mutex = some 0 ∧ (w.locals 1).control = .locks () () :=
    ⟨_, run_of_runAll rfl, rfl, rfl⟩
  obtain ⟨w, h, hmutex, hcontrol⟩ := hrun
  have hready : ¬ (w.locals 1).Ready := by
    intro hready
    obtain ⟨os, thrown, hlocal⟩ := hready
    rw [hlocal] at hcontrol
    cases hcontrol
  obtain ⟨_, j, n, w', hn, hnext⟩ := never_stuck (fun _ => chars "int") h 1 hready
  exact ⟨j, n, w, w', hmutex, hn, hnext⟩

/-- Of all calls of `add_printer` for a type, however they overlap, one is answered with
`true`, and from then on the map has the type. -/
theorem added_once (demangle : τ → List CChar) {es : List (Event Held ε)}
    (h : Run (step demangle) anything .initial es w) :
    ∃ rs, answers (step demangle) .initial es = some rs ∧ ∀ t, rs.count (.added t true) ≤ 1 ∧
      ((∃ b, .added t b ∈ rs) ↔ .added t true ∈ rs) ∧ (.added t true ∈ rs ↔ w.map t ≠ none) := by
  obtain ⟨rs, hanswers, htold⟩ := run_told h
  refine ⟨rs, hanswers, ?_⟩
  intro t
  cases htold t with
  | known before _ _ => exact absurd rfl before
  | never _ after answers =>
    have hcount := List.count_eq_zero.mpr (answers true)
    simp [hcount, answers, after]
  | once _ after answers =>
    have hmem : .added t true ∈ rs := List.count_pos_iff.mp (by omega)
    refine ⟨by omega, ⟨?_, ?_⟩, ?_, ?_⟩
    · intro _
      exact hmem
    · intro h
      exact ⟨true, h⟩
    · intro _
      exact after
    · intro _
      exact hmem

/-- Two threads register a printer for one type at once. -/
theorem added_once_race :
    ∃ (w : World (fun _ : Unit => Unit) Empty) (rs : List (Response Unit)),
      w.map () ≠ none ∧ rs.count (.added () true) ≤ 1 := by
  have hrun : ∃ w : World (fun _ : Unit => Unit) Empty,
      Run (step (fun _ => chars "int")) anything .initial
        [⟨0, .addPrinter () (fun _ => .done)⟩,
          ⟨1, .addPrinter () (fun _ => .write (chars "1") .done)⟩, ⟨1, .next⟩, ⟨1, .next⟩,
          ⟨0, .next⟩, ⟨0, .next⟩] w ∧
      (w.map ()).isSome := ⟨_, run_of_runAll rfl, rfl⟩
  obtain ⟨w, h, hmap⟩ := hrun
  obtain ⟨rs, _, htold⟩ := added_once (fun _ => chars "int") h
  exact ⟨w, rs, Option.isSome_iff_ne_none.mp hmap, (htold ()).1⟩

end Results

end Valuelib.Debug.Printers
