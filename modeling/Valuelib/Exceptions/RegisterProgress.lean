import Valuelib.Exceptions.RegisterSettled

namespace Valuelib.Exceptions.Raising
open Runs

def Control.left : Control → Nat
  | .registersBase _ _ => 3
  | .registersConst _ _ => 2
  | .registersNested _ _ | .finds _ _ => 1
  | _ => 0

def Control.work : Control → Nat
  | .ready => 0
  | .locksToRegister _ _ => 5
  | .registersBase _ _ | .locksToFind _ _ => 4
  | .registersConst _ _ | .finds _ _ => 3
  | .registersNested _ _ | .unlocksToWrap _ _ => 2
  | .unlocks _ | .wraps _ _ => 1

/-- What the thread has thrown, or is sure to throw whatever the register has. -/
def Local.throws (codes : Codes) (l : Local) : Option Thrown :=
  match l.control with
  | .ready => l.current
  | .locksToRegister _ thrown | .registersBase _ thrown | .registersConst _ thrown
  | .registersNested _ thrown | .unlocks thrown => some thrown
  | .unlocksToWrap message e | .wraps message e => some (defaultWrap codes message e)
  | .locksToFind _ _ | .finds _ _ => none

variable {codes : Codes} {w w' : World} {i j : Nat}

theorem left_le (c : Control) : c.left ≤ 3 := by
  cases c <;> simp [Control.left]

theorem work_le (c : Control) : c.work ≤ 5 := by
  cases c <;> simp [Control.work]

theorem acquires_of_holds {c : Control} (h : c.holds = true) : c.acquires = false := by
  cases c <;> first | rfl | cases h

theorem lock_free (hmutex : w.mutex = none) (l : Local) :
    w.lock i l = .ok { w.put i l with mutex := some i } := by
  rw [World.lock, hmutex]
  rfl

theorem next_acquires (codes : Codes) (hi : (w.locals i).control.acquires = true)
    (hmutex : w.mutex = none) : ∃ w', w.next codes i = .ok w' := by
  unfold World.next
  cases hc : (w.locals i).control with
  | locksToRegister e thrown => simp [hc, lock_free hmutex]
  | locksToFind message e => simp [hc, lock_free hmutex]
  | _ => simp [hc, Control.acquires] at hi

theorem next_waits (codes : Codes) (hi : (w.locals i).control.acquires = true) (hj : j ≠ i)
    (hmutex : w.mutex = some j) : w.next codes i = .error .waits := by
  have hwaits : ∀ l, w.lock i l = .error .waits := by
    intro l
    rw [World.lock, hmutex, Mutex.lock_waits hj]
    rfl
  unfold World.next
  cases hc : (w.locals i).control with
  | locksToRegister e thrown => simp [hc, hwaits]
  | locksToFind message e => simp [hc, hwaits]
  | _ => simp [hc, Control.acquires] at hi

/-- A thread that does not wait for the mutex takes its next step. -/
theorem next_moves (codes : Codes) (hi : (w.locals i).control.acquires = false)
    (hready : (w.locals i).control ≠ .ready) : ∃ w', w.next codes i = .ok w' := by
  unfold World.next
  cases hc : (w.locals i).control with
  | ready => exact absurd hc hready
  | registersBase e thrown =>
    cases hfirst : w.map.registerExactType e.type ⟨reRaiser codes e.type⟩ with
    | mk map isNew => cases isNew <;> simp [hc, hfirst]
  | finds message e => cases hfind : w.map.lookup e.object.type <;> simp [hc, hfind]
  | locksToRegister e thrown => simp [hc, Control.acquires] at hi
  | locksToFind message e => simp [hc, Control.acquires] at hi
  | _ => simp [hc]

/-- What the next step of a thread does to its own call. -/
structure Advance (codes : Codes) (w w' : World) (i : Nat) : Prop where
  once : (w'.locals i).control.acquires = false
  work : (w'.locals i).control.work < (w.locals i).control.work
  left : (w.locals i).control.holds = true → w'.mutex = none ∨ w'.mutex = w.mutex ∧
    (w'.locals i).control.left < (w.locals i).control.left
  throws : ∀ thrown, (w.locals i).throws codes = some thrown →
    (w'.locals i).throws codes = some thrown

/-- Each step of a call brings it nearer to its end. -/
theorem next_advance (h : w.next codes i = .ok w') : Advance codes w w' i := by
  unfold World.next at h
  cases hc : (w.locals i).control with
  | ready => simp [hc] at h
  | locksToRegister e thrown =>
    simp only [hc] at h
    obtain ⟨_, rfl⟩ := lock_ok h
    constructor <;> simp [hc, Control.acquires, Control.work, Control.holds, Local.throws]
  | registersBase e thrown =>
    cases hfirst : w.map.registerExactType e.type ⟨reRaiser codes e.type⟩ with
    | mk map isNew =>
      cases isNew <;>
      · simp only [hc, hfirst, Except.ok.injEq] at h
        subst h
        constructor <;> simp [hc, Control.acquires, Control.work, Control.left, Local.throws,
          World.put]
  | locksToFind message e =>
    simp only [hc] at h
    obtain ⟨_, rfl⟩ := lock_ok h
    constructor <;> simp [hc, Control.acquires, Control.work, Control.holds, Local.throws]
  | finds message e =>
    cases hfind : w.map.lookup e.object.type <;>
    · simp only [hc, hfind, Except.ok.injEq] at h
      subst h
      constructor <;> simp [hc, Control.acquires, Control.work, Control.left, Local.throws,
        World.put]
  | _ =>
    simp only [hc, Except.ok.injEq] at h
    subst h
    constructor <;> simp [hc, Control.acquires, Control.work, Control.left, Control.holds,
      Local.throws, World.put, World.throws]

theorem next_ok {r : Unit} (h : step codes w ⟨i, .next⟩ = .ok (w', r)) :
    w.next codes i = .ok w' :=
  map_ok h

theorem step_next (h : ∃ w', w.next codes i = .ok w') :
    ∃ w' r, step codes w ⟨i, .next⟩ = .ok (w', r) := by
  obtain ⟨w', h⟩ := h
  exact ⟨w', (), by rw [step, h]; rfl⟩

/-- The threads with their mutex are fair. -/
theorem threads_fair (codes : Codes) :
    Mutex.Fair (step codes) (fun i => ⟨i, .next⟩)
      (fun w => Mutex.Kept w.mutex (fun i => (w.locals i).control.holds)) World.mutex
      (fun w i => (w.locals i).control.acquires = true)
      (fun w i => (w.locals i).control = .ready) (fun w i => (w.locals i).control.left) where
  kept hk hstep := (step_effect hstep).turn.kept hk
  moves _ hwants hready := step_next (next_moves codes (Bool.eq_false_iff.mpr hwants) hready)
  locks hwants hmutex := step_next (next_acquires codes hwants hmutex)
  waits hwants hj hmutex := by rw [step, next_waits codes hwants hj hmutex]; rfl
  busy {w i} hk hmutex := by
    have hholds : (w.locals i).control.holds = true := (hk i).mp hmutex
    refine ⟨by simp [acquires_of_holds hholds], ?_⟩
    intro hready
    rw [hready] at hholds
    cases hholds
  releases {w w' i r} hk hmutex hstep := by
    have hleft := (next_advance (next_ok hstep)).left ((hk i).mp hmutex)
    rwa [hmutex] at hleft
  patient hwants hij hstep := by
    rw [(step_effect hstep).others _ hij]
    exact hwants

theorem threads_once (codes : Codes) :
    Mutex.Once (step codes) (fun i => ⟨i, .next⟩)
      (fun w => Mutex.Kept w.mutex (fun i => (w.locals i).control.holds))
      (fun w i => (w.locals i).control.acquires = true)
      (fun w i => (w.locals i).control.work) := by
  intro w w' i r _ hstep
  have hadvance := next_advance (next_ok hstep)
  exact ⟨by simp [hadvance.once], hadvance.work⟩

/-- What a thread throws does not depend on the steps of others, nor on its own. -/
theorem run_throws {es : List Event} {thrown : Thrown} (h : Run (step codes) anything w es w')
    (hes : ∀ e ∈ es, e.action = .next) (hthrown : (w.locals i).throws codes = some thrown) :
    (w'.locals i).throws codes = some thrown := by
  have hnext : Run (step codes) (fun _ e => e.action = .next) w es w' :=
    h.restrict (fun _ e he => hes e he)
  refine hnext.invariant (p := fun v => (v.locals i).throws codes = some thrown) ?_ hthrown
  rintro v ⟨j, action⟩ v' r hv rfl hstep
  by_cases hji : i = j
  · subst hji
    exact (next_advance (next_ok hstep)).throws thrown hv
  · rw [(step_effect hstep).others i hji]
    exact hv

/-- Every call throws: no step of it is undefined, and whatever the others have under
way, it is over after four steps of one of them and five of its own at most. A `raise`
throws its exception. -/
theorem always_throws (codes : Codes) {es : List Event}
    (h : Run (step codes) anything .initial es w) (i : Nat) :
    (∀ reason, step codes w ⟨i, .next⟩ ≠ .error (.undefined reason)) ∧
      ∃ j m k w', m ≤ 4 ∧ k ≤ 5 ∧
        Run (step codes) anything w
          (List.replicate m ⟨j, .next⟩ ++ List.replicate k ⟨i, .next⟩) w' ∧
        (w'.locals i).control = .ready ∧
        ∀ thrown, (w.locals i).throws codes = some thrown →
          (w'.locals i).current = some thrown := by
  have hk := (run_sound h (initial_sound codes)).holder
  have hfair := threads_fair codes
  constructor
  · by_cases hready : (w.locals i).control = .ready
    · simp [step, World.next, hready, Except.map]
    · exact (hfair.served (fun _ _ => left_le _) hk hready).1
  · obtain ⟨j, m, k, w', hm, hk', hrun, hready⟩ :=
      hfair.returns (threads_once codes) (fun _ _ => left_le _) (fun _ _ => work_le _) hk i
    refine ⟨j, m, k, w', hm, hk', hrun, hready, ?_⟩
    intro thrown hthrown
    have hnext : ∀ e ∈ List.replicate m (⟨j, .next⟩ : Event) ++ List.replicate k ⟨i, .next⟩,
        e.action = .next := by
      intro e he
      rcases List.mem_append.mp he with he | he
      · rw [List.eq_of_mem_replicate he]
      · rw [List.eq_of_mem_replicate he]
    have hthrows := run_throws hrun hnext hthrown
    rwa [Local.throws, hready] at hthrows

/-- A thread is to raise an error while another one registers its own. -/
theorem always_throws_waiting :
    let logic : Object := ⟨.logicError, "logic", none⟩
    ∃ (j m k : Nat) (w w' : World), w.mutex = some 0 ∧ m ≤ 4 ∧ k ≤ 5 ∧
      Run (step (fun _ _ => none)) anything w
        (List.replicate m ⟨j, .next⟩ ++ List.replicate k ⟨1, .next⟩) w' ∧
      (w'.locals 1).current = some (.alone logic) := by
  intro logic
  have hrun : ∃ w, Run (step (fun _ _ => none)) anything .initial
        [⟨0, .raise ⟨.runtimeError, "runtime", none⟩⟩, ⟨1, .raise logic⟩, ⟨0, .next⟩] w ∧
      w.mutex = some 0 ∧ (w.locals 1).throws (fun _ _ => none) = some (.alone logic) :=
    ⟨_, run_of_runAll rfl, rfl, rfl⟩
  obtain ⟨w, h, hmutex, hthrows⟩ := hrun
  obtain ⟨_, j, m, k, w', hm, hk, hnext, _, hthrown⟩ := always_throws (fun _ _ => none) h 1
  exact ⟨j, m, k, w, w', hmutex, hm, hk, hnext, hthrown _ hthrows⟩

end Valuelib.Exceptions.Raising
