import Valuelib.Exceptions.RegisterThreads
import Valuelib.Exceptions.Chain
import Mathlib.Tactic.ByContra

namespace Valuelib.Exceptions.Raising
open Runs

def Control.holds : Control → Bool
  | .registersBase _ _ | .registersConst _ _ | .registersNested _ _ | .finds _ _
  | .unlocksToWrap _ _ | .unlocks _ => true
  | _ => false

def Control.acquires : Control → Bool
  | .locksToRegister _ _ | .locksToFind _ _ => true
  | _ => false

def Control.announces : Control → Option Object
  | .locksToRegister e _ => some e
  | _ => none

def Action.announces : Action → Option Object
  | .raise e | .raiseWithNested e => some e
  | _ => none

variable (codes : Codes)

/-- The register when the thread that is at work on it has done with it. -/
def Control.finish : Control → Register → Register
  | .registersBase e _, r => r.registerException e ⟨reRaiser codes e.type⟩
  | .registersConst e _, r =>
    let (r, _) := r.registerExactType e.type ⟨reRaiser codes e.type⟩
    (r.registerExactType (typeWhenNesting e) ⟨reRaiser codes e.type⟩).1
  | .registersNested e _, r =>
    (r.registerExactType (typeWhenNesting e) ⟨reRaiser codes e.type⟩).1
  | _, r => r

def World.settled (w : World) : Register :=
  match w.mutex with
  | none => w.map
  | some i => (w.locals i).control.finish codes w.map

/-- What a step of one thread does to the others and to what is shared. -/
structure Effect (w w' : World) (i : Nat) (action : Action) : Prop where
  others : ∀ j, j ≠ i → w'.locals j = w.locals j
  mutex : w'.mutex =
    match (w.locals i).control.holds, (w'.locals i).control.holds with
    | false, true => some i
    | true, false => none
    | _, _ => w.mutex
  free : (w'.locals i).control.holds = true → (w.locals i).control.holds = true ∨ w.mutex = none
  map : (w.locals i).control.holds = false → w'.map = w.map
  finish : (w'.locals i).control.finish codes w'.map =
    match (w.locals i).control.announces with
    | none => (w.locals i).control.finish codes w.map
    | some e => w.map.registerException e ⟨reRaiser codes e.type⟩
  announces : (w'.locals i).control.announces = action.announces
  locks : ∀ e, (w.locals i).control.announces = some e → w.mutex = none

variable {codes : Codes} {w w' : World} {i : Nat} {action : Action}

@[simp] theorem put_locals_self (l : Local) : (w.put i l).locals i = l := by
  simp [World.put]

@[simp] theorem put_map (l : Local) : (w.put i l).map = w.map := rfl

@[simp] theorem announces_next : Action.next.announces = none := rfl

theorem put_locals_other {j : Nat} (h : j ≠ i) (l : Local) : (w.put i l).locals j = w.locals j := by
  simp [World.put, h]

theorem finish_free {c : Control} (h : c.holds = false) (r : Register) : c.finish codes r = r := by
  cases c <;> first | rfl | cases h

theorem holds_of_announces {c : Control} {e : Object} (h : c.announces = some e) :
    c.holds = false := by
  cases c <;> first | rfl | cases h

theorem announces_of_holds {c : Control} (h : c.holds = true) : c.announces = none := by
  cases c <;> first | rfl | cases h

theorem lock_ok {l : Local} (h : w.lock i l = .ok w') :
    w.mutex = none ∧ w' = { w.put i l with mutex := some i } := by
  unfold World.lock at h
  cases hlock : Mutex.lock w.mutex i with
  | error _ =>
    rw [hlock] at h
    cases h
  | ok mutex =>
    obtain ⟨hnone, rfl⟩ := Mutex.lock_ok hlock
    rw [hlock] at h
    cases h
    exact ⟨hnone, rfl⟩

/-- A step away from the mutex. -/
theorem effect_put {l : Local} (hfree : (w.locals i).control.holds = false)
    (hquiet : (w.locals i).control.announces = none) (hl : l.control.holds = false)
    (hannounces : l.control.announces = action.announces) :
    Effect codes w (w.put i l) i action := by
  refine ⟨fun j hj => put_locals_other hj l, ?_, ?_, fun _ => rfl, ?_, ?_, ?_⟩
  · simp [hfree, hl, World.put]
  · simp [hl]
  · rw [put_locals_self, finish_free hl, finish_free hfree, put_map, hquiet]
  · simpa using hannounces
  · simp [hquiet]

/-- A step that takes the mutex. -/
theorem effect_lock {l : Local} (h : w.lock i l = .ok w')
    (hfree : (w.locals i).control.holds = false) (hl : l.control.holds = true)
    (hfinish : l.control.finish codes w.map =
      match (w.locals i).control.announces with
      | none => w.map
      | some e => w.map.registerException e ⟨reRaiser codes e.type⟩) :
    Effect codes w w' i .next := by
  obtain ⟨hmutex, rfl⟩ := lock_ok h
  refine ⟨fun j hj => put_locals_other hj l, ?_, ?_, fun _ => rfl, ?_, ?_, fun _ _ => hmutex⟩
  · simp [hl, hfree]
  · simp [hmutex]
  · rw [finish_free hfree]
    simpa using hfinish
  · simpa using announces_of_holds hl

/-- A step with the mutex. -/
theorem effect_held {l : Local} {map : Register} (hheld : (w.locals i).control.holds = true)
    (hl : l.control.holds = true)
    (hfinish : l.control.finish codes map = (w.locals i).control.finish codes w.map) :
    Effect codes w { w.put i l with map := map } i .next := by
  have hquiet := announces_of_holds hheld
  refine ⟨fun j hj => put_locals_other hj l, ?_, ?_, ?_, ?_, ?_, ?_⟩
  · simp [hheld, hl, World.put]
  · simp [hheld]
  · simp [hheld]
  · simpa [hquiet] using hfinish
  · simpa using announces_of_holds hl
  · simp [hquiet]

/-- A step that gives up the mutex. -/
theorem effect_unlock {l : Local} (hheld : (w.locals i).control.holds = true)
    (hl : l.control.holds = false)
    (hfinish : (w.locals i).control.finish codes w.map = w.map)
    (hannounces : l.control.announces = none) :
    Effect codes w { w.put i l with mutex := none } i .next := by
  have hquiet := announces_of_holds hheld
  refine ⟨fun j hj => put_locals_other hj l, ?_, ?_, ?_, ?_, ?_, ?_⟩
  · simp [hheld, hl]
  · simp [hl]
  · simp [hheld]
  · rw [hfinish, hquiet]
    simpa using finish_free hl w.map
  · simpa using hannounces
  · simp [hquiet]

/-- What the next step of a call does to the other threads and to what is shared. -/
theorem next_effect (h : w.next codes i = .ok w') : Effect codes w w' i .next := by
  unfold World.next at h
  cases hc : (w.locals i).control with
  | ready => simp [hc] at h
  | locksToRegister e thrown =>
    simp only [hc] at h
    exact effect_lock h (by rw [hc]; rfl) rfl (by rw [hc]; rfl)
  | registersBase e thrown =>
    cases hfirst : w.map.registerExactType e.type ⟨reRaiser codes e.type⟩ with
    | mk map isNew =>
      cases isNew with
      | true =>
        simp only [hc, hfirst, Except.ok.injEq] at h
        subst h
        refine effect_held (by rw [hc]; rfl) rfl ?_
        simp only [hc, Control.finish, Register.registerException, hfirst]
      | false =>
        simp only [hc, hfirst, Except.ok.injEq] at h
        subst h
        refine effect_held (by rw [hc]; rfl) rfl ?_
        simp only [hc, Control.finish, Register.registerException, hfirst]
  | registersConst e thrown =>
    simp only [hc, Except.ok.injEq] at h
    subst h
    exact effect_held (by rw [hc]; rfl) rfl (by rw [hc]; rfl)
  | registersNested e thrown =>
    simp only [hc, Except.ok.injEq] at h
    subst h
    exact effect_held (by rw [hc]; rfl) rfl (by rw [hc]; rfl)
  | locksToFind message e =>
    simp only [hc] at h
    exact effect_lock h (by rw [hc]; rfl) rfl (by rw [hc]; rfl)
  | finds message e =>
    cases hfind : w.map.lookup e.object.type with
    | none =>
      simp only [hc, hfind, Except.ok.injEq] at h
      subst h
      exact effect_held (by rw [hc]; rfl) rfl (by rw [hc]; rfl)
    | some actions =>
      simp only [hc, hfind, Except.ok.injEq] at h
      subst h
      exact effect_held (by rw [hc]; rfl) rfl (by rw [hc]; rfl)
  | unlocksToWrap message e =>
    simp only [hc, Except.ok.injEq] at h
    subst h
    exact effect_unlock (by rw [hc]; rfl) rfl (by rw [hc]; rfl) rfl
  | wraps message e =>
    simp only [hc, Except.ok.injEq] at h
    subst h
    exact effect_put (by rw [hc]; rfl) (by rw [hc]; rfl) rfl rfl
  | unlocks thrown =>
    simp only [hc, Except.ok.injEq] at h
    subst h
    exact effect_unlock (by rw [hc]; rfl) rfl (by rw [hc]; rfl) rfl

theorem begin_effect (hready : (w.locals i).control = .ready) (h : w.begin i action = .ok w') :
    Effect codes w w' i action := by
  have hfree : (w.locals i).control.holds = false := by rw [hready]; rfl
  have hquiet : (w.locals i).control.announces = none := by rw [hready]; rfl
  unfold World.begin at h
  cases action with
  | raise e =>
    cases h
    exact effect_put hfree hquiet rfl rfl
  | raiseWithNested e =>
    cases h
    exact effect_put hfree hquiet rfl rfl
  | reRaise message =>
    cases hcurrent : (w.locals i).current with
    | none => simp [hcurrent] at h
    | some e =>
      simp only [hcurrent, Except.ok.injEq] at h
      subst h
      exact effect_put hfree hquiet rfl rfl
  | handles current =>
    cases h
    exact effect_put hfree hquiet rfl rfl
  | next => cases h

theorem map_ok {x : Except Mutex.Stop World} {r : Unit} (h : x.map (·, ()) = .ok (w', r)) :
    x = .ok w' := by
  cases x with
  | error _ => cases h
  | ok _ =>
    cases h
    rfl

/-- A step is the next one of a call, or the beginning of one. -/
theorem step_cases {e : Event} {r : Unit} (h : step codes w e = .ok (w', r)) :
    e.action = .next ∧ w.next codes e.thread = .ok w' ∨
      (w.locals e.thread).control = .ready ∧ w.begin e.thread e.action = .ok w' := by
  obtain ⟨i, action⟩ := e
  unfold step at h
  cases action with
  | next => exact .inl ⟨rfl, map_ok h⟩
  | _ =>
    right
    cases hc : (w.locals i).control with
    | ready =>
      simp only [hc] at h
      exact ⟨rfl, map_ok h⟩
    | _ => simp [hc] at h

/-- What any step does to the other threads and to what is shared. -/
theorem step_effect {e : Event} {r : Unit} (h : step codes w e = .ok (w', r)) :
    Effect codes w w' e.thread e.action := by
  rcases step_cases h with h | h
  · rw [h.1]
    exact next_effect h.2
  · exact begin_effect h.1 h.2

def AmongEvents (es : List Event) (o : Object) : Prop := ∃ e ∈ es, e.action.announces = some o

/-- An announcement that has taken the mutex: the next step of its thread is the lock. -/
def HasLocked (es : List Event) (o : Object) : Prop :=
  ∃ past e later, es = past ++ e :: later ∧ e.action.announces = some o ∧
    ∃ e' ∈ later, e'.thread = e.thread

def latest (i : Nat) (es : List Event) : Option Event := (es.filter (·.thread = i)).getLast?

/-- The register as announcements have made it: those of the events so far that have
taken the mutex. -/
structure History (codes : Codes) (es : List Event) (w : World)
    (history : List Announcement) : Prop where
  settled : w.settled codes = announceAll codes [] history
  among : ∀ a ∈ history, AmongEvents es a.object
  made : ∀ o, HasLocked es o → ∃ a ∈ history, a.object = o

/-- What holds after these events. -/
structure Sound (codes : Codes) (es : List Event) (w : World) : Prop where
  holder : Mutex.Kept w.mutex (fun i => (w.locals i).control.holds)
  announces : ∀ i, (w.locals i).control.announces = (latest i es).bind (·.action.announces)
  history : ∃ history, History codes es w history

theorem initial_sound (codes : Codes) : Sound codes [] .initial := by
  refine ⟨?_, fun i => rfl, [], rfl, ?_, ?_⟩
  · intro i
    simp [World.initial, Control.holds]
  · intro a ha
    cases ha
  · intro o ho
    obtain ⟨past, e, later, hes, _⟩ := ho
    exact absurd hes (by simp)

theorem AmongEvents.append {es : List Event} {o : Object} (h : AmongEvents es o)
    (es' : List Event) : AmongEvents (es ++ es') o := by
  obtain ⟨e, hm, he⟩ := h
  exact ⟨e, List.mem_append_left es' hm, he⟩

theorem latest_concat (i : Nat) (es : List Event) (e : Event) :
    latest i (es ++ [e]) = if e.thread = i then some e else latest i es := by
  by_cases h : e.thread = i
  · simp [latest, h]
  · simp [latest, h]

/-- An event is the latest of its thread, if none that follow is one of that thread. -/
theorem latest_split {past later : List Event} {e : Event}
    (h : ∀ e' ∈ later, e'.thread ≠ e.thread) : latest e.thread (past ++ e :: later) = some e := by
  have hlater : later.filter (·.thread = e.thread) = [] := by
    apply List.filter_eq_nil_iff.mpr
    intro e' he'
    simpa using h e' he'
  simp [latest, hlater]

theorem Sound.among {es : List Event} {o : Object} (hw : Sound codes es w)
    (h : (w.locals i).control.announces = some o) : AmongEvents es o := by
  rw [hw.announces] at h
  obtain ⟨e, he, ho⟩ := Option.bind_eq_some_iff.mp h
  have hmem := List.mem_of_getLast? he
  exact ⟨e, (List.mem_filter.mp hmem).1, ho⟩

/-- A step lets the announcement of its own thread take the mutex, and no other. -/
theorem HasLocked.step {es : List Event} {e : Event} {o : Object} (hw : Sound codes es w)
    (h : HasLocked (es ++ [e]) o) :
    HasLocked es o ∨ (w.locals e.thread).control.announces = some o := by
  obtain ⟨past, announcing, later, hes, ho, e', he', hthread⟩ := h
  rcases List.eq_nil_or_concat later with rfl | ⟨later, last, rfl⟩
  · cases he'
  · have hsplit : es ++ [e] = (past ++ announcing :: later) ++ [last] := by simpa using hes
    obtain ⟨rfl, hlast⟩ := List.append_inj' hsplit rfl
    cases hlast
    by_cases hagain : ∃ e' ∈ later, e'.thread = announcing.thread
    · exact .inl ⟨past, announcing, later, rfl, ho, hagain⟩
    · right
      have hnone : ∀ e' ∈ later, e'.thread ≠ announcing.thread := by
        intro e' he' heq
        exact hagain ⟨e', he', heq⟩
      have hown : e.thread = announcing.thread := by
        rw [List.concat_eq_append] at he'
        rcases List.mem_append.mp he' with he' | he'
        · exact absurd hthread (hnone e' he')
        · cases List.mem_singleton.mp he'
          exact hthread
      rw [hown, hw.announces, latest_split hnone]
      exact ho

theorem Effect.turn (h : Effect codes w w' i action) : Mutex.Turn w.mutex w'.mutex i
    (fun j => (w.locals j).control.holds) (fun j => (w'.locals j).control.holds) where
  others j hj := by rw [h.others j hj]
  changed := h.mutex
  free := h.free

/-- Where no other thread is at work on the register, this one has it in hand. -/
theorem settled_own (hk : Mutex.Kept w.mutex (fun i => (w.locals i).control.holds))
    (h : w.mutex = none ∨ w.mutex = some i) :
    w.settled codes = (w.locals i).control.finish codes w.map := by
  rcases h with h | h
  · have hfree : (w.locals i).control.holds = false := by
      by_contra hholds
      have hmutex := (hk i).mpr (by simpa using hholds)
      rw [h] at hmutex
      cases hmutex
    rw [World.settled, h, finish_free hfree]
  · rw [World.settled, h]

/-- The register, as it will be without further announcements, changes only where a
thread takes the mutex to announce. -/
theorem Effect.settled (h : Effect codes w w' i action)
    (hk : Mutex.Kept w.mutex (fun i => (w.locals i).control.holds)) :
    w'.settled codes =
      match (w.locals i).control.announces with
      | none => w.settled codes
      | some e => (w.settled codes).registerException e ⟨reRaiser codes e.type⟩ := by
  have hk' := h.turn.kept hk
  by_cases hmine : w.mutex = none ∨ w.mutex = some i
  · have hmine' : w'.mutex = none ∨ w'.mutex = some i := by
      rw [h.mutex]
      split
      · exact .inr rfl
      · exact .inl rfl
      · exact hmine
    rw [settled_own hk hmine, settled_own hk' hmine', h.finish]
    cases hannounces : (w.locals i).control.announces with
    | none => rfl
    | some e => rw [finish_free (holds_of_announces hannounces)]
  · cases hmutex : w.mutex with
    | none => exact absurd (.inl hmutex) hmine
    | some j =>
      have hj : j ≠ i := fun heq => hmine (.inr (heq ▸ hmutex))
      have hquiet : (w.locals i).control.announces = none := by
        cases hannounces : (w.locals i).control.announces with
        | none => rfl
        | some e =>
          have hnone := h.locks e hannounces
          rw [hmutex] at hnone
          cases hnone
      have hfree : (w.locals i).control.holds = false := by
        by_contra hholds
        have hi := (hk i).mpr (by simpa using hholds)
        rw [hmutex] at hi
        exact hj (Option.some.inj hi)
      have hsame : w'.mutex = some j := by
        rw [h.mutex, hfree]
        cases hnew : (w'.locals i).control.holds with
        | false => exact hmutex
        | true =>
          rcases h.free hnew with hholds | hnone
          · rw [hfree] at hholds
            cases hholds
          · rw [hmutex] at hnone
            cases hnone
      rw [World.settled, World.settled, hmutex, hsame, hquiet]
      simp only [h.others j hj, h.map hfree]

/-- The history after a step has the announcement of its thread, if it is one. -/
theorem Effect.history {es : List Event} {history : List Announcement} {e : Event}
    (h : Effect codes w w' e.thread e.action) (hw : Sound codes es w)
    (hhistory : History codes es w history) :
    History codes (es ++ [e]) w'
      (history ++ ((w.locals e.thread).control.announces.map .raise).toList) := by
  have hsettled := h.settled hw.holder
  refine ⟨?_, ?_, ?_⟩
  · rw [hsettled, hhistory.settled]
    cases (w.locals e.thread).control.announces with
    | none => simp
    | some o => simp [announceAll, Announcement.make, announce]
  · intro a ha
    rcases List.mem_append.mp ha with ha | ha
    · exact (hhistory.among a ha).append [e]
    · obtain ⟨o, ho, rfl⟩ : ∃ o, (w.locals e.thread).control.announces = some o ∧ .raise o = a := by
        simpa using ha
      exact (hw.among ho).append [e]
  · intro o ho
    rcases ho.step hw with hlocked | hlocks
    · obtain ⟨a, ha, hao⟩ := hhistory.made o hlocked
      exact ⟨a, List.mem_append_left _ ha, hao⟩
    · exact ⟨.raise o, by simp [hlocks], rfl⟩

theorem step_sound {es : List Event} {e : Event} {r : Unit} (hw : Sound codes es w)
    (h : step codes w e = .ok (w', r)) : Sound codes (es ++ [e]) w' := by
  have heffect := step_effect h
  refine ⟨heffect.turn.kept hw.holder, ?_, ?_⟩
  · intro j
    rw [latest_concat]
    by_cases hj : e.thread = j
    · subst hj
      rw [if_pos rfl, heffect.announces]
      rfl
    · rw [if_neg hj, heffect.others j (Ne.symm hj)]
      exact hw.announces j
  · obtain ⟨history, hhistory⟩ := hw.history
    exact ⟨_, heffect.history hw hhistory⟩

/-- What holds after the events so far holds after those of the run. -/
theorem run_sound {es es' : List Event} (h : Run (step codes) anything w es' w')
    (hw : Sound codes es w) : Sound codes (es ++ es') w' := by
  induction h generalizing es with
  | nil => simpa using hw
  | cons _ taken _ ih => simpa using ih (step_sound hw taken)

end Valuelib.Exceptions.Raising
