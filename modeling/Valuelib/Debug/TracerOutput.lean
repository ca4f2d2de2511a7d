import Valuelib.Debug.Tracer

namespace Valuelib.Debug.Tracing
open Text Checked Runs

structure Chunk where
  thread : Nat
  text : List CChar
deriving DecidableEq, Repr

def written (chunks : List Chunk) : List CChar := chunks.flatMap Chunk.text

def own (t : Nat) (chunks : List Chunk) : List Chunk := chunks.filter (·.thread = t)

def constructing (e : Event) : Option Nat :=
  match e.action with
  | .construct _ => some e.thread
  | _ => none

variable {id : Nat → List CChar} {w w' : World} {solo : Nat → World} {chunks : List Chunk} {t : Nat}

@[simp] theorem written_append (k l : List Chunk) : written (k ++ l) = written k ++ written l :=
  List.flatMap_append

@[simp] theorem written_singleton (t : Nat) (text : List CChar) : written [⟨t, text⟩] = text := by
  simp [written]

@[simp] theorem own_append (t : Nat) (k l : List Chunk) : own t (k ++ l) = own t k ++ own t l :=
  List.filter_append ..

@[simp] theorem own_self (t : Nat) (text : List CChar) : own t [⟨t, text⟩] = [⟨t, text⟩] := by
  simp [own]

theorem own_other {u : Nat} (h : u ≠ t) (text : List CChar) : own u [⟨t, text⟩] = [] := by
  simp [own, Ne.symm h]

def heldBy (t : Nat) (lock : Option (Nat × List CChar)) : Option (Nat × List CChar) :=
  lock.filter (fun l => l.1 = t)

@[simp] theorem heldBy_none (t : Nat) : heldBy t none = none := rfl

@[simp] theorem heldBy_self (t : Nat) (rest : List CChar) :
    heldBy t (some (t, rest)) = some (t, rest) := by
  simp [heldBy, Option.filter_some]

theorem heldBy_other {u : Nat} (h : u ≠ t) (rest : List CChar) :
    heldBy u (some (t, rest)) = none := by
  simp [heldBy, Option.filter_some, Ne.symm h]

/-- The threads together and each of them alone: the stream consists of chunks,
each of one thread, and what a thread does on its own gives its chunks. -/
structure Serial (w : World) (solo : Nat → World) (chunks : List Chunk) : Prop where
  output : w.output = written chunks
  soloOutput : ∀ t, (solo t).output = written (own t chunks)
  soloLocal : ∀ t, (solo t).locals t = w.locals t
  soloLock : ∀ t, (solo t).lock = heldBy t w.lock
  last : ∀ t rest, w.lock = some (t, rest) → ∃ before text, chunks = before ++ [⟨t, text⟩]

theorem initial_serial : Serial .initial (fun _ => .initial) [] := by
  refine ⟨rfl, fun _ => rfl, fun _ => rfl, fun _ => rfl, ?_⟩
  intro u rest hlock
  cases hlock

theorem pending_eq {rest : List CChar} : w.pending t = .ok rest ↔ w.lock = some (t, rest) := by
  unfold World.pending
  split
  · rename_i holder rest' hlock
    by_cases h : holder = t
    · simp [h, hlock]
    · simp [h, hlock]
  · rename_i hlock
    simp [hlock]

theorem construct_ok {call : Call} (h : w.construct id t call = .ok w') :
    ∃ lead, w.lock = none ∧ leadIn (w.locals t).depth = .ok lead ∧
      w' = { w with lock := some (t, line (id t) lead call) } := by
  unfold World.construct at h
  split at h
  · split at h
    · cases h
    · cases h
  · rename_i hfree
    split at h
    · rename_i lead hlead
      cases h
      exact ⟨lead, hfree, hlead, rfl⟩
    · cases h

theorem put_ok (h : w.put t = .ok w') :
    ∃ c rest, w.lock = some (t, c :: rest) ∧
      w' = { w with output := w.output ++ [c], lock := some (t, rest) } := by
  obtain ⟨pending, hpending, h⟩ := bind_ok.mp h
  cases pending with
  | nil => cases h
  | cons c rest =>
    cases h
    exact ⟨c, rest, pending_eq.mp hpending, rfl⟩

theorem throws_ok (h : w.throws t = .ok w') :
    ∃ rest, w.lock = some (t, rest) ∧ w' = { w with lock := none } := by
  obtain ⟨rest, hpending, h⟩ := bind_ok.mp h
  cases h
  exact ⟨rest, pending_eq.mp hpending, rfl⟩

theorem finish_ok (h : w.finish t = .ok w') :
    w.lock = some (t, []) ∧ (w.locals t).live + 1 < UInt64.size ∧
      w' = { w with
        locals := Function.update w.locals t ⟨raise (w.locals t).depth, (w.locals t).live + 1⟩
        lock := none } := by
  obtain ⟨pending, hpending, h⟩ := bind_ok.mp h
  cases pending with
  | cons c rest => cases h
  | nil =>
    by_cases hroom : (w.locals t).live + 1 < UInt64.size
    · rw [if_pos hroom] at h
      cases h
      exact ⟨pending_eq.mp hpending, hroom, rfl⟩
    · rw [if_neg hroom] at h
      cases h

theorem destroy_ok (h : w.destroy t = .ok w') :
    ∃ n, (w.locals t).live = n + 1 ∧
      w' = { w with locals := Function.update w.locals t ⟨lower (w.locals t).depth, n⟩ } := by
  cases hlive : (w.locals t).live with
  | zero => simp [World.destroy, hlive] at h
  | succ n =>
    simp only [World.destroy, hlive, Except.ok.injEq] at h
    exact ⟨n, rfl, h.symm⟩

/-- A step is the action of its thread. -/
theorem step_act {e : Event} {r : Unit} (h : step id w e = .ok (w', r)) :
    w.act id e.thread e.action = .ok w' := by
  unfold step at h
  cases hact : w.act id e.thread e.action with
  | error _ =>
    rw [hact] at h
    cases h
  | ok _ =>
    rw [hact] at h
    cases h
    rfl

namespace Serial

theorem lock_self (h : Serial w solo chunks) {rest : List CChar} (hlock : w.lock = some (t, rest)) :
    (solo t).lock = some (t, rest) := by
  rw [h.soloLock, hlock]
  simp

/-- The world after thread `t` took a step, and thread `t` on its own. -/
theorem update (h : Serial w solo chunks) {s : World} {chunks' : List Chunk}
    (houtput : w'.output = written chunks') (hs : s.output = written (own t chunks'))
    (hlocal : s.locals t = w'.locals t) (hlocals : ∀ u, u ≠ t → w'.locals u = w.locals u)
    (hown : ∀ u, u ≠ t → own u chunks' = own u chunks)
    (hlock : s.lock = heldBy t w'.lock)
    (hlocks : ∀ u, u ≠ t → heldBy u w'.lock = heldBy u w.lock)
    (hlast : ∀ u rest, w'.lock = some (u, rest) → ∃ before text, chunks' = before ++ [⟨u, text⟩]) :
    Serial w' (Function.update solo t s) chunks' where
  output := houtput
  soloOutput u := by
    by_cases hu : u = t
    · subst hu
      simpa using hs
    · rw [Function.update_of_ne hu, h.soloOutput, hown u hu]
  soloLocal u := by
    by_cases hu : u = t
    · subst hu
      simpa using hlocal
    · rw [Function.update_of_ne hu, h.soloLocal, hlocals u hu]
  soloLock u := by
    by_cases hu : u = t
    · subst hu
      simpa using hlock
    · rw [Function.update_of_ne hu, h.soloLock, hlocks u hu]
  last := hlast

theorem construct (h : Serial w solo chunks) {call : Call} (hw : w.construct id t call = .ok w') :
    ∃ s, (solo t).construct id t call = .ok s ∧
      Serial w' (Function.update solo t s) (chunks ++ [⟨t, []⟩]) := by
  obtain ⟨lead, hfree, hlead, rfl⟩ := construct_ok hw
  have hsolo : (solo t).lock = none := by
    rw [h.soloLock, hfree]
    rfl
  refine ⟨{ solo t with lock := some (t, line (id t) lead call) }, ?_, ?_⟩
  · simp [World.construct, hsolo, h.soloLocal, hlead]
  · refine h.update ?_ ?_ (h.soloLocal t) (fun _ _ => rfl) ?_ ?_ ?_ ?_
    · simp [h.output]
    · simp [h.soloOutput]
    · intro u hu
      simp [own_other hu]
    · simp
    · intro u hu
      simp [hfree, heldBy_other hu]
    · intro u rest hlock
      cases hlock
      exact ⟨chunks, [], rfl⟩

theorem put (h : Serial w solo chunks) (hw : w.put t = .ok w') :
    ∃ s chunks', (solo t).put t = .ok s ∧ Serial w' (Function.update solo t s) chunks' ∧
      chunks'.map Chunk.thread = chunks.map Chunk.thread := by
  obtain ⟨c, rest, hlock, rfl⟩ := put_ok hw
  obtain ⟨before, text, rfl⟩ := h.last t _ hlock
  refine ⟨{ solo t with output := (solo t).output ++ [c], lock := some (t, rest) },
    before ++ [⟨t, text ++ [c]⟩], ?_, ?_, ?_⟩
  · exact bind_ok.mpr ⟨_, pending_eq.mpr (h.lock_self hlock), rfl⟩
  · refine h.update ?_ ?_ (h.soloLocal t) (fun _ _ => rfl) ?_ ?_ ?_ ?_
    · simp [h.output]
    · simp [h.soloOutput]
    · intro u hu
      simp [own_other hu]
    · simp
    · intro u hu
      simp [hlock, heldBy_other hu]
    · intro u rest' hlock'
      cases hlock'
      exact ⟨before, _, rfl⟩
  · simp

theorem throws (h : Serial w solo chunks) (hw : w.throws t = .ok w') :
    ∃ s, (solo t).throws t = .ok s ∧ Serial w' (Function.update solo t s) chunks := by
  obtain ⟨rest, hlock, rfl⟩ := throws_ok hw
  refine ⟨{ solo t with lock := none },
    bind_ok.mpr ⟨_, pending_eq.mpr (h.lock_self hlock), rfl⟩, ?_⟩
  refine h.update h.output (h.soloOutput t) (h.soloLocal t) (fun _ _ => rfl) (fun _ _ => rfl) rfl
    ?_ ?_
  · intro u hu
    simp [hlock, heldBy_other hu]
  · intro u rest hlock'
    cases hlock'

theorem finish (h : Serial w solo chunks) (hw : w.finish t = .ok w') :
    ∃ s, (solo t).finish t = .ok s ∧ Serial w' (Function.update solo t s) chunks := by
  obtain ⟨hlock, hroom, rfl⟩ := finish_ok hw
  refine ⟨{ solo t with
    locals := Function.update (solo t).locals t ⟨raise (w.locals t).depth, (w.locals t).live + 1⟩
    lock := none }, ?_, ?_⟩
  · exact bind_ok.mpr ⟨_, pending_eq.mpr (h.lock_self hlock),
      by simp [h.soloLocal, hroom, pure, Except.pure]⟩
  · refine h.update h.output (h.soloOutput t) (by simp) ?_ (fun _ _ => rfl) rfl ?_ ?_
    · intro u hu
      simp [hu]
    · intro u hu
      simp [hlock, heldBy_other hu]
    · intro u rest hlock'
      cases hlock'

theorem destroy (h : Serial w solo chunks) (hw : w.destroy t = .ok w') :
    ∃ s, (solo t).destroy t = .ok s ∧ Serial w' (Function.update solo t s) chunks := by
  obtain ⟨n, hlive, rfl⟩ := destroy_ok hw
  refine ⟨{ solo t with
    locals := Function.update (solo t).locals t ⟨lower (w.locals t).depth, n⟩ }, ?_, ?_⟩
  · simp [World.destroy, h.soloLocal, hlive]
  · refine h.update h.output (h.soloOutput t) (by simp) ?_ (fun _ _ => rfl) (h.soloLock t)
      (fun _ _ => rfl) h.last
    intro u hu
    simp [hu]

/-- One step of one thread. -/
theorem step (h : Serial w solo chunks) {e : Event} {r : Unit}
    (hw : Tracing.step id w e = .ok (w', r)) :
    ∃ s chunks', Tracing.step id (solo e.thread) e = .ok (s, ()) ∧
      Serial w' (Function.update solo e.thread s) chunks' ∧
      chunks'.map Chunk.thread = chunks.map Chunk.thread ++ (constructing e).toList := by
  have hact := step_act hw
  obtain ⟨t, action⟩ := e
  cases action with
  | construct call =>
    obtain ⟨s, hs, hserial⟩ := h.construct hact
    exact ⟨s, _, by rw [Tracing.step, World.act, hs]; rfl, hserial, by simp [constructing]⟩
  | put =>
    obtain ⟨s, chunks', hs, hserial, hthreads⟩ := h.put hact
    refine ⟨s, chunks', ?_, hserial, by simp [hthreads, constructing]⟩
    rw [Tracing.step, World.act, hs]
    rfl
  | throws =>
    obtain ⟨s, hs, hserial⟩ := h.throws hact
    exact ⟨s, chunks, by rw [Tracing.step, World.act, hs]; rfl, hserial, by simp [constructing]⟩
  | finish =>
    obtain ⟨s, hs, hserial⟩ := h.finish hact
    exact ⟨s, chunks, by rw [Tracing.step, World.act, hs]; rfl, hserial, by simp [constructing]⟩
  | destroy =>
    obtain ⟨s, hs, hserial⟩ := h.destroy hact
    exact ⟨s, chunks, by rw [Tracing.step, World.act, hs]; rfl, hserial, by simp [constructing]⟩

/-- A whole run, and the run that each thread makes of it on its own. -/
theorem run {es : List Event} (hrun : Run (Tracing.step id) anything w es w')
    (h : Serial w solo chunks) :
    ∃ solo' chunks', Serial w' solo' chunks' ∧
      (∀ t, Run (Tracing.step id) anything (solo t) (es.filter (·.thread = t)) (solo' t)) ∧
      chunks'.map Chunk.thread = chunks.map Chunk.thread ++ es.filterMap constructing := by
  induction hrun generalizing solo chunks with
  | nil => exact ⟨solo, chunks, h, fun _ => .nil _, by simp⟩
  | @cons _ _ _ e es _ _ taken _ ih =>
    obtain ⟨s, chunks', hs, hserial, hthreads⟩ := h.step taken
    obtain ⟨solo', chunks'', hserial, hruns, hthreads'⟩ := ih hserial
    refine ⟨solo', chunks'', hserial, ?_, ?_⟩
    · intro t
      by_cases ht : e.thread = t
      · subst ht
        have hrest := hruns e.thread
        rw [Function.update_self] at hrest
        rw [List.filter_cons_of_pos (by simp)]
        exact .cons trivial hs hrest
      · have hrest := hruns t
        rw [Function.update_of_ne (Ne.symm ht)] at hrest
        rwa [List.filter_cons_of_neg (by simpa using ht)]
    · rw [hthreads', hthreads, List.append_assoc, List.filterMap_cons]
      cases constructing e with
      | none => simp
      | some u => simp

end Serial

/-- However the threads interleave, the stream is a row of chunks, one for each
construction, in the order in which the constructions took the mutex, and the
chunks of a thread and its depth are what that thread alone leads to. -/
theorem output_serial {es : List Event} (h : Run (step id) anything .initial es w) :
    ∃ chunks, w.output = written chunks ∧
      chunks.map Chunk.thread = es.filterMap constructing ∧
      ∀ t, ∃ s, Run (step id) anything .initial (es.filter (·.thread = t)) s ∧
        s.output = written (own t chunks) ∧ s.locals t = w.locals t := by
  obtain ⟨solo, chunks, hserial, hruns, hthreads⟩ := initial_serial.run h
  exact ⟨chunks, hserial.output, by simpa using hthreads,
    fun t => ⟨solo t, hruns t, hserial.soloOutput t, hserial.soloLocal t⟩⟩

/-- A thread traces a call while another one has its line unfinished. -/
theorem output_serial_two : ∃ (w : World) (chunks : List Chunk), w.output = written chunks ∧
    chunks.map Chunk.thread = [1, 2] := by
  have hrun : ∃ w, Run (step (numeral 10)) anything .initial
      ([⟨1, .construct (.method (chars "f") [])⟩] ++ List.replicate 8 ⟨1, .put⟩ ++
        [⟨1, .finish⟩, ⟨2, .construct (.method (chars "g") [])⟩, ⟨1, .destroy⟩, ⟨2, .put⟩,
          ⟨2, .throws⟩]) w := exists_run _ (by decide +kernel)
  obtain ⟨w, h⟩ := hrun
  obtain ⟨chunks, houtput, hthreads, _⟩ := output_serial h
  exact ⟨w, chunks, houtput, hthreads⟩

end Valuelib.Debug.Tracing
