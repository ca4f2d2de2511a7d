import Valuelib.LightFuture.Table
import Valuelib.LightFuture.WriteOnce
import Valuelib.Base.Refinement

namespace Valuelib.LightFuture
open Checked Refinement

variable {V X F : Type} {c c' : Config V X F} {t : Table V X F}

def entryOf (s : SharedState V X F) : Option (Entry V X F) :=
  match s.which with
  | .noState => s.function.map .pending
  | .value | .exception => some (.settled s.get)

theorem entryOf_noState {s : SharedState V X F} (h : s.which = .noState) :
    entryOf s = s.function.map .pending := by
  rw [entryOf, h]

theorem entryOf_settled {s : SharedState V X F} (h : s.which ≠ .noState) :
    entryOf s = some (.settled s.get) := by
  unfold entryOf
  cases hw : s.which with
  | noState => exact absurd hw h
  | value => rfl
  | exception => rfl

/-- The program's objects stand for the table. -/
structure Refines (c : Config V X F) (t : Table V X F) : Prop where
  entries : c.states.map (fun cell => entryOf cell.state) = t.entries.map some
  promises : c.promises = t.promises
  futures : c.futures = t.futures
  frames : c.frames = t.frames
  calls : c.calls = t.calls

theorem initial_refines : Refines (Config.initial : Config V X F) .initial :=
  ⟨rfl, rfl, rfl, rfl, rfl⟩

namespace Refines

theorem length_eq (h : Refines c t) : c.states.length = t.entries.length := by
  simpa using congrArg List.length h.entries

theorem entry (h : Refines c t) {s : Nat} {cell : Cell V X F} (hs : c.states[s]? = some cell) :
    ∃ entry, t.entries[s]? = some entry ∧ entryOf cell.state = some entry := by
  have hlookup := congrArg (fun l : List (Option (Entry V X F)) => l[s]?) h.entries
  simp only [List.getElem?_map, hs, Option.map_some] at hlookup
  cases hentry : t.entries[s]? with
  | none =>
    rw [hentry] at hlookup
    cases hlookup
  | some entry =>
    rw [hentry] at hlookup
    exact ⟨entry, rfl, Option.some.inj hlookup⟩

/-- One state changes, and its entry with it. -/
theorem put (h : Refines c t) {s : Nat} {cell : Cell V X F} {entry : Entry V X F}
    (hcell : entryOf cell.state = some entry) :
    (c.states.set s cell).map (fun cell => entryOf cell.state) =
      (t.entries.set s entry).map some := by
  rw [List.map_set, List.map_set, h.entries, hcell]

/-- A state changes in a way that its users cannot see. -/
theorem put_same (h : Refines c t) {s : Nat} {cell cell' : Cell V X F}
    (hs : c.states[s]? = some cell) (hcell : entryOf cell'.state = entryOf cell.state) :
    (c.states.set s cell').map (fun cell => entryOf cell.state) = t.entries.map some := by
  obtain ⟨entry, hentry, hof⟩ := h.entry hs
  obtain ⟨hlt, rfl⟩ := List.getElem?_eq_some_iff.mp hentry
  rw [h.put (hcell.trans hof), List.set_getElem_self hlt]

theorem promiseAt (h : Refines c t) (p : Nat) :
    Both (fun a b => a = b ∧ c.promises[p]? = some (.holds a)) (c.promiseAt p)
      (Table.held t.promises p) := by
  unfold Config.promiseAt Table.held
  rw [← h.promises]
  cases hp : c.promises[p]? with
  | none => exact .error _ _
  | some slot =>
    cases slot with
    | gone => exact .error _ _
    | holds k => exact .ok ⟨rfl, rfl⟩

theorem futureAt (h : Refines c t) (f : Nat) :
    Both (fun a b => a = b ∧ c.futures[f]? = some (.holds a)) (c.futureAt f)
      (Table.held t.futures f) := by
  unfold Config.futureAt Table.held
  rw [← h.futures]
  cases hf : c.futures[f]? with
  | none => exact .error _ _
  | some slot =>
    cases slot with
    | gone => exact .error _ _
    | holds k => exact .ok ⟨rfl, rfl⟩

end Refines

/-- The destruction of a state cannot be seen, and no assertion stops it. -/
theorem release_refines (hc : Consistent c) (h : Refines c t) {k : Option Nat}
    (halive : ∀ s, k = some s → c.Alive s) : ∃ c', c.release k = .ok c' ∧ Refines c' t := by
  cases k with
  | none => exact ⟨c, rfl, h⟩
  | some s =>
    by_cases howners : c.owners s = 0
    · obtain ⟨cell, hs, hd⟩ := halive s rfl
      refine ⟨_, hc.release_last hs hd howners, ?_⟩
      exact ⟨h.put_same hs rfl, h.promises, h.futures, h.frames, h.calls⟩
    · exact ⟨c, by rw [Config.release, if_neg howners], h⟩

theorem breakPromise_pending {s : Nat} {f : F} (h : t.entries[s]? = some (.pending f)) :
    t.breakPromise (some s) =
      { t with entries := t.entries.set s (.settled (.throws (.futureError .brokenPromise))) } := by
  rw [Table.breakPromise, h]

theorem breakPromise_settled {s : Nat} {outcome : Outcome V X}
    (h : t.entries[s]? = some (.settled outcome)) : t.breakPromise (some s) = t := by
  rw [Table.breakPromise, h]

/-- A pending entry is one whose state waits, armed. -/
theorem entry_pending (hc : Consistent c) (h : Refines c t) {s : Nat} {cell : Cell V X F}
    (hs : c.states[s]? = some cell) (hw : cell.state.which = .noState) :
    ∃ f, cell.state.function = some f ∧ t.entries[s]? = some (.pending f) := by
  obtain ⟨f, hf⟩ := Option.ne_none_iff_exists'.mp ((hc.cells s cell hs).armed hw)
  obtain ⟨entry, hentry, hof⟩ := h.entry hs
  rw [entryOf_noState hw, hf] at hof
  cases hof
  exact ⟨f, hf, hentry⟩

theorem entry_settled (h : Refines c t) {s : Nat} {cell : Cell V X F}
    (hs : c.states[s]? = some cell) (hw : cell.state.which ≠ .noState) :
    t.entries[s]? = some (.settled cell.state.get) := by
  obtain ⟨entry, hentry, hof⟩ := h.entry hs
  rw [entryOf_settled hw] at hof
  cases hof
  exact hentry

/-- A promise is destroyed, with the count, the broken promise and the handle. -/
theorem destroyPromise_refines (hc : Consistent c) (h : Refines c t) {p : Nat} {k : Option Nat}
    (hp : c.promises[p]? = some (.holds k)) :
    ∃ c', c.destroyPromise p = .ok c' ∧
      Refines c' (Table.breakPromise { t with promises := t.promises.set p .gone } k) := by
  cases k with
  | none =>
    exact ⟨_, destroyPromise_empty hp,
      ⟨h.entries, by rw [h.promises]; rfl, h.futures, h.frames, h.calls⟩⟩
  | some s =>
    obtain ⟨cell, state, hs, hremove, heq, hc', halive, _⟩ := abandoned_spec hc hp
    have hone : cell.state.promises = 1 := by
      obtain ⟨_, hs', hd⟩ := hc.held hp
      rw [hs] at hs'
      cases hs'
      rw [(hc.cells s cell hs).counted hd, hc.promisesOf_held hp]
    rw [SharedState.removePromise_spec hone] at hremove
    have hpromises : c.promises.set p .gone = t.promises.set p .gone := by rw [h.promises]
    have hgone : Refines (c.abandoned p s cell state)
        (Table.breakPromise { t with promises := t.promises.set p .gone } (some s)) := by
      by_cases hw : cell.state.which = .noState
      · obtain ⟨f, _, hentry⟩ := entry_pending hc h hs hw
        rw [if_pos hw] at hremove
        cases hremove
        rw [breakPromise_pending (t := { t with promises := t.promises.set p .gone }) hentry]
        exact ⟨h.put rfl, hpromises, h.futures, h.frames, h.calls⟩
      · rw [if_neg hw] at hremove
        cases hremove
        rw [breakPromise_settled (t := { t with promises := t.promises.set p .gone })
          (entry_settled h hs hw)]
        exact ⟨h.put_same hs rfl, hpromises, h.futures, h.frames, h.calls⟩
    obtain ⟨c', hrelease, hrefines⟩ := release_refines hc' hgone
      (k := some s) (fun _ hk => by cases hk; exact halive)
    exact ⟨c', heq.trans hrelease, hrefines⟩

/-- An outcome is set and the completion function is started with it. -/
theorem invoke_refines (h : Refines c t) {s : Nat} {cell : Cell V X F}
    {state : SharedState V X F} (hs : c.states[s]? = some cell) (hd : cell.destroyed = false)
    (hset : state.which ≠ .noState) {f : F} (hf : state.function = some f) :
    ∃ c', c.invoke s { cell with state := state } = .ok (c', .invoked t.futures.length) ∧
      Refines c' (t.settle s f state.get) := by
  have hlt := (List.getElem?_eq_some_iff.mp hs).1
  have hget : ({ state with function := none } : SharedState V X F).get = state.get :=
    SharedState.get_congr rfl rfl
  have hcall : c.invoke s { cell with state := state } =
      .ok (c.started s { cell with state := state } f, .invoked c.futures.length) :=
    invoke_ok hlt hd hf hset
  refine ⟨c.started s { cell with state := state } f, by rw [hcall, h.futures], ?_, h.promises,
    ?_, ?_, ?_⟩
  · refine h.put ?_
    rw [← hget]
    exact entryOf_settled hset
  · exact congrArg (· ++ [Slot.holds (some s)]) h.futures
  · exact congrArg₂ (fun (fs : List Slot) frames => fs.length :: frames) h.futures h.frames
  · exact congrArg (· ++ [_]) h.calls

/-- The same answer on both sides, and what the objects stand for afterwards. -/
abbrev Same (x : Except Fault (Config V X F × Response V X))
    (y : Except Unit (Table V X F × Response V X)) : Prop := Both (Alike Refines) x y

theorem same_ok {x : Except Fault (Config V X F × Response V X)} {t' : Table V X F}
    {r : Response V X} (h : ∃ c', x = .ok (c', r) ∧ Refines c' t') : Same x (.ok (t', r)) := by
  obtain ⟨c', hx, hrefines⟩ := h
  exact .of_ok hx rfl ⟨hrefines, rfl⟩

theorem same_here (h : Refines c t) (r : Response V X) : Same (.ok (c, r)) (.ok (t, r)) := by
  apply Both.ok
  exact ⟨h, rfl⟩

/-- Slots are changed, on both sides alike. -/
theorem Refines.slots (h : Refines c t) {ps ps' fs fs' : List Slot} (hps : ps = ps')
    (hfs : fs = fs') :
    Refines { c with promises := ps, futures := fs }
      { t with promises := ps', futures := fs' } :=
  ⟨h.entries, hps, hfs, h.frames, h.calls⟩

theorem promiseToCall_same (h : Refines c t) (f : F) :
    Same (step c (.promiseToCall f)) (t.step (.promiseToCall f)) := by
  refine .ok ⟨⟨?_, ?_, h.futures, h.frames, h.calls⟩, rfl⟩
  · simp only [Config.promiseToCall, List.map_append, h.entries]
    rfl
  · simp only [Config.promiseToCall, h.promises, h.length_eq]

theorem moveConstruct_same (h : Refines c t) (q : Nat) :
    Same (step c (.moveConstruct q)) (t.step (.moveConstruct q)) := by
  simp only [step, answer, Config.moveConstruct, Table.step, bind_assoc, pure_bind]
  refine (h.promiseAt q).bind ?_
  intro k _ hk
  obtain ⟨rfl, _⟩ := hk
  exact .ok ⟨h.slots (by rw [h.promises]) h.futures, rfl⟩

theorem swap_same (h : Refines c t) (p q : Nat) :
    Same (step c (.swap p q)) (t.step (.swap p q)) := by
  simp only [step, answer, Config.swap, Table.step, bind_assoc, pure_bind]
  refine (h.promiseAt p).bind ?_
  intro hp _ hhp
  obtain ⟨rfl, _⟩ := hhp
  refine (h.promiseAt q).bind ?_
  intro hq _ hhq
  obtain ⟨rfl, _⟩ := hhq
  exact .ok ⟨h.slots (by rw [h.promises]) h.futures, rfl⟩

/-- A promise is missing on both sides or there on both. -/
theorem Refines.promise_cases (h : Refines c t) (p : Nat) :
    (∃ why, c.promiseAt p = .error why ∧ Table.held t.promises p = .error ()) ∨
      ∃ k, c.promises[p]? = some (.holds k) ∧ c.promiseAt p = .ok k ∧
        Table.held t.promises p = .ok k := by
  have hboth := h.promiseAt p
  cases hx : c.promiseAt p with
  | error why =>
    rw [hx] at hboth
    cases hy : Table.held t.promises p with
    | error _ => exact .inl ⟨why, rfl, rfl⟩
    | ok _ =>
      rw [hy] at hboth
      cases hboth
  | ok k =>
    have hp := promiseAt_ok.mp hx
    exact .inr ⟨k, hp, rfl, by rw [Table.held, ← h.promises, hp]⟩

theorem destroyPromise_same (hc : Consistent c) (h : Refines c t) (p : Nat) :
    Same (step c (.destroyPromise p)) (t.step (.destroyPromise p)) := by
  rw [step, Table.step]
  rcases h.promise_cases p with ⟨why, hx, hy⟩ | ⟨k, hp, hx, hy⟩
  · simp only [Config.destroyPromise, hx, hy]
    exact .error _ _
  · obtain ⟨c', hdestroy, hrefines⟩ := destroyPromise_refines hc h hp
    rw [hdestroy, hy]
    exact .ok ⟨hrefines, rfl⟩

/-- A move assignment does on both sides the same. -/
theorem moveAssign_same (hc : Consistent c) (h : Refines c t) (p q : Nat) :
    Same (step c (.moveAssign p q)) (t.step (.moveAssign p q)) := by
  rw [step, Table.step]
  rcases h.promise_cases p with ⟨why, hx, hy⟩ | ⟨hp, hcp, hx, hy⟩
  · simp only [Config.moveAssign, hx, hy]
    exact .error _ _
  rcases h.promise_cases q with ⟨why, hx', hy'⟩ | ⟨hq, hcq, hx', hy'⟩
  · simp only [Config.moveAssign, Config.moveConstruct, hx, hy, hx', hy']
    exact .error _ _
  let left := if p = q then none else hp
  have hexchanged : Refines (c.exchanged p q left hq) { t with
      promises := (t.promises.set p (.holds none)).set q (.holds left) ++ [.holds hq] } :=
    h.slots (by rw [h.promises]) h.futures
  have hlast : (c.exchanged p q left hq).promises[c.promises.length]? = some (.holds hq) := by
    simp [Config.exchanged]
  obtain ⟨c', hdestroy, hrefines⟩ :=
    destroyPromise_refines (exchanged_consistent hc hcp hcq) hexchanged hlast
  have hgone : ((t.promises.set p (.holds none)).set q (.holds left) ++ [Slot.holds hq]).set
      c.promises.length .gone =
        (t.promises.set p (.holds none)).set q (.holds left) ++ [.gone] := by
    rw [List.set_append_right _ _ (by simp [h.promises])]
    simp [h.promises]
  rw [moveAssign_eq hcp hcq, hdestroy, hy, hy']
  rw [hgone] at hrefines
  exact .ok ⟨hrefines, rfl⟩

/-- An outcome reaches a state that may or may not have one. -/
theorem set_same (hc : Consistent c) (h : Refines c t) {p s : Nat} {cell : Cell V X F}
    (hp : c.promises[p]? = some (.holds (some s))) (hs : c.states[s]? = some cell)
    {outcome : Outcome V X} {moving : Option (ExceptionPtr X)}
    {set : Except (ExceptionPtr X) (SharedState V X F)}
    (hrefused : cell.state.which ≠ .noState →
      set = .error (.futureError .promiseAlreadySatisfied))
    (hthrows : ∀ e, cell.state.which = .noState → moving = some e → set = .error e)
    (hset : cell.state.which = .noState → moving = none → ∃ state, set = .ok state ∧
      state.which ≠ .noState ∧ state.function = cell.state.function ∧ state.get = outcome) :
    Same (match set with
      | .error e => .ok (c, .threw e)
      | .ok state => c.invoke s { cell with state := state }) (t.set p outcome moving) := by
  have hheld : Table.held t.promises p = .ok (some s) := by
    rw [Table.held, ← h.promises, hp]
  obtain ⟨_, hs', hd⟩ := hc.held hp
  rw [hs] at hs'
  cases hs'
  by_cases hw : cell.state.which = .noState
  · obtain ⟨f, hf, hentry⟩ := entry_pending hc h hs hw
    cases moving with
    | some e =>
      rw [hthrows e hw rfl, Table.set, hheld]
      simp only [bind, Except.bind, hentry]
      exact same_here h _
    | none =>
      obtain ⟨state, rfl, hstate, hfunction, rfl⟩ := hset hw rfl
      rw [Table.set, hheld]
      simp only [bind, Except.bind, hentry]
      exact same_ok (invoke_refines h hs hd hstate (hfunction.trans hf))
  · rw [hrefused hw, Table.set, hheld]
    simp only [bind, Except.bind, entry_settled h hs hw]
    exact same_here h _

theorem setValue_same (hc : Consistent c) (h : Refines c t) (p : Nat) (v : V)
    (passing moving : Option (ExceptionPtr X)) :
    Same (step c (.setValue p v passing moving)) (t.step (.setValue p v passing moving)) := by
  rcases h.promise_cases p with ⟨why, hx, hy⟩ | ⟨k, hp, hx, hy⟩
  · simp only [step, Config.setValue, Config.satisfier, hx, Table.step, hy]
    exact .error _ _
  cases k with
  | none =>
    simp only [step, Config.setValue, Config.satisfier, hx, Table.step, hy, Table.set]
    exact .error _ _
  | some s =>
    obtain ⟨cell, hs, _⟩ := hc.held hp
    have hsatisfier := satisfier_ok hc hp hs
    cases passing with
    | some e =>
      simp only [step, Config.setValue, hsatisfier, Table.step, hy]
      exact same_here h _
    | none =>
      simp only [step, Config.setValue, hsatisfier, Table.step, hy]
      refine set_same hc h hp hs ?_ ?_ ?_
      · intro hw
        cases hwhich : cell.state.which <;> simp_all [SharedState.setValue]
      · intro e hw hmoving
        simp [SharedState.setValue, hw, hmoving]
      · intro hw hmoving
        exact ⟨{ cell.state with storage := .value v, which := .value },
          by simp [SharedState.setValue, hw, hmoving], by simp, rfl, rfl⟩

theorem setException_same (hc : Consistent c) (h : Refines c t) (p : Nat) (ep : ExceptionPtr X) :
    Same (step c (.setException p ep)) (t.step (.setException p ep)) := by
  rcases h.promise_cases p with ⟨why, hx, hy⟩ | ⟨k, hp, hx, hy⟩
  · simp only [step, Config.setException, Config.satisfier, hx, Table.step, Table.set, hy]
    exact .error _ _
  cases k with
  | none =>
    simp only [step, Config.setException, Config.satisfier, hx, Table.step, hy, Table.set]
    exact .error _ _
  | some s =>
    obtain ⟨cell, hs, _⟩ := hc.held hp
    simp only [step, Config.setException, satisfier_ok hc hp hs, Table.step]
    refine set_same hc h hp hs ?_ ?_ ?_
    · intro hw
      cases hwhich : cell.state.which <;> simp_all [SharedState.setException]
    · intro e hw hmoving
      cases hmoving
    · intro hw _
      exact ⟨{ cell.state with storage := .exception ep, which := .exception },
        by simp [SharedState.setException, hw], by simp, rfl, rfl⟩

/-- What a future gives is what the table holds. -/
theorem get_read (hc : Consistent c) (h : Refines c t) {k : Option Nat}
    (halive : ∀ s, k = some s → c.Alive s) : c.get k = .ok (t.read k) := by
  cases k with
  | none => rfl
  | some s =>
    obtain ⟨cell, hs, hd⟩ := halive s rfl
    have hget : c.get (some s) = .ok cell.state.get :=
      bind_ok.mpr ⟨cell, stateAt_ok.mpr ⟨hs, hd⟩, rfl⟩
    rw [hget]
    by_cases hw : cell.state.which = .noState
    · obtain ⟨f, _, hentry⟩ := entry_pending hc h hs hw
      rw [Table.read, hentry, SharedState.get_noState hw]
    · rw [Table.read, entry_settled h hs hw]

theorem valid_isSettled (hc : Consistent c) (h : Refines c t) {k : Option Nat}
    (halive : ∀ s, k = some s → c.Alive s) : c.valid k = .ok (t.isSettled k) := by
  cases k with
  | none => rfl
  | some s =>
    obtain ⟨cell, hs, hd⟩ := halive s rfl
    have hvalid : c.valid (some s) = .ok cell.state.hasState :=
      bind_ok.mpr ⟨cell, stateAt_ok.mpr ⟨hs, hd⟩, rfl⟩
    rw [hvalid]
    by_cases hw : cell.state.which = .noState
    · obtain ⟨f, _, hentry⟩ := entry_pending hc h hs hw
      rw [Table.isSettled, hentry, SharedState.hasState_false.mpr hw]
    · rw [Table.isSettled, entry_settled h hs hw, SharedState.hasState_true.mpr hw]

/-- The futures are rearranged and one of their handles lets go. -/
theorem reassign_refines (hc : Consistent c) (h : Refines c t) {fs fs' : List Slot} (hfs : fs = fs')
    {k : Option Nat} (halive : ∀ s, k = some s → c.Alive s)
    (hlive : ∀ s, .holds (some s) ∈ fs → c.Alive s) :
    ∃ c', Config.release { c with futures := fs } k = .ok c' ∧
      Refines c' { t with futures := fs' } := by
  have hc' := hc.futures_only hlive
  have h' := h.slots h.promises hfs
  exact release_refines hc' h' halive

theorem getFuture_same (h : Refines c t) (p : Nat) :
    Same (step c (.getFuture p)) (t.step (.getFuture p)) := by
  simp only [step, answer, Config.getFuture, Table.step, bind_assoc, pure_bind]
  refine (h.promiseAt p).bind ?_
  intro k _ hk
  obtain ⟨rfl, _⟩ := hk
  exact .ok ⟨h.slots h.promises (by rw [h.futures]), rfl⟩

theorem copyFuture_same (h : Refines c t) (f : Nat) :
    Same (step c (.copyFuture f)) (t.step (.copyFuture f)) := by
  simp only [step, answer, Config.copyFuture, Table.step, bind_assoc, pure_bind]
  refine (h.futureAt f).bind ?_
  intro k _ hk
  obtain ⟨rfl, _⟩ := hk
  exact .ok ⟨h.slots h.promises (by rw [h.futures]), rfl⟩

theorem moveFuture_same (h : Refines c t) (f : Nat) :
    Same (step c (.moveFuture f)) (t.step (.moveFuture f)) := by
  simp only [step, answer, Config.moveFuture, Table.step, bind_assoc, pure_bind]
  refine (h.futureAt f).bind ?_
  intro k _ hk
  obtain ⟨rfl, _⟩ := hk
  exact .ok ⟨h.slots h.promises (by rw [h.futures]), rfl⟩

/-- A slot that is overwritten leaves only living states in the slots. -/
theorem alive_set {fs : List Slot} {slot : Slot} {i : Nat}
    (hfs : ∀ s, .holds (some s) ∈ fs → c.Alive s)
    (hslot : ∀ s, slot = .holds (some s) → c.Alive s) :
    ∀ s, .holds (some s) ∈ fs.set i slot → c.Alive s := by
  intro s hm
  rcases mem_put hm with hm | hm
  · exact hfs s hm
  · exact hslot s hm.symm

theorem Consistent.alive_slot (hc : Consistent c) {g : Nat} {k : Option Nat}
    (hg : c.futures[g]? = some (.holds k)) : ∀ s, Slot.holds k = .holds (some s) → c.Alive s := by
  intro s hs
  cases hs
  exact hc.held_by_future hg

theorem assignFuture_same (hc : Consistent c) (h : Refines c t) (f g : Nat) :
    Same (step c (.assignFuture f g)) (t.step (.assignFuture f g)) := by
  simp only [step, answer, Config.assignFuture, Table.step, bind_assoc]
  refine (h.futureAt f).bind ?_
  intro k _ hk
  refine (h.futureAt g).bind ?_
  intro l _ hl
  obtain ⟨rfl, hl⟩ := hl
  have hfs : c.futures.set f (.holds l) = t.futures.set f (.holds l) := by rw [h.futures]
  obtain ⟨c', hrelease, hrefines⟩ := reassign_refines hc h hfs (k := k)
    (fun s hs => hc.held_by_future (hs ▸ hk.2)) (alive_set hc.futures (hc.alive_slot hl))
  simp only [hrelease]
  exact .ok ⟨hrefines, rfl⟩

theorem moveAssignFuture_same (hc : Consistent c) (h : Refines c t) (f g : Nat) :
    Same (step c (.moveAssignFuture f g)) (t.step (.moveAssignFuture f g)) := by
  simp only [step, answer, Config.moveAssignFuture, Table.step, bind_assoc]
  refine (h.futureAt f).bind ?_
  intro k _ hk
  refine (h.futureAt g).bind ?_
  intro l _ hl
  obtain ⟨rfl, hl⟩ := hl
  have hfs : (c.futures.set g (.holds none)).set f (.holds l) =
      (t.futures.set g (.holds none)).set f (.holds l) := by rw [h.futures]
  obtain ⟨c', hrelease, hrefines⟩ := reassign_refines hc h hfs (k := k)
    (fun s hs => hc.held_by_future (hs ▸ hk.2))
    (alive_set (alive_set hc.futures (fun s hs => by cases hs)) (hc.alive_slot hl))
  simp only [hrelease]
  exact .ok ⟨hrefines, rfl⟩

/-- A future goes away, by its destructor or with the call it was the argument of. -/
theorem dropFuture_refines (hc : Consistent c) (h : Refines c t) {f : Nat} {k : Option Nat}
    (hf : c.futures[f]? = some (.holds k)) :
    ∃ c', c.dropFuture f = .ok c' ∧ Refines c' { t with futures := t.futures.set f .gone } := by
  have hfs : c.futures.set f .gone = t.futures.set f .gone := by rw [h.futures]
  obtain ⟨c', hrelease, hrefines⟩ := reassign_refines hc h hfs (k := k)
    (fun s hs => hc.held_by_future (hs ▸ hf)) (alive_set hc.futures (fun s hs => by cases hs))
  exact ⟨c', bind_ok.mpr ⟨k, futureAt_ok.mpr hf, hrelease⟩, hrefines⟩

theorem dropFuture_same (hc : Consistent c) (h : Refines c t) (f : Nat) :
    Same (step c (.dropFuture f)) (t.step (.dropFuture f)) := by
  have hdrop : Both Refines (c.dropFuture f)
      (Table.held t.futures f >>= fun _ => pure { t with futures := t.futures.set f .gone }) := by
    refine (h.futureAt f).bind ?_
    intro k _ hk
    have hfs : c.futures.set f .gone = t.futures.set f .gone := by rw [h.futures]
    obtain ⟨c', hrelease, hrefines⟩ := reassign_refines hc h hfs (k := k)
      (fun s hs => hc.held_by_future (hs ▸ hk.2)) (alive_set hc.futures (fun s hs => by cases hs))
    exact .of_ok hrelease rfl hrefines
  have hanswer : Same (answer (c.dropFuture f) .done) (_ >>= fun t => pure (t, .done)) :=
    hdrop.bind (fun a b hab => .ok ⟨hab, rfl⟩)
  simpa only [step, Table.step, bind_assoc, pure_bind] using hanswer

theorem endCompletion_refines (hc : Consistent c) (h : Refines c t) :
    Both Refines c.endCompletion t.endCall := by
  unfold Config.endCompletion Table.endCall
  rw [← h.frames]
  cases hframes : c.frames with
  | nil => exact .error _ _
  | cons argument frames =>
    have hc' : Consistent { c with frames := frames } :=
      hc.relocate rfl rfl (fun _ => rfl) hc.promises hc.futures
    have hrefines : Refines { c with frames := frames }
        { t with frames := frames, futures := c.futures } :=
      ⟨h.entries, h.promises, rfl, rfl, h.calls⟩
    simp only [← h.futures]
    cases hf : c.futures[argument]? with
    | none => exact .ok hrefines
    | some slot =>
      cases slot with
      | gone => exact .ok hrefines
      | holds k =>
        obtain ⟨c', hdrop, hrefines'⟩ := dropFuture_refines hc' hrefines hf
        exact .of_ok hdrop rfl hrefines'

theorem endCompletion_same (hc : Consistent c) (h : Refines c t) (r : Response V X) :
    Same (answer c.endCompletion r) (t.endCall >>= fun t => pure (t, r)) := by
  apply (endCompletion_refines hc h).bind
  intro c' t' hab
  apply Both.ok
  exact ⟨hab, rfl⟩

theorem read_same (hc : Consistent c) (h : Refines c t) (f : Nat) :
    Same (step c (.get f)) (t.step (.get f)) ∧ Same (step c (.valid f)) (t.step (.valid f)) := by
  constructor
  · refine (h.futureAt f).bind ?_
    intro k _ hk
    obtain ⟨rfl, hk⟩ := hk
    rw [get_read hc h (fun s hs => hc.held_by_future (hs ▸ hk))]
    exact same_here h _
  · refine (h.futureAt f).bind ?_
    intro k _ hk
    obtain ⟨rfl, hk⟩ := hk
    rw [valid_isSettled hc h (fun s hs => hc.held_by_future (hs ▸ hk))]
    exact same_here h _

/-- Every operation does to the objects what it does to the table. -/
theorem step_same (hc : Consistent c) (h : Refines c t) (e : Event V X F) :
    Same (step c e) (t.step e) := by
  cases e with
  | promiseToCall f => exact promiseToCall_same h f
  | moveConstruct q => exact moveConstruct_same h q
  | moveAssign p q => exact moveAssign_same hc h p q
  | swap p q => exact swap_same h p q
  | setValue p v passing moving => exact setValue_same hc h p v passing moving
  | setException p ep => exact setException_same hc h p ep
  | destroyPromise p => exact destroyPromise_same hc h p
  | getFuture p => exact getFuture_same h p
  | defaultFuture => exact .ok ⟨h.slots h.promises (by rw [h.futures]), rfl⟩
  | copyFuture f => exact copyFuture_same h f
  | moveFuture f => exact moveFuture_same h f
  | assignFuture f g => exact assignFuture_same hc h f g
  | moveAssignFuture f g => exact moveAssignFuture_same hc h f g
  | dropFuture f => exact dropFuture_same hc h f
  | get f => exact (read_same hc h f).1
  | valid f => exact (read_same hc h f).2
  | completionReturns => exact endCompletion_same hc h .done
  | completionThrows ep => exact endCompletion_same hc h (.threw ep)

/-- To those who use them, promises and futures are a table of outcomes that are
written once: whatever is done with them, in any order and from inside completion
functions, is answered as the table answers it. -/
theorem answers_table (es : List (Event V X F)) :
    answers step Config.initial es = answers Table.step Table.initial es := by
  have hstep : ∀ (c : Config V X F) (t : Table V X F) (e : Event V X F),
      (Consistent c ∧ Refines c t) →
        Both (Alike fun c t => Consistent c ∧ Refines c t) (step c e) (t.step e) := by
    intro c t e hrel
    obtain ⟨hc, h⟩ := hrel
    have hsame := (step_same hc h e).and_left (fun a ha => ((step_keeps hc e).of_ok ha).1)
    refine hsame.mono ?_
    intro a b hab
    exact ⟨⟨hab.1, hab.2.1⟩, hab.2.2⟩
  exact answers_eq hstep ⟨initial_consistent, initial_refines⟩ es

end Valuelib.LightFuture
