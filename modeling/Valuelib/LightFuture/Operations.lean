import Valuelib.LightFuture.Consistent

namespace Valuelib.LightFuture
open Checked

variable {V X F : Type} {c c' : Config V X F}

/-- What every operation does: no assertion fires, the invariant is kept, and
states change only as they may. -/
def Keeps (breaks : Prop) (c : Config V X F) (x : Except Fault (Config V X F)) : Prop :=
  Ensures x (fun c' => Consistent c' ∧ Grown (Evolves breaks) c c')

theorem Evolves.mono {b b' : Prop} {x y : Cell V X F} (h : Evolves b x y) (hb : b → b') :
    Evolves b' x y := by
  refine ⟨h.kept, h.disarmed, ?_⟩
  intro hn
  exact h.delivered (mt hb hn)

theorem Evolves.trans {breaks : Prop} {x y z : Cell V X F} (h : Evolves breaks x y)
    (k : Evolves breaks y z) : Evolves breaks x z := by
  refine ⟨?_, fun hx => k.disarmed (h.disarmed hx), ?_⟩
  · intro hx
    obtain ⟨hw, hs⟩ := h.kept hx
    obtain ⟨hw', hs'⟩ := k.kept (hw ▸ hx)
    exact ⟨hw'.trans hw, hs'.trans hs⟩
  · intro hb hz
    rcases k.delivered hb hz with hy | hf
    · exact (h.delivered hb hy).imp id k.disarmed
    · exact .inr hf

theorem Grown.trans {breaks : Prop} {c₁ : Config V X F} (h : Grown (Evolves breaks) c c₁)
    (hlen : c₁.states.length = c.states.length) (k : Grown (Evolves breaks) c₁ c') :
    Grown (Evolves breaks) c c' := by
  refine ⟨?_, ?_⟩
  · intro s a ha
    obtain ⟨b, hb, hab⟩ := h.old s a ha
    obtain ⟨d, hd, hbd⟩ := k.old s b hb
    exact ⟨d, hd, hab.trans hbd⟩
  · intro s b hnone hb
    refine k.new s b ?_ hb
    rw [List.getElem?_eq_none_iff] at hnone ⊢
    omega

theorem Grown.mono {r r' : Cell V X F → Cell V X F → Prop} (h : Grown r c c')
    (hr : ∀ a b, r a b → r' a b) : Grown r' c c' := by
  refine ⟨?_, h.new⟩
  intro s a ha
  obtain ⟨b, hs, hab⟩ := h.old s a ha
  exact ⟨b, hs, hr a b hab⟩

theorem Grown.after {r : Cell V X F → Cell V X F → Prop} {c₁ : Config V X F}
    (h : Grown r c₁ c') (hs : c₁.states = c.states) : Grown r c c' := by
  constructor
  · intro s
    rw [← hs]
    exact h.old s
  · intro s
    rw [← hs]
    exact h.new s

/-- Moving handles between slots keeps the invariant when each state keeps its
number of promises and only living states are held. -/
theorem Consistent.relocate (hc : Consistent c) (hs : c'.states = c.states)
    (hcalls : c'.calls = c.calls) (hn : ∀ s, c'.promisesOf s = c.promisesOf s)
    (hp : ∀ s, .holds (some s) ∈ c'.promises → c.Alive s)
    (hf : ∀ s, .holds (some s) ∈ c'.futures → c.Alive s) : Consistent c' := by
  have halive : ∀ s, c.Alive s → c'.Alive s := fun s ⟨cell, h, hd⟩ => ⟨cell, hs ▸ h, hd⟩
  constructor
  · intro s cell h
    rw [hn, Config.callsOf, hcalls]
    exact hc.cells s cell (hs ▸ h)
  · intro s h
    exact halive s (hp s h)
  · intro s h
    exact halive s (hf s h)
  · rw [hcalls, hs]
    exact hc.calls

theorem Config.Alive.put {k s : Nat} {b : Cell V X F} (h : c.Alive k)
    (hs : c'.states = c.states.set s b) (hd : k = s → b.destroyed = false) : c'.Alive k := by
  obtain ⟨cell, hk, hl⟩ := h
  by_cases he : s = k
  · subst he
    exact ⟨b, by rw [hs, List.getElem?_set_self (List.getElem?_eq_some_iff.mp hk).1], hd rfl⟩
  · exact ⟨cell, by rw [hs, List.getElem?_set_ne he, hk], hl⟩

/-- Changing one state keeps the invariant when that state is right afterwards
and nothing about the others has changed. -/
theorem Consistent.put (hc : Consistent c) {s : Nat} {b : Cell V X F}
    (hs : c'.states = c.states.set s b)
    (hb : CellOk (c'.promisesOf s) (c'.callsOf s) b)
    (hn : ∀ k, k ≠ s → c'.promisesOf k = c.promisesOf k)
    (hcs : ∀ k, k ≠ s → c'.callsOf k = c.callsOf k)
    (hp : ∀ k, .holds (some k) ∈ c'.promises → c'.Alive k)
    (hf : ∀ k, .holds (some k) ∈ c'.futures → c'.Alive k)
    (hcalls : ∀ call ∈ c'.calls, call.state < c.states.length) : Consistent c' := by
  refine ⟨?_, hp, hf, ?_⟩
  · intro k cell h
    rw [hs] at h
    by_cases hk : s = k
    · subst hk
      have hlt := (List.getElem?_eq_some_iff.mp h).1
      rw [List.length_set] at hlt
      rw [List.getElem?_set_self hlt] at h
      cases h
      exact hb
    · rw [List.getElem?_set_ne hk] at h
      rw [hn k (Ne.symm hk), hcs k (Ne.symm hk)]
      exact hc.cells k cell h
  · intro call hm
    rw [hs, List.length_set]
    exact hcalls call hm

theorem initial_consistent : Consistent (Config.initial : Config V X F) := by
  constructor
  · simp [Config.initial]
  · simp [Config.initial]
  · simp [Config.initial]
  · simp [Config.initial]

theorem Consistent.unowned (hc : Consistent c) {s : Nat} {cell : Cell V X F}
    (hs : c.states[s]? = some cell) (howners : c.owners s = 0) :
    CellOk 0 (c.callsOf s) cell := by
  have hzero : c.promisesOf s = 0 := (Nat.add_eq_zero_iff.mp howners).1
  exact hzero ▸ hc.cells s cell hs

/-- The last owner finds a satisfied state without promises, so neither
assertion of the destructor fires. -/
theorem destructor_ok {calls : List (Call V X F)} {cell : Cell V X F} (hok : CellOk 0 calls cell)
    (hd : cell.destroyed = false) : cell.state.destructor = .ok () := by
  have hcount := hok.counted hd
  have hset := hok.satisfied rfl
  cases hw : cell.state.which <;> simp_all [SharedState.destructor]

theorem destroyed_consistent (hc : Consistent c) {s : Nat} {cell : Cell V X F}
    (hs : c.states[s]? = some cell) (howners : c.owners s = 0) :
    Consistent (c.putState s { cell with destroyed := true }) := by
  have hok := hc.cells s cell hs
  obtain ⟨hzero, hfzero⟩ := Nat.add_eq_zero_iff.mp howners
  have hp : .holds (some s) ∉ c.promises := List.count_eq_zero.mp hzero
  have hf : .holds (some s) ∉ c.futures := List.count_eq_zero.mp hfzero
  refine hc.put rfl ?_ (fun _ _ => rfl) (fun _ _ => rfl) ?_ ?_ hc.calls
  · exact ⟨by simp, hok.single, hok.satisfied, hok.tagged, hok.armed, hok.called, hok.reported⟩
  · intro k hk
    exact (hc.promises k hk).put rfl (fun he => absurd (he ▸ hk) hp)
  · intro k hk
    exact (hc.futures k hk).put rfl (fun he => absurd (he ▸ hk) hf)

/-- The last owner lets go, and the destructor finds no promise left. -/
theorem Consistent.release_last (hc : Consistent c) {s : Nat} {cell : Cell V X F}
    (hs : c.states[s]? = some cell) (hd : cell.destroyed = false) (howners : c.owners s = 0) :
    c.release (some s) = .ok (c.putState s { cell with destroyed := true }) := by
  rw [Config.release, if_pos howners]
  apply bind_ok.mpr
  refine ⟨cell, stateAt_ok.mpr ⟨hs, hd⟩, ?_⟩
  exact bind_ok.mpr ⟨(), destructor_ok (hc.unowned hs howners) hd, rfl⟩

/-- Letting go of a state keeps the invariant. -/
theorem release_keeps (hc : Consistent c) (h : Option Nat) (breaks : Prop) :
    Keeps breaks c (c.release h) := by
  cases h with
  | none => exact ⟨hc, .of_states_eq (.refl breaks) rfl⟩
  | some s =>
    unfold Config.release
    dsimp only
    split
    · rename_i howners
      refine Ensures.bind (stateAt_ensures (Q := fun cell =>
        c.states[s]? = some cell ∧ cell.destroyed = false) (fun _ h hd => ⟨h, hd⟩)) ?_
      rintro cell ⟨hs, hd⟩
      rw [destructor_ok (hc.unowned hs howners) hd]
      exact ⟨destroyed_consistent hc hs howners,
        Grown.put (b := { cell with destroyed := true }) (.refl breaks) hs
          (.of_state_eq breaks rfl) rfl⟩
    · exact ⟨hc, .of_states_eq (.refl breaks) rfl⟩

theorem release_total (hc : Consistent c) {s : Nat} (halive : c.Alive s) :
    ∃ c', c.release (some s) = .ok c' := by
  obtain ⟨cell, hs, hd⟩ := halive
  by_cases howners : c.owners s = 0
  · exact ⟨_, hc.release_last hs hd howners⟩
  · exact ⟨c, by rw [Config.release, if_neg howners]⟩

/-- Releasing touches nothing but the mark of the destroyed state. -/
theorem release_frame {h : Option Nat} (hr : c.release h = .ok c') :
    c'.promises = c.promises ∧ ∀ (s : Nat) cell, c.states[s]? = some cell →
      ∃ cell', c'.states[s]? = some cell' ∧ cell'.state = cell.state := by
  unfold Config.release at hr
  split at hr
  · cases hr
    exact ⟨rfl, fun s cell hs => ⟨cell, hs, rfl⟩⟩
  · rename_i k
    split at hr
    · obtain ⟨a, ha, hr⟩ := bind_ok.mp hr
      obtain ⟨_, _, hr⟩ := bind_ok.mp hr
      cases hr
      refine ⟨rfl, ?_⟩
      intro s cell hs
      have hka := (stateAt_ok.mp ha).1
      by_cases hk : k = s
      · subst hk
        rw [hs] at hka
        cases hka
        exact ⟨_, List.getElem?_set_self (List.getElem?_eq_some_iff.mp hs).1, rfl⟩
      · exact ⟨cell, by rw [Config.putState, List.getElem?_set_ne hk, hs], rfl⟩
    · cases hr
      exact ⟨rfl, fun s cell hs => ⟨cell, hs, rfl⟩⟩

/-- Releasing a handle that has just left its slot. -/
theorem Consistent.releases (hc : Consistent c') (hs : c'.states = c.states) (h : Option Nat)
    (breaks : Prop) : Keeps breaks c (c'.release h) := by
  apply (release_keeps hc h breaks).mono
  intro c'' hk
  exact ⟨hk.1, hk.2.after hs⟩

theorem Consistent.held (hc : Consistent c) {p s : Nat}
    (h : c.promises[p]? = some (.holds (some s))) : c.Alive s := by
  apply hc.promises s
  exact List.mem_of_getElem? h

theorem Consistent.held_by_future (hc : Consistent c) {f s : Nat}
    (h : c.futures[f]? = some (.holds (some s))) : c.Alive s := by
  apply hc.futures s
  exact List.mem_of_getElem? h

/-- A new promise takes the handle of the old one. -/
theorem moveConstruct_consistent (hc : Consistent c) {q : Nat} {h : Option Nat}
    (hq : c.promises[q]? = some (.holds h)) :
    Consistent { c with promises := c.promises.set q (.holds none) ++ [.holds h] } := by
  refine hc.relocate rfl rfl ?_ ?_ hc.futures
  · intro s
    have hput := count_put (x := .holds none) hq (.holds (some s))
    simp only [Config.promisesOf, List.count_append, List.count_singleton, beq_iff_eq]
    simp only [Slot.holds.injEq, reduceCtorEq, ↓reduceIte] at hput ⊢
    omega
  · intro s hm
    rcases List.mem_append.mp hm with hm | hm
    · rcases mem_put hm with hm | hm
      · exact hc.promises s hm
      · cases hm
    · cases List.mem_singleton.mp hm
      exact hc.held hq

theorem swap_consistent (hc : Consistent c) {p q : Nat} {hp hq : Option Nat}
    (hcp : c.promises[p]? = some (.holds hp)) (hcq : c.promises[q]? = some (.holds hq)) :
    Consistent { c with promises := (c.promises.set p (.holds hq)).set q (.holds hp) } := by
  have hmid : (c.promises.set p (.holds hq))[q]? = some (.holds hq) := by
    have hlt := (List.getElem?_eq_some_iff.mp hcp).1
    by_cases he : p = q
    · rw [he, List.getElem?_set_self (he ▸ hlt)]
    · rw [List.getElem?_set_ne he, hcq]
  refine hc.relocate rfl rfl ?_ ?_ hc.futures
  · intro s
    have h₁ := count_put (x := .holds hq) hcp (.holds (some s))
    have h₂ := count_put (x := .holds hp) hmid (.holds (some s))
    simp only [Config.promisesOf]
    omega
  · intro s hm
    rcases mem_put hm with hm | hm
    · rcases mem_put hm with hm | hm
      · exact hc.promises s hm
      · exact hc.held (hm ▸ hcq)
    · exact hc.held (hm ▸ hcp)

namespace SharedState

/-- Losing the only promise: an unsatisfied state gets the broken promise, a
satisfied one only loses its count. -/
theorem removePromise_spec {s : SharedState V X F} (hone : s.promises = 1) :
    s.removePromise = .ok (if s.which = .noState then
      { s with promises := 0, storage := .exception (.futureError .brokenPromise),
               which := .exception }
      else { s with promises := 0 }) := by
  by_cases hw : s.which = .noState
  · simp [removePromise, hasState, setException, hone, decrement_one, hw]
  · simp [removePromise, hone, decrement_one, hw]

end SharedState

/-- The promise that goes away is the only one of its state. -/
theorem removePromise_cell {calls : List (Call V X F)} {cell : Cell V X F}
    (hok : CellOk 1 calls cell) (hd : cell.destroyed = false) :
    ∃ state, cell.state.removePromise = .ok state ∧
      CellOk 0 calls { cell with state := state } ∧
      Evolves (cell.state.which = .noState) cell { cell with state := state } := by
  refine ⟨_, SharedState.removePromise_spec (hok.counted hd), ?_⟩
  by_cases hw : cell.state.which = .noState
  · rw [if_pos hw]
    have hnone : calls = [] := by
      have hcalled := hok.called
      rw [if_neg (hok.armed hw)] at hcalled
      exact List.eq_nil_of_length_eq_zero hcalled
    refine ⟨⟨by simp, by simp, by simp, trivial, by simp, hok.called, by simp [hnone]⟩, ?_⟩
    refine ⟨?_, id, ?_⟩
    · intro hset
      exact absurd hw hset
    · intro hbreaks
      exact absurd hw hbreaks
  · rw [if_neg hw]
    refine ⟨⟨by simp, by simp, fun _ => hw, hok.tagged, hok.armed, hok.called, hok.reported⟩, ?_⟩
    refine ⟨?_, id, ?_⟩
    · intro _
      exact ⟨rfl, rfl⟩
    · intro _
      exact .inl

/-- The state held by a promise, if any, still waits for its outcome. -/
def Config.Unfulfilled (c : Config V X F) (p : Nat) : Prop :=
  ∃ s cell, c.promises[p]? = some (.holds (some s)) ∧ c.states[s]? = some cell ∧
    cell.state.which = .noState

theorem removePromise_ok {s : Nat} {cell : Cell V X F} {state : SharedState V X F}
    (hcell : c.states[s]? = some cell) (hd : cell.destroyed = false)
    (h : cell.state.removePromise = .ok state) :
    c.removePromise (some s) = .ok (c.putState s { cell with state := state }) := by
  apply bind_ok.mpr
  refine ⟨cell, stateAt_ok.mpr ⟨hcell, hd⟩, ?_⟩
  exact bind_ok.mpr ⟨state, h, rfl⟩

/-- The only promise of a state has been destroyed, except for its handle, which
still has to let go. -/
def Config.abandoned (c : Config V X F) (p s : Nat) (cell : Cell V X F)
    (state : SharedState V X F) : Config V X F :=
  { c.putState s { cell with state := state } with promises := c.promises.set p .gone }

theorem Consistent.promisesOf_held (hc : Consistent c) {p s : Nat}
    (hp : c.promises[p]? = some (.holds (some s))) : c.promisesOf s = 1 := by
  obtain ⟨cell, hs, _⟩ := hc.held hp
  have hpos := List.count_pos_iff.mpr (List.mem_of_getElem? hp)
  exact Nat.le_antisymm (hc.cells s cell hs).single hpos

/-- What destroying a promise with a state does before the handle lets go. -/
theorem abandoned_spec (hc : Consistent c) {p s : Nat}
    (hp : c.promises[p]? = some (.holds (some s))) :
    ∃ cell state, c.states[s]? = some cell ∧ cell.state.removePromise = .ok state ∧
      c.destroyPromise p = (c.abandoned p s cell state).release (some s) ∧
      Consistent (c.abandoned p s cell state) ∧ (c.abandoned p s cell state).Alive s ∧
      Grown (Evolves (c.Unfulfilled p)) c (c.abandoned p s cell state) := by
  obtain ⟨cell, hs, hd⟩ := hc.held hp
  have hlt := (List.getElem?_eq_some_iff.mp hs).1
  have hok := hc.cells s cell hs
  rw [hc.promisesOf_held hp] at hok
  obtain ⟨state, hremove, hok', hev⟩ := removePromise_cell hok hd
  have hcount : ∀ k, (c.abandoned p s cell state).promisesOf k + (if k = s then 1 else 0) =
      c.promisesOf k := by
    intro k
    have hput := count_put (x := .gone) hp (.holds (some k))
    simp only [reduceCtorEq, ↓reduceIte, Slot.holds.injEq, Option.some.injEq, Nat.add_zero,
      eq_comm (a := s)] at hput
    exact hput
  have hzero : (c.abandoned p s cell state).promisesOf s = 0 := by
    have hs := hcount s
    rw [if_pos rfl, hc.promisesOf_held hp] at hs
    exact Nat.succ_inj.mp hs
  have hstates : (c.abandoned p s cell state).states =
      c.states.set s { cell with state := state } := rfl
  refine ⟨cell, state, hs, hremove, ?_, ?_, ?_, ?_⟩
  · simp only [Config.destroyPromise, promiseAt_ok.mpr hp, removePromise_ok hs hd hremove, bind,
      Except.bind]
    rfl
  · refine hc.put hstates (hzero ▸ hok') ?_ (fun _ _ => rfl) ?_
      (fun k hm => (hc.futures k hm).put hstates (fun _ => hd)) hc.calls
    · intro k hk
      simpa [hk] using hcount k
    · intro k hm
      rcases mem_put hm with hm | hm
      · exact (hc.promises k hm).put hstates (fun _ => hd)
      · cases hm
  · exact ⟨_, List.getElem?_set_self hlt, hd⟩
  · exact .put (.refl _) hs (hev.mono (fun hw => ⟨s, cell, hp, hs, hw⟩)) hstates

/-- Destroying an empty promise only ends the promise. -/
theorem destroyPromise_empty {p : Nat} (hp : c.promises[p]? = some (.holds none)) :
    c.destroyPromise p = .ok { c with promises := c.promises.set p .gone } := by
  apply bind_ok.mpr
  exact ⟨none, promiseAt_ok.mpr hp, rfl⟩

/-- Destroying a promise keeps the invariant, and breaks the promise if it is unfulfilled. -/
theorem destroyPromise_keeps (hc : Consistent c) (p : Nat) :
    Keeps (c.Unfulfilled p) c (c.destroyPromise p) := by
  by_cases hheld : ∃ h, c.promises[p]? = some (.holds h)
  · obtain ⟨h, hp⟩ := hheld
    cases h with
    | none =>
      have hc₁ : Consistent { c with promises := c.promises.set p .gone } := by
        refine hc.relocate rfl rfl ?_ ?_ hc.futures
        · intro s
          simpa [Config.promisesOf] using count_put (x := .gone) hp (.holds (some s))
        · intro s hm
          rcases mem_put hm with hm | hm
          · exact hc.promises s hm
          · cases hm
      rw [destroyPromise_empty hp]
      exact ⟨hc₁, .of_states_eq (.refl _) rfl⟩
    | some s =>
      obtain ⟨cell, state, _, _, heq, hc₁, _, hgrown⟩ := abandoned_spec hc hp
      rw [heq]
      have hlen : (c.abandoned p s cell state).states.length = c.states.length :=
        List.length_set
      exact (release_keeps hc₁ (some s) (c.Unfulfilled p)).mono
        (fun c₂ h₂ => ⟨h₂.1, hgrown.trans hlen h₂.2⟩)
  · simp only [Config.destroyPromise, promiseAt_undefined (not_exists.mp hheld), bind,
      Except.bind, Keeps, ensures_undefined]

theorem destroyPromise_total (hc : Consistent c) {p : Nat} {h : Option Nat}
    (hp : c.promises[p]? = some (.holds h)) :
    ∃ c', c.destroyPromise p = .ok c' ∧ c'.promises = c.promises.set p .gone := by
  cases h with
  | none => exact ⟨_, destroyPromise_empty hp, rfl⟩
  | some s =>
    obtain ⟨cell, state, _, _, heq, hc₁, halive, _⟩ := abandoned_spec hc hp
    obtain ⟨c', hr⟩ := release_total hc₁ halive
    exact ⟨c', heq.trans hr, (release_frame hr).1⟩

/-- A move assignment just before its temporary dies: the temporary, in a new
slot, has the state of the right side, which has that of the left side. -/
def Config.exchanged (c : Config V X F) (p q : Nat) (hp hq : Option Nat) : Config V X F :=
  { c with promises := (c.promises.set p (.holds none)).set q (.holds hp) ++ [.holds hq] }

/-- A move assignment is the destruction of its temporary. -/
theorem moveAssign_eq {p q : Nat} {hp hq : Option Nat} (hcp : c.promises[p]? = some (.holds hp))
    (hcq : c.promises[q]? = some (.holds hq)) :
    c.moveAssign p q =
      (c.exchanged p q (if p = q then none else hp) hq).destroyPromise c.promises.length := by
  have hltp := (List.getElem?_eq_some_iff.mp hcp).1
  have hltq := (List.getElem?_eq_some_iff.mp hcq).1
  have hp' : (c.promises.set q (.holds none) ++ [.holds hq])[p]? =
      some (.holds (if p = q then none else hp)) := by
    rw [List.getElem?_append_left (by rw [List.length_set]; exact hltp)]
    split
    · rename_i he
      rw [he, List.getElem?_set_self hltq]
    · rename_i he
      rw [List.getElem?_set_ne (Ne.symm he), hcp]
  have hq' : (c.promises.set q (.holds none) ++ [.holds hq])[q]? = some (.holds none) := by
    rw [List.getElem?_append_left (by rw [List.length_set]; exact hltq),
      List.getElem?_set_self hltq]
  have hlist : ((c.promises.set q (.holds none) ++ [Slot.holds hq]).set p (.holds none)).set q
      (.holds (if p = q then none else hp)) =
      (c.promises.set p (.holds none)).set q (.holds (if p = q then none else hp)) ++
        [.holds hq] := by
    rw [List.set_append_left _ _ (by rw [List.length_set]; exact hltp),
      List.set_append_left _ _ (by simpa using hltq)]
    by_cases he : p = q
    · simp [he]
    · rw [List.set_comm _ _ (Ne.symm he), List.set_set]
  let c₁ : Config V X F := { c with promises := c.promises.set q (.holds none) ++ [.holds hq] }
  have hmove : c.moveConstruct q = .ok c₁ := bind_ok.mpr ⟨hq, promiseAt_ok.mpr hcq, rfl⟩
  have hswap : c₁.swap p q = .ok (c.exchanged p q (if p = q then none else hp) hq) := by
    refine bind_ok.mpr ⟨_, promiseAt_ok.mpr hp', bind_ok.mpr ⟨_, promiseAt_ok.mpr hq', ?_⟩⟩
    simp only [c₁, hlist, Config.exchanged]
    rfl
  simp only [Config.moveAssign, promiseAt_ok.mpr hcp, hmove, hswap, bind, Except.bind]

theorem exchanged_consistent (hc : Consistent c) {p q : Nat} {hp hq : Option Nat}
    (hcp : c.promises[p]? = some (.holds hp)) (hcq : c.promises[q]? = some (.holds hq)) :
    Consistent (c.exchanged p q (if p = q then none else hp) hq) := by
  have hltq := (List.getElem?_eq_some_iff.mp hcq).1
  have hmid : (c.promises.set p (.holds none))[q]? =
      some (.holds (if p = q then none else hq)) := by
    split
    · rename_i he
      rw [he, List.getElem?_set_self hltq]
    · rename_i he
      rw [List.getElem?_set_ne he, hcq]
  refine hc.relocate rfl rfl ?_ ?_ hc.futures
  · intro s
    have h₁ := count_put (x := .holds none) hcp (.holds (some s))
    have h₂ := count_put (x := .holds (if p = q then none else hp)) hmid (.holds (some s))
    simp only [Config.promisesOf, Config.exchanged, List.count_append, List.count_singleton,
      beq_iff_eq]
    by_cases he : p = q
    · subst he
      rw [hcp] at hcq
      cases hcq
      simp at h₁ h₂ ⊢
      omega
    · simp [he] at h₁ h₂ ⊢
      omega
  · intro s hm
    rcases List.mem_append.mp hm with hm | hm
    · rcases mem_put hm with hm | hm
      · rcases mem_put hm with hm | hm
        · exact hc.promises s hm
        · cases hm
      · split at hm
        · cases hm
        · exact hc.held (hm ▸ hcp)
    · exact hc.held (List.mem_singleton.mp hm ▸ hcq)

theorem exchanged_unfulfilled {p q : Nat} {hp hq : Option Nat}
    (hcq : c.promises[q]? = some (.holds hq))
    (h : (c.exchanged p q hp hq).Unfulfilled c.promises.length) : c.Unfulfilled q := by
  obtain ⟨s, cell, ht, hcell, hw⟩ := h
  have hlast : (c.exchanged p q hp hq).promises[c.promises.length]? = some (.holds hq) := by
    simp [Config.exchanged]
  rw [hlast] at ht
  cases ht
  exact ⟨s, cell, hcq, hcell, hw⟩

/-- The temporary of a move assignment is destroyed with the state of the right
side, so the assignment breaks that state's promise if it still waits. -/
theorem moveAssign_keeps (hc : Consistent c) (p q : Nat) :
    Keeps (c.Unfulfilled q) c (c.moveAssign p q) := by
  by_cases hp : ∃ h, c.promises[p]? = some (.holds h)
  · by_cases hq : ∃ h, c.promises[q]? = some (.holds h)
    · obtain ⟨hp, hcp⟩ := hp
      obtain ⟨hq, hcq⟩ := hq
      rw [moveAssign_eq hcp hcq]
      apply (destroyPromise_keeps (exchanged_consistent hc hcp hcq) _).mono
      intro c' h
      have hg := h.2.mono (fun _ _ he => he.mono (exchanged_unfulfilled hcq))
      exact ⟨h.1, hg.after rfl⟩
    · obtain ⟨hp, hcp⟩ := hp
      simp only [Config.moveAssign, Config.moveConstruct, promiseAt_ok.mpr hcp,
        promiseAt_undefined (not_exists.mp hq), bind, Except.bind, Keeps, ensures_undefined]
  · simp only [Config.moveAssign, promiseAt_undefined (not_exists.mp hp), bind, Except.bind,
      Keeps, ensures_undefined]

def Config.started (c : Config V X F) (s : Nat) (cell : Cell V X F) (f : F) : Config V X F where
  states := c.states.set s { cell with state := { cell.state with function := none } }
  promises := c.promises
  futures := c.futures ++ [.holds (some s)]
  frames := c.futures.length :: c.frames
  calls := c.calls ++ [⟨s, f, true, cell.state.get⟩]

theorem invoke_ok {s : Nat} {cell : Cell V X F} {f : F} (hs : s < c.states.length)
    (hd : cell.destroyed = false) (hf : cell.state.function = some f)
    (hw : cell.state.which ≠ .noState) :
    c.invoke s cell = .ok (c.started s cell f, .invoked c.futures.length) := by
  have hset : cell.state.hasState = true := SharedState.hasState_true.mpr hw
  have hcall : cell.state.call = .ok (f, { cell.state with function := none }) := by
    simp [SharedState.call, hf, hset]
  let after : Cell V X F := { cell with state := { cell.state with function := none } }
  let c₁ : Config V X F := { c.putState s after with
    futures := c.futures ++ [.holds (some s)]
    frames := c.futures.length :: c.frames }
  have hafter : c₁.stateAt s = .ok after :=
    stateAt_ok.mpr ⟨List.getElem?_set_self hs, hd⟩
  have hvalid : c₁.valid (some s) = .ok true :=
    bind_ok.mpr ⟨after, hafter, congrArg Except.ok hset⟩
  have hget : c₁.get (some s) = .ok cell.state.get := bind_ok.mpr ⟨after, hafter, rfl⟩
  apply bind_ok.mpr
  refine ⟨_, hcall, ?_⟩
  apply bind_ok.mpr
  refine ⟨true, hvalid, ?_⟩
  exact bind_ok.mpr ⟨_, hget, rfl⟩

/-- Setting an outcome and starting the completion function, as one change of
an unsatisfied state. -/
theorem started_keeps (hc : Consistent c) {s : Nat} {cell : Cell V X F} {state : SharedState V X F}
    {f : F} (hcell : c.states[s]? = some cell) (hd : cell.destroyed = false)
    (hopen : cell.state.which = .noState) (hset : state.which ≠ .noState)
    (htag : state.Tagged) (hpromises : state.promises = cell.state.promises) :
    Consistent (c.started s { cell with state := state } f) ∧
      Grown (Evolves False) c (c.started s { cell with state := state } f) := by
  have hok := hc.cells s cell hcell
  have hlt := (List.getElem?_eq_some_iff.mp hcell).1
  let after : Cell V X F := ⟨{ state with function := none }, cell.destroyed⟩
  have hs : (c.started s { cell with state := state } f).states = c.states.set s after := rfl
  have hnone : c.callsOf s = [] := by
    have hcalled := hok.called
    rw [if_neg (hok.armed hopen)] at hcalled
    exact List.eq_nil_of_length_eq_zero hcalled
  have hcalls : (c.started s { cell with state := state } f).callsOf s =
      [⟨s, f, true, state.get⟩] := by
    have hnone : c.calls.filter (fun call => call.state == s) = [] := hnone
    simp [Config.callsOf, Config.started, List.filter_append, hnone]
  have hev : Evolves False cell after := by
    constructor
    · intro h
      exact absurd hopen h
    · intro _
      rfl
    · intro _ _
      exact .inr rfl
  refine ⟨hc.put hs ?_ (fun _ _ => rfl) ?_
    (fun k hm => (hc.promises k hm).put hs (fun _ => hd)) ?_ ?_,
    Grown.put (.refl _) hcell hev hs⟩
  · rw [hcalls]
    refine ⟨?_, hok.single, fun _ => hset, htag, ?_, rfl, ?_⟩
    · intro hd
      exact hpromises.trans (hok.counted hd)
    · intro h
      exact absurd h hset
    · intro call hm
      rw [List.mem_singleton.mp hm]
      exact ⟨rfl, rfl⟩
  · intro k hk
    simp [Config.callsOf, Config.started, List.filter_append, Ne.symm hk]
  · intro k hm
    rcases List.mem_append.mp hm with hm | hm
    · exact (hc.futures k hm).put hs (fun _ => hd)
    · cases List.mem_singleton.mp hm
      exact ⟨after, by rw [hs, List.getElem?_set_self hlt], hd⟩
  · intro call hm
    rcases List.mem_append.mp hm with hm | hm
    · exact hc.calls call hm
    · rw [List.mem_singleton.mp hm]
      exact hlt

def KeepsAnswering (breaks : Prop) (c : Config V X F)
    (x : Except Fault (Config V X F × Response V X)) : Prop :=
  Ensures x (fun y => Consistent y.1 ∧ Grown (Evolves breaks) c y.1)

theorem keeps_same (hc : Consistent c) (breaks : Prop) :
    Consistent c ∧ Grown (Evolves breaks) c c := by
  refine ⟨hc, ?_⟩
  exact .of_states_eq (.refl breaks) rfl

theorem satisfier_ensures {p : Nat} {Q : Nat × Cell V X F → Prop}
    (h : ∀ s cell, c.promises[p]? = some (.holds (some s)) → c.states[s]? = some cell →
      cell.destroyed = false → Q (s, cell)) : Ensures (c.satisfier p) Q := by
  refine Ensures.bind (promiseAt_ensures (Q := fun h => c.promises[p]? = some (.holds h))
    (fun _ h => h)) ?_
  intro k hk
  cases k with
  | none => trivial
  | some s => exact Ensures.bind (stateAt_ensures (h s · hk)) (fun _ hp => hp)

theorem satisfier_ok (hc : Consistent c) {p s : Nat} {cell : Cell V X F}
    (hp : c.promises[p]? = some (.holds (some s))) (hs : c.states[s]? = some cell) :
    c.satisfier p = .ok (s, cell) := by
  obtain ⟨_, hs', hd⟩ := hc.held hp
  rw [hs] at hs'
  cases hs'
  apply bind_ok.mpr
  refine ⟨some s, promiseAt_ok.mpr hp, ?_⟩
  exact bind_ok.mpr ⟨cell, stateAt_ok.mpr ⟨hs, hd⟩, rfl⟩

/-- An armed state that received an outcome starts its completion function. -/
theorem invoke_keeps (hc : Consistent c) {s : Nat} {cell : Cell V X F}
    {state : SharedState V X F} (hcell : c.states[s]? = some cell)
    (hd : cell.destroyed = false) (hopen : cell.state.which = .noState)
    (hset : state.which ≠ .noState) (htag : state.Tagged)
    (hpromises : state.promises = cell.state.promises)
    (hfunction : state.function = cell.state.function) :
    KeepsAnswering False c (c.invoke s { cell with state := state }) := by
  obtain ⟨f, hf⟩ := Option.ne_none_iff_exists'.mp ((hc.cells s cell hcell).armed hopen)
  have hlt := (List.getElem?_eq_some_iff.mp hcell).1
  have hcall : c.invoke s { cell with state := state } =
      .ok (c.started s { cell with state := state } f, .invoked c.futures.length) :=
    invoke_ok hlt hd (hfunction.trans hf) hset
  rw [KeepsAnswering, hcall]
  exact started_keeps hc hcell hd hopen hset htag hpromises

/-- Setting a value keeps the invariant and breaks no promise. -/
theorem setValue_keeps (hc : Consistent c) (p : Nat) (v : V)
    (passing moving : Option (ExceptionPtr X)) :
    KeepsAnswering False c (c.setValue p v passing moving) := by
  refine Ensures.bind (satisfier_ensures (Q := fun x => c.states[x.1]? = some x.2 ∧
    x.2.destroyed = false) (fun s cell _ hcell hd => ⟨hcell, hd⟩)) ?_
  rintro ⟨s, cell⟩ ⟨hcell, hd⟩
  dsimp only
  cases passing with
  | some e => exact keeps_same hc False
  | none =>
    cases hw : cell.state.which with
    | value | exception => simp only [SharedState.setValue, hw]; exact keeps_same hc False
    | noState =>
      cases moving with
      | some e => simp only [SharedState.setValue, hw]; exact keeps_same hc False
      | none =>
        simp only [SharedState.setValue, hw]
        exact invoke_keeps hc hcell hd hw (by simp) trivial rfl rfl

theorem setException_keeps (hc : Consistent c) (p : Nat) (ep : ExceptionPtr X) :
    KeepsAnswering False c (c.setException p ep) := by
  refine Ensures.bind (satisfier_ensures (Q := fun x => c.states[x.1]? = some x.2 ∧
    x.2.destroyed = false) (fun s cell _ hcell hd => ⟨hcell, hd⟩)) ?_
  rintro ⟨s, cell⟩ ⟨hcell, hd⟩
  dsimp only
  cases hw : cell.state.which with
  | value | exception => simp only [SharedState.setException, hw]; exact keeps_same hc False
  | noState =>
    simp only [SharedState.setException, hw]
    exact invoke_keeps hc hcell hd hw (by simp) trivial rfl rfl

theorem getElem?_concat_iff {α : Type} {l : List α} {x a : α} {i : Nat} :
    (l ++ [x])[i]? = some a ↔ l[i]? = some a ∨ i = l.length ∧ a = x := by
  rcases Nat.lt_trichotomy i l.length with hlt | rfl | hgt
  · rw [List.getElem?_append_left hlt]
    exact ⟨.inl, fun h => h.resolve_right (fun h => Nat.ne_of_lt hlt h.1)⟩
  · simp [eq_comm]
  · rw [List.getElem?_eq_none (by simp; omega), List.getElem?_eq_none (Nat.le_of_lt hgt)]
    simp [Nat.ne_of_gt hgt]

/-- The state that a new promise is for. -/
theorem cellOk_new (f : F) :
    CellOk 1 [] (⟨(SharedState.new f).addPromise, false⟩ : Cell V X F) := by
  constructor
  · intro _
    exact increment_zero
  · simp
  · simp
  · trivial
  · simp [SharedState.new, SharedState.addPromise]
  · simp [SharedState.new, SharedState.addPromise]
  · simp

theorem promisesOf_promiseToCall (f : F) (s : Nat) : (c.promiseToCall f).promisesOf s =
    c.promisesOf s + if s = c.states.length then 1 else 0 := by
  have hone : [Slot.holds (some c.states.length)].count (.holds (some s)) =
      if s = c.states.length then 1 else 0 := by
    by_cases he : s = c.states.length
    · simp [he]
    · simp [he, Ne.symm he]
  rw [Config.promisesOf, Config.promiseToCall, List.count_append, hone]
  rfl

/-- Nothing speaks of the next state yet. -/
theorem Consistent.promisesOf_next (hc : Consistent c) : c.promisesOf c.states.length = 0 := by
  apply List.count_eq_zero.mpr
  intro hm
  obtain ⟨cell, h, _⟩ := hc.promises _ hm
  exact Nat.lt_irrefl _ (List.getElem?_eq_some_iff.mp h).1

theorem Consistent.callsOf_next (hc : Consistent c) : c.callsOf c.states.length = [] := by
  apply List.filter_eq_nil_iff.mpr
  intro call hm he
  have hlt := hc.calls call hm
  rw [beq_iff_eq.mp he] at hlt
  exact Nat.lt_irrefl _ hlt

theorem Grown.promiseToCall (f : F) : Grown (Evolves False) c (c.promiseToCall f) := by
  constructor
  · intro s a ha
    exact ⟨a, getElem?_concat_iff.mpr (.inl ha), .refl _ a⟩
  · intro s b hnone hb
    rcases getElem?_concat_iff.mp hb with hb | ⟨_, rfl⟩
    · rw [hb] at hnone
      cases hnone
    · rfl

/-- A fresh state is held by its promise alone. -/
theorem promiseToCall_keeps (hc : Consistent c) (f : F) :
    Consistent (c.promiseToCall f) ∧ Grown (Evolves False) c (c.promiseToCall f) := by
  have halive : ∀ s, c.Alive s → (c.promiseToCall f).Alive s := by
    intro s h
    obtain ⟨cell, hs, hd⟩ := h
    exact ⟨cell, getElem?_concat_iff.mpr (.inl hs), hd⟩
  refine ⟨⟨?_, ?_, fun s hm => halive s (hc.futures s hm), ?_⟩, .promiseToCall f⟩
  · intro s cell h
    rw [promisesOf_promiseToCall]
    rcases getElem?_concat_iff.mp h with h | ⟨rfl, rfl⟩
    · have hlt : s < c.states.length := (List.getElem?_eq_some_iff.mp h).1
      rw [if_neg (Nat.ne_of_lt hlt)]
      exact hc.cells s cell h
    · have hnone : (c.promiseToCall f).callsOf c.states.length = [] := hc.callsOf_next
      rw [hc.promisesOf_next, hnone, if_pos rfl]
      exact cellOk_new f
  · intro s hm
    rcases List.mem_append.mp hm with hm | hm
    · exact halive s (hc.promises s hm)
    · cases List.mem_singleton.mp hm
      exact ⟨_, getElem?_concat_iff.mpr (.inr ⟨rfl, rfl⟩), rfl⟩
  · intro call hm
    have hlength : (c.promiseToCall f).states.length = c.states.length + 1 := List.length_append
    rw [hlength]
    exact Nat.lt_succ_of_lt (hc.calls call hm)

/-- Futures may be rearranged freely among living states. -/
theorem Consistent.futures_only (hc : Consistent c) {fs : List Slot}
    (hf : ∀ s, .holds (some s) ∈ fs → c.Alive s) : Consistent { c with futures := fs } :=
  hc.relocate rfl rfl (fun _ => rfl) hc.promises hf

theorem reassign_keeps (hc : Consistent c) {fs : List Slot} (h : Option Nat)
    (hf : ∀ s, .holds (some s) ∈ fs → c.Alive s) :
    Keeps False c (Config.release { c with futures := fs } h) := by
  have hfs := hc.futures_only hf
  exact hfs.releases (c := c) rfl h False

theorem new_future_keeps (hc : Consistent c) {h : Option Nat} (hh : ∀ s, h = some s → c.Alive s) :
    Consistent { c with futures := c.futures ++ [.holds h] } ∧
      Grown (Evolves False) c { c with futures := c.futures ++ [.holds h] } := by
  refine ⟨hc.futures_only ?_, .of_states_eq (.refl _) rfl⟩
  intro s hm
  rcases List.mem_append.mp hm with hm | hm
  · exact hc.futures s hm
  · exact hh s (by cases List.mem_singleton.mp hm; rfl)

theorem getFuture_keeps (hc : Consistent c) (p : Nat) : Keeps False c (c.getFuture p) := by
  apply Ensures.bind (promiseAt_ensures (Q := fun h => ∀ s, h = some s → c.Alive s) ?_)
  · intro h hh
    exact new_future_keeps hc hh
  · rintro k hp s rfl
    exact hc.held hp

theorem copyFuture_keeps (hc : Consistent c) (f : Nat) : Keeps False c (c.copyFuture f) := by
  apply Ensures.bind (futureAt_ensures (Q := fun h => ∀ s, h = some s → c.Alive s) ?_)
  · intro h hh
    exact new_future_keeps hc hh
  · rintro k hf s rfl
    exact hc.held_by_future hf

theorem moveFuture_keeps (hc : Consistent c) (f : Nat) : Keeps False c (c.moveFuture f) := by
  refine Ensures.bind (futureAt_ensures (Q := fun h => ∀ s, h = some s → c.Alive s)
    (fun _ hf _ he => hc.held_by_future (he ▸ hf))) ?_
  intro h hh
  refine ⟨hc.futures_only ?_, .of_states_eq (.refl _) rfl⟩
  intro s hm
  rcases List.mem_append.mp hm with hm | hm
  · rcases mem_put hm with hm | hm
    · exact hc.futures s hm
    · cases hm
  · exact hh s (by cases List.mem_singleton.mp hm; rfl)

theorem assignFuture_keeps (hc : Consistent c) (f g : Nat) :
    Keeps False c (c.assignFuture f g) := by
  apply Ensures.bind (futureAt_ensures (Q := fun _ => True) (fun _ _ => trivial))
  intro h _
  refine Ensures.bind (futureAt_ensures (Q := fun k => ∀ s, k = some s → c.Alive s)
    (fun _ hf _ he => hc.held_by_future (he ▸ hf))) ?_
  intro k hk
  apply reassign_keeps hc h
  intro s hm
  rcases mem_put hm with hm | hm
  · exact hc.futures s hm
  · exact hk s (by cases hm; rfl)

theorem moveAssignFuture_keeps (hc : Consistent c) (f g : Nat) :
    Keeps False c (c.moveAssignFuture f g) := by
  apply Ensures.bind (futureAt_ensures (Q := fun _ => True) (fun _ _ => trivial))
  intro h _
  refine Ensures.bind (futureAt_ensures (Q := fun k => ∀ s, k = some s → c.Alive s)
    (fun _ hf _ he => hc.held_by_future (he ▸ hf))) ?_
  intro k hk
  apply reassign_keeps hc h
  intro s hm
  rcases mem_put hm with hm | hm
  · rcases mem_put hm with hm | hm
    · exact hc.futures s hm
    · cases hm
  · exact hk s (by cases hm; rfl)

theorem dropFuture_keeps (hc : Consistent c) (f : Nat) : Keeps False c (c.dropFuture f) := by
  apply Ensures.bind (futureAt_ensures (Q := fun _ => True) (fun _ _ => trivial))
  intro h _
  apply reassign_keeps hc h
  intro s hm
  rcases mem_put hm with hm | hm
  · exact hc.futures s hm
  · cases hm

/-- The end of a completion function keeps the invariant. -/
theorem endCompletion_keeps (hc : Consistent c) : Keeps False c c.endCompletion := by
  unfold Config.endCompletion
  split
  · trivial
  · rename_i argument frames _
    have hc₁ : Consistent { c with frames := frames } :=
      hc.relocate rfl rfl (fun _ => rfl) hc.promises hc.futures
    dsimp only
    split
    · exact (dropFuture_keeps hc₁ argument).mono (fun _ h => ⟨h.1, h.2.after rfl⟩)
    · exact ⟨hc₁, .of_states_eq (.refl _) rfl⟩

end Valuelib.LightFuture
