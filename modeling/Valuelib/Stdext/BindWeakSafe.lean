import Valuelib.Stdext.BindWeak
import Valuelib.Base.Runs

namespace Valuelib.Stdext.BindWeak
open Checked RefCount Runs

variable {F R : Type} {c c' : Config F} {p q k : Nat}

def Config.owners (c : Config F) (k : Nat) : Nat :=
  ownersIn Slot.block c.pointers k +
    ownersIn (fun frame : Frame F => frame.lockedPtr.block) c.frames k

/-- The control blocks count the owners, binders point to objects that were there
when they were made, and the running calls keep a target. -/
structure Sound (c : Config F) : Prop where
  counts : Counts c.blocks c.owners
  bound : ∀ binder ∈ c.binders, ∀ k, binder.weakPtr.block = some k → k < c.blocks.length
  running : ∀ frame ∈ c.frames, ∃ k, frame.lockedPtr.block = some k

theorem initial_sound : Sound (Config.initial : Config F) := by
  refine ⟨Counts.nil, ?_, ?_⟩
  · intro binder h
    cases h
  · intro frame h
    cases h

/-- What stays from here on: objects are kept on record, an object without an
owner gets no new one, and binders are not changed. -/
structure Onward (c c' : Config F) : Prop where
  length : c.blocks.length ≤ c'.blocks.length
  unowned : ∀ k < c.blocks.length, c.owners k = 0 → c'.owners k = 0
  binders : ∀ (b : Nat) (binder : WeakBinder F),
    c.binders[b]? = some binder → c'.binders[b]? = some binder

theorem Onward.refl (c : Config F) : Onward c c := by
  refine ⟨Nat.le_refl _, ?_, ?_⟩
  · intro k _ hzero
    exact hzero
  · intro b binder hb
    exact hb

theorem Onward.trans {c₁ c₂ c₃ : Config F} (h : Onward c₁ c₂) (h' : Onward c₂ c₃) :
    Onward c₁ c₃ := by
  refine ⟨Nat.le_trans h.length h'.length, ?_, ?_⟩
  · intro k hk hzero
    apply h'.unowned k (Nat.lt_of_lt_of_le hk h.length)
    exact h.unowned k hk hzero
  · intro b binder hb
    exact h'.binders b binder (h.binders b binder hb)

theorem pointerAt_ok {ptr : Pointer} (h : c.pointerAt p = .ok ptr) :
    c.pointers[p]? = some (.holds ptr) := by
  unfold Config.pointerAt at h
  split at h
  · cases h
    assumption
  · cases h

theorem binderAt_eq {b : Nat} {binder : WeakBinder F} (h : c.binders[b]? = some binder) :
    c.binderAt b = .ok binder := by
  rw [Config.binderAt, h]

theorem binderAt_ok {b : Nat} {binder : WeakBinder F} (h : c.binderAt b = .ok binder) :
    c.binders[b]? = some binder := by
  unfold Config.binderAt at h
  split at h
  · cases h
    assumption
  · cases h

/-- What a pointer holds has an owner. -/
theorem owners_pos {slot : Slot} (h : c.pointers[p]? = some slot) (hk : slot.block = some k) :
    0 < c.owners k := by
  have := ownersIn_pos (List.mem_of_getElem? h) hk
  unfold Config.owners
  omega

namespace Sound

/-- An expired pointer is one whose object has no owner. -/
theorem expired_iff (h : Sound c) {ptr : Pointer} :
    c.expired ptr = false ↔ ∃ k, ptr.block = some k ∧ 0 < c.owners k := by
  unfold Config.expired
  cases hblock : ptr.block with
  | none => simp
  | some k =>
    by_cases hk : k < c.blocks.length
    · simp only [h.counts.exact k hk, Option.map_some, Block.of]
      grind
    · simp [h.counts.unused k (by omega), List.getElem?_eq_none (Nat.le_of_not_lt hk)]

/-- An object that `lock` returns a pointer to has an owner. -/
theorem lock_owned (h : Sound c) (ptr : Pointer) :
    ∀ k, (c.lock ptr).block = some k → 0 < c.owners k := by
  intro k hk
  unfold Config.lock at hk
  split at hk
  · cases hk
  · rename_i hexpired
    obtain ⟨j, hj, hpos⟩ := h.expired_iff.mp (by simpa using hexpired)
    rw [hj] at hk
    cases hk
    exact hpos

theorem makeShared (h : Sound c) : Sound c.makeShared ∧ Onward c c.makeShared := by
  have howners : ∀ k, c.makeShared.owners k = c.owners k + owning (some c.blocks.length) k := by
    intro k
    simp [Config.makeShared, Config.owners, Slot.block]
    omega
  constructor
  · refine ⟨h.counts.grow.congr howners, ?_, h.running⟩
    intro binder hb k hk
    have := h.bound binder hb k hk
    simp [Config.makeShared]
    omega
  · refine ⟨by simp [Config.makeShared], ?_, fun _ _ hb => hb⟩
    intro k hk hzero
    rw [howners, hzero, owning_other (Nat.ne_of_gt hk)]

/-- The control blocks and the pointers change together, and nothing else does. -/
theorem adjust (h : Sound c) (hcounts : Counts c'.blocks c'.owners)
    (hlength : c'.blocks.length = c.blocks.length) (hbinders : c'.binders = c.binders)
    (hframes : ∀ frame ∈ c'.frames, ∃ k, frame.lockedPtr.block = some k)
    (hunowned : ∀ k, c.owners k = 0 → c'.owners k = 0) : Sound c' ∧ Onward c c' := by
  constructor
  · refine ⟨hcounts, ?_, hframes⟩
    rw [hbinders, hlength]
    exact h.bound
  · refine ⟨Nat.le_of_eq hlength.symm, fun k _ => hunowned k, ?_⟩
    rw [hbinders]
    intro _ _ hb
    exact hb

theorem share (h : Sound c) {ptr : Pointer} (hptr : ∀ k, ptr.block = some k → 0 < c.owners k) :
    Sound (c.share ptr) ∧ Onward c (c.share ptr) := by
  have howners : ∀ k, (c.share ptr).owners k = c.owners k + owning ptr.block k := by
    intro k
    simp [Config.share, Config.owners, Slot.block]
    omega
  refine h.adjust ((h.counts.gain hptr).congr howners) length_gain rfl h.running ?_
  intro k hzero
  rw [howners, hzero]
  by_cases hk : ptr.block = some k
  · have := hptr k hk
    omega
  · simp [owning, hk]

theorem replace (h : Sound c) {old : Pointer} (hp : c.pointers[p]? = some (.holds old)) {new : Slot}
    (hnew : ∀ k, new.block = some k → 0 < c.owners k) :
    Sound (c.replace p old new) ∧ Onward c (c.replace p old new) := by
  have howners : ∀ k, (c.replace p old new).owners k + owning old.block k =
      c.owners k + owning new.block k := by
    intro k
    have hold : Slot.block (.holds old) = old.block := rfl
    have hput := ownersIn_put (f := Slot.block) (k := k) hp new
    rw [hold] at hput
    simp only [Config.replace, Config.owners]
    omega
  refine h.adjust ((h.counts.gain hnew).congr howners).lose (by simp [Config.replace]) rfl
    h.running ?_
  intro k hzero
  have := howners k
  by_cases hk : new.block = some k
  · have := hnew k hk
    omega
  · simp [owning, hk] at this
    omega

theorem move (h : Sound c) {ptr : Pointer} (hp : c.pointers[p]? = some (.holds ptr))
    (hc : c' = { c with pointers := c.pointers.set p (.holds .null) ++ [.holds ptr] }) :
    Sound c' ∧ Onward c c' := by
  have howners : ∀ k, c'.owners k = c.owners k := by
    intro k
    have hnull : Slot.block (.holds .null) = none := rfl
    have hptr : Slot.block (.holds ptr) = ptr.block := rfl
    have hput := ownersIn_put (f := Slot.block) (k := k) hp (.holds .null)
    rw [hnull, hptr, owning_none] at hput
    simp only [hc, Config.owners, ownersIn_append, ownersIn_cons, ownersIn_nil, hptr]
    omega
  subst hc
  exact h.adjust (h.counts.congr howners) rfl rfl h.running (fun k hzero => by rw [howners, hzero])

theorem bindWeak (h : Sound c) {ptr : Pointer} {f : F} (hp : c.pointers[p]? = some (.holds ptr)) :
    Sound { c with binders := c.binders ++ [⟨ptr, f⟩] } ∧
      Onward c { c with binders := c.binders ++ [⟨ptr, f⟩] } := by
  constructor
  · refine ⟨h.counts, ?_, h.running⟩
    intro binder hb k hk
    rw [List.mem_append, List.mem_singleton] at hb
    rcases hb with hb | hb
    · exact h.bound binder hb k hk
    · subst hb
      exact h.counts.lt (owners_pos hp hk)
  · refine ⟨Nat.le_refl _, fun _ _ hzero => hzero, ?_⟩
    intro b binder hb
    exact (List.getElem?_append_left (List.getElem?_eq_some_iff.mp hb).1).trans hb

theorem enter (h : Sound c) {ptr : Pointer} {f : F} (hk : ptr.block = some k)
    (hpos : 0 < c.owners k) (hc : c' = { c with
      blocks := gain c.blocks ptr.block
      frames := ⟨ptr, f⟩ :: c.frames }) : Sound c' ∧ Onward c c' := by
  have howners : ∀ j, c'.owners j = c.owners j + owning ptr.block j := by
    intro j
    simp [hc, Config.owners]
    omega
  subst hc
  have hptr : ∀ j, ptr.block = some j → 0 < c.owners j := by
    intro j hj
    rw [hk] at hj
    cases hj
    exact hpos
  refine h.adjust ((h.counts.gain hptr).congr howners) length_gain rfl ?_ ?_
  · intro frame hframe
    cases hframe with
    | head => exact ⟨k, hk⟩
    | tail _ hframe => exact h.running frame hframe
  · intro j hzero
    rw [howners, hzero]
    by_cases hj : ptr.block = some j
    · have := hptr j hj
      omega
    · simp [owning, hj]

theorem leave (h : Sound c) {frame : Frame F} {frames : List (Frame F)}
    (hframes : c.frames = frame :: frames)
    (hc : c' = { c with blocks := lose c.blocks frame.lockedPtr.block, frames := frames }) :
    Sound c' ∧ Onward c c' := by
  have howners : ∀ k, c'.owners k + owning frame.lockedPtr.block k = c.owners k := by
    intro k
    simp only [hc, Config.owners, hframes, ownersIn_cons]
    omega
  subst hc
  refine h.adjust (h.counts.congr howners).lose length_lose rfl ?_ ?_
  · intro other hother
    exact h.running other (by rw [hframes]; exact List.mem_cons_of_mem _ hother)
  · intro k hzero
    have := howners k
    omega

end Sound

/-- The target of a binder is there: its object has an owner, and what the
binder was made from pointed to it. -/
def Config.Reaches (c : Config F) (ptr : Pointer) : Prop :=
  ptr.get ≠ none ∧ ∃ k, ptr.block = some k ∧ 0 < c.owners k

/-- A binder whose target is there starts its function. -/
theorem call_reaching (hs : Sound c) {b : Nat} {binder : WeakBinder F}
    (hb : c.binders[b]? = some binder) (h : c.Reaches binder.weakPtr) :
    c.call (R := R) b = .ok ({ c with
      blocks := gain c.blocks binder.weakPtr.block
      frames := ⟨binder.weakPtr, binder.f⟩ :: c.frames }, .running binder.f) := by
  have hlock : c.lock binder.weakPtr = binder.weakPtr := by
    rw [Config.lock, hs.expired_iff.mpr h.2]
    rfl
  obtain ⟨target, htarget⟩ := Option.ne_none_iff_exists'.mp h.1
  refine bind_ok.mpr ⟨binder, binderAt_eq hb, ?_⟩
  simp only [hlock, htarget]
  rfl

/-- A binder whose target is gone answers `none`. -/
theorem call_missing (hs : Sound c) {b : Nat} {binder : WeakBinder F}
    (hb : c.binders[b]? = some binder) (h : ¬ c.Reaches binder.weakPtr) :
    c.call (R := R) b = .ok (c, .none) := by
  have hget : (c.lock binder.weakPtr).get = none := by
    unfold Config.lock
    cases hexpired : c.expired binder.weakPtr with
    | true => rfl
    | false =>
      by_contra hget
      exact h ⟨hget, hs.expired_iff.mp hexpired⟩
  have hblocks : lose (gain c.blocks (c.lock binder.weakPtr).block) (c.lock binder.weakPtr).block =
      c.blocks :=
    hs.counts.unique (hs.counts.gain (hs.lock_owned _)).lose (by simp)
  refine bind_ok.mpr ⟨binder, binderAt_eq hb, ?_⟩
  simp only [hget, hblocks]
  rfl

theorem answer_ok {x : Except Fault (Config F)} {r : Response F R} (h : answer x = .ok (c', r)) :
    x = .ok c' := by
  cases x with
  | error _ => cases h
  | ok _ =>
    cases h
    rfl

theorem leave_sound (hs : Sound c) {r r' : Response F R} (h : c.leave r = .ok (c', r')) :
    Sound c' ∧ Onward c c' := by
  unfold Config.leave at h
  split at h
  · cases h
  · rename_i frame frames hframes
    cases h
    exact hs.leave hframes rfl

/-- One step of the program. -/
theorem step_sound (hs : Sound c) {e : Event F R} {r : Response F R}
    (h : step c e = .ok (c', r)) : Sound c' ∧ Onward c c' := by
  cases e with
  | makeShared =>
    cases h
    exact hs.makeShared
  | copy p =>
    obtain ⟨ptr, hp, h⟩ := bind_ok.mp (answer_ok h)
    cases h
    exact hs.share (fun k hk => owners_pos (pointerAt_ok hp) hk)
  | aliasing p get =>
    obtain ⟨ptr, hp, h⟩ := bind_ok.mp (answer_ok h)
    cases h
    exact hs.share (fun k hk => owners_pos (pointerAt_ok hp) hk)
  | move p =>
    obtain ⟨ptr, hp, h⟩ := bind_ok.mp (answer_ok h)
    cases h
    exact hs.move (pointerAt_ok hp) rfl
  | assign p q =>
    obtain ⟨old, hp, h⟩ := bind_ok.mp (answer_ok h)
    obtain ⟨new, hq, h⟩ := bind_ok.mp h
    cases h
    exact hs.replace (pointerAt_ok hp) (fun k hk => owners_pos (pointerAt_ok hq) hk)
  | reset p =>
    obtain ⟨old, hp, h⟩ := bind_ok.mp (answer_ok h)
    cases h
    exact hs.replace (pointerAt_ok hp) (fun k hk => by cases hk)
  | destroy p =>
    obtain ⟨old, hp, h⟩ := bind_ok.mp (answer_ok h)
    cases h
    exact hs.replace (pointerAt_ok hp) (fun k hk => by cases hk)
  | bindWeak f p =>
    obtain ⟨ptr, hp, h⟩ := bind_ok.mp (answer_ok h)
    cases h
    exact hs.bindWeak (pointerAt_ok hp)
  | lock b =>
    obtain ⟨binder, hb, h⟩ := bind_ok.mp h
    cases h
    exact hs.share (hs.lock_owned _)
  | call b =>
    obtain ⟨binder, hb, _⟩ := bind_ok.mp h
    have hb := binderAt_ok hb
    by_cases hreaches : c.Reaches binder.weakPtr
    · rw [step, call_reaching hs hb hreaches] at h
      cases h
      obtain ⟨_, k, hk, hpos⟩ := hreaches
      exact hs.enter hk hpos rfl
    · rw [step, call_missing hs hb hreaches] at h
      cases h
      exact ⟨hs, .refl c⟩
  | returns r => exact leave_sound hs h
  | throws => exact leave_sound hs h

/-- A run keeps the counts right and goes onward. -/
theorem run_sound {es : List (Event F R)} (h : Run step anything c es c') (hs : Sound c) :
    Sound c' ∧ Onward c c' := by
  constructor
  · apply h.invariant _ hs
    intro c e c' r hs _ taken
    exact (step_sound hs taken).1
  · apply h.relation Onward.refl _ _ hs
    · intro c₁ c₂ c₃
      exact Onward.trans
    · intro c e c' r hs _ taken
      exact step_sound hs taken

theorem Sound.alive (hs : Sound c) {frame : Frame F} (h : frame ∈ c.frames) :
    ∃ k block, frame.lockedPtr.block = some k ∧ c.blocks[k]? = some block ∧
      block.destroyed = false := by
  obtain ⟨k, hk⟩ := hs.running frame h
  have hframe : 0 < ownersIn (fun frame : Frame F => frame.lockedPtr.block) c.frames k :=
    ownersIn_pos h hk
  have hpos : 0 < c.owners k := by
    unfold Config.owners
    omega
  refine ⟨k, _, hk, hs.counts.exact k (hs.counts.lt hpos), ?_⟩
  simp [Block.of]
  omega

/-- A target that is gone stays gone: no later call of the binder runs its function. -/
theorem Onward.missing (hs : Sound c) (h : Onward c c') {b : Nat} {binder : WeakBinder F}
    (hb : c.binders[b]? = some binder) (hmissing : ¬ c.Reaches binder.weakPtr) :
    ¬ c'.Reaches binder.weakPtr := by
  intro hreaches
  obtain ⟨hget, k, hk, hpos⟩ := hreaches
  have hlt := hs.bound binder (List.mem_of_getElem? hb) k hk
  have hzero : c.owners k = 0 := by
    by_contra hne
    exact hmissing ⟨hget, k, hk, by omega⟩
  have := h.unowned k hlt hzero
  omega

/-- Once a call has answered `none`, every later call of that binder does. -/
theorem expired_forever {es es' : List (Event F R)} {b : Nat} {binder : WeakBinder F}
    (h : Run step anything .initial es c) (hb : c.binders[b]? = some binder)
    (hnone : step c (.call b : Event F R) = .ok (c, .none)) (h' : Run step anything c es' c') :
    step c' (.call b : Event F R) = .ok (c', .none) := by
  have hs := (run_sound h initial_sound).1
  obtain ⟨hs', honward⟩ := run_sound h' hs
  have hmissing : ¬ c.Reaches binder.weakPtr := by
    intro hreaches
    rw [step, call_reaching hs hb hreaches] at hnone
    have hresponse := (Prod.mk.inj (Except.ok.inj hnone)).2
    cases hresponse
  exact call_missing hs' (honward.binders b binder hb) (honward.missing hs hb hmissing)

/-- A new object takes nobody's place. -/
theorem expired_forever_renewed :
    step (⟨[.of 0, .of 1], [.holds .null, .holds ⟨some 1, some 1⟩], [⟨⟨some 0, some 0⟩, 7⟩], []⟩ :
        Config Nat) (.call 0 : Event Nat Nat) =
      .ok (⟨[.of 0, .of 1], [.holds .null, .holds ⟨some 1, some 1⟩], [⟨⟨some 0, some 0⟩, 7⟩], []⟩,
        .none) := by
  have hrun : Run step anything Config.initial
      ([.makeShared, .bindWeak 7 0, .reset 0] : List (Event Nat Nat))
      ⟨[.of 0], [.holds .null], [⟨⟨some 0, some 0⟩, 7⟩], []⟩ := run_of_runAll rfl
  have hrun' : Run step anything
      (⟨[.of 0], [.holds .null], [⟨⟨some 0, some 0⟩, 7⟩], []⟩ : Config Nat)
      ([.makeShared] : List (Event Nat Nat))
      ⟨[.of 0, .of 1], [.holds .null, .holds ⟨some 1, some 1⟩], [⟨⟨some 0, some 0⟩, 7⟩], []⟩ :=
    run_of_runAll rfl
  exact expired_forever hrun rfl rfl hrun'

end Valuelib.Stdext.BindWeak
