import Valuelib.Debug.Trace
import Valuelib.Base.Runs

namespace Valuelib.Debug
open Text Checked Runs

variable {c c' : Thread}

theorem raise_eq {n : Nat} (h : n + 1 < UInt64.size) : raise n = n + 1 := Nat.mod_eq_of_lt h

theorem lower_succ {n : Nat} (h : n < UInt64.size) : lower (n + 1) = n := by
  have hsum : n + 1 + (UInt64.size - 1) = n + UInt64.size := by
    unfold UInt64.size
    omega
  rw [lower, hsum, Nat.add_mod_right, Nat.mod_eq_of_lt h]

theorem lower_ne {n : Nat} (h : n < UInt64.size) : lower n ≠ n := by
  cases n with
  | zero => decide
  | succ n =>
    rw [lower_succ (by omega)]
    omega

/-- The text is as long as the depth, up to the length of the arrow: eleven
digits do not outgrow it. -/
theorem leadIn_ok {dist : Nat} (h : dist < 100000000000) :
    ∃ text, leadIn dist = .ok text ∧ text.length = min dist modelSize := by
  have hmodel : model.length = modelSize := by decide
  unfold leadIn
  by_cases hlong : dist > modelSize
  · have hdigits : (numeral 10 dist).length ≤ modelSize := by
      rw [numeral, List.length_map]
      exact (Nat.length_toDigits_le_iff (by omega) (by decide)).mpr h
    refine ⟨numeral 10 dist ++ model.drop (numeral 10 dist).length, ?_, ?_⟩
    · simp [hlong, hdigits]
    · rw [List.length_append, List.length_drop, hmodel]
      omega
  · refine ⟨model.drop (modelSize - dist), if_neg hlong, ?_⟩
    rw [List.length_drop, hmodel]
    omega

def Tracer.isAlive (t : Tracer) : Bool := t ≠ .gone

def Tracer.isActive (t : Tracer) : Bool := t == .alive true

@[simp] theorem Tracer.isAlive_alive (b : Bool) : (Tracer.alive b).isAlive = true := rfl

@[simp] theorem Tracer.isAlive_gone : Tracer.gone.isAlive = false := rfl

@[simp] theorem Tracer.isActive_alive (b : Bool) : (Tracer.alive b).isActive = b := by
  cases b with
  | false => rfl
  | true => rfl

@[simp] theorem Tracer.isActive_gone : Tracer.gone.isActive = false := rfl

/-- How writing one slot changes a count. -/
theorem countP_put {l : List Tracer} {i : Nat} {y : Tracer} (h : l[i]? = some y) (x : Tracer)
    (p : Tracer → Bool) : (l.set i x).countP p + (p y).toNat = l.countP p + (p x).toNat := by
  obtain ⟨hlt, hy⟩ := List.getElem?_eq_some_iff.mp h
  rw [List.countP_set hlt, hy]
  cases hpy : p y with
  | false => cases p x <;> simp
  | true =>
    have hpos : 0 < l.countP p := List.countP_pos_iff.mpr ⟨y, List.mem_of_getElem? h, hpy⟩
    cases p x
    · simp
      omega
    · simp
      omega

/-- The depth counts the tracers that `trace` has returned and that are active. -/
structure Balanced (c : Thread) : Prop where
  depth : c.depth = c.tracers.countP Tracer.isActive
  addresses : c.tracers.countP Tracer.isAlive + c.printing < UInt64.size

theorem initial_balanced : Balanced Thread.initial := by
  constructor
  · rfl
  · decide

theorem tracerAt_ok {p : Nat} {active : Bool} (h : c.tracerAt p = .ok active) :
    c.tracers[p]? = some (.alive active) := by
  unfold Thread.tracerAt at h
  split at h
  · cases h
    assumption
  · cases h

theorem room_ok (h : c.room = .ok ()) :
    c.tracers.countP Tracer.isAlive + c.printing + 1 < UInt64.size := by
  unfold Thread.room at h
  split at h
  · assumption
  · cases h

/-- No more tracers are active than alive. -/
theorem active_le_live (c : Thread) : c.active ≤ c.live := by
  have hmono : c.tracers.countP Tracer.isActive ≤ c.tracers.countP Tracer.isAlive := by
    apply List.countP_mono_left
    intro x _ hx
    cases x with
    | gone => cases hx
    | alive _ => rfl
  exact Nat.add_le_add_right hmono _

namespace Balanced

theorem active_eq (h : Balanced c) : c.active = c.depth + c.printing := by
  rw [h.depth]
  rfl

theorem depth_lt (h : Balanced c) : c.depth + c.printing < UInt64.size := by
  rw [← h.active_eq]
  exact Nat.lt_of_le_of_lt (active_le_live c) h.addresses

theorem depth_pos (h : Balanced c) {p : Nat} (hp : c.tracers[p]? = some (.alive true)) :
    0 < c.depth := by
  rw [h.depth]
  exact List.countP_pos_iff.mpr ⟨_, List.mem_of_getElem? hp, rfl⟩

/-- A call of `trace` keeps the balance: the tracer it prints with is not counted yet. -/
theorem trace (h : Balanced c) {enabled : Bool} (ht : c.trace enabled = .ok c') :
    Balanced c' := by
  obtain ⟨_, hroom, ht⟩ := bind_ok.mp ht
  have hroom := room_ok hroom
  cases enabled with
  | true =>
    obtain ⟨_, _, ht⟩ := bind_ok.mp ht
    cases ht
    exact ⟨h.depth, hroom⟩
  | false =>
    cases ht
    constructor
    · simp [h.depth]
    · simp only [List.countP_append, List.countP_singleton, Tracer.isAlive_alive, if_true]
      omega

/-- A call that has printed returns its tracer and counts it. -/
theorem printed (h : Balanced c) (ht : c.printed = .ok c') : Balanced c' := by
  unfold Thread.printed at ht
  split at ht
  · cases ht
  · rename_i n hn
    cases ht
    have hlt := h.depth_lt
    have haddresses := h.addresses
    constructor
    · rw [raise_eq (by omega), h.depth]
      simp
    · simp only [List.countP_append, List.countP_singleton, Tracer.isAlive_alive, if_true]
      omega

theorem moveConstruct (h : Balanced c) {q : Nat} (ht : c.moveConstruct q = .ok c') :
    Balanced c' := by
  obtain ⟨active, hq, ht⟩ := bind_ok.mp ht
  obtain ⟨_, hroom, ht⟩ := bind_ok.mp ht
  have hroom := room_ok hroom
  have hq := tracerAt_ok hq
  cases ht
  constructor
  · have hput := countP_put hq (.alive false) Tracer.isActive
    rw [h.depth, List.countP_append]
    cases active with
    | true => simpa using hput.symm
    | false => simpa using hput.symm
  · have hput := countP_put hq (.alive false) Tracer.isAlive
    simp only [Tracer.isAlive_alive] at hput
    simp only [List.countP_append, List.countP_singleton, Tracer.isAlive_alive, if_true]
    omega

theorem moveAssign (h : Balanced c) {p q : Nat} (ht : c.moveAssign p q = .ok c') :
    Balanced c' := by
  obtain ⟨activeP, hp, ht⟩ := bind_ok.mp ht
  obtain ⟨activeQ, hq, ht⟩ := bind_ok.mp ht
  have hp := tracerAt_ok hp
  have hq := tracerAt_ok hq
  cases ht
  -- A swap of two slots, which may be one slot, changes no count.
  have hcount : ∀ f : Tracer → Bool,
      ((c.tracers.set p (.alive activeQ)).set q (.alive activeP)).countP f =
        c.tracers.countP f := by
    intro f
    have hfirst := countP_put hp (.alive activeQ) f
    by_cases hpq : p = q
    · subst hpq
      rw [hp] at hq
      cases hq
      have hlt := (List.getElem?_eq_some_iff.mp hp).1
      have hset : (c.tracers.set p (.alive activeP))[p]? = some (.alive activeP) :=
        List.getElem?_set_self hlt
      have hsecond := countP_put hset (.alive activeP) f
      omega
    · have hset : (c.tracers.set p (.alive activeQ))[q]? = some (.alive activeQ) := by
        rw [List.getElem?_set_ne hpq, hq]
      have hsecond := countP_put hset (.alive activeP) f
      omega
  constructor
  · rw [h.depth]
    exact (hcount _).symm
  · rw [hcount]
    exact h.addresses

/-- An active tracer that is destroyed is no longer counted. -/
theorem leave (h : Balanced c) {p : Nat} (ht : c.leave p = .ok c') : Balanced c' := by
  obtain ⟨active, hp, ht⟩ := bind_ok.mp ht
  have hp := tracerAt_ok hp
  cases ht
  have hactive := countP_put hp .gone Tracer.isActive
  have halive := countP_put hp .gone Tracer.isAlive
  have haddresses := h.addresses
  rw [← h.depth] at hactive
  simp only [Tracer.isActive_alive, Tracer.isActive_gone, Bool.toNat_false] at hactive
  simp only [Tracer.isAlive_alive, Tracer.isAlive_gone, Bool.toNat_true, Bool.toNat_false]
    at halive
  constructor
  · cases active with
    | true =>
      have hlt := h.depth_lt
      have hdepth : c.depth = (c.tracers.set p .gone).countP Tracer.isActive + 1 := by
        simpa using hactive.symm
      rw [if_pos rfl, hdepth, lower_succ (by omega)]
    | false => simpa using hactive.symm
  · change (c.tracers.set p .gone).countP Tracer.isAlive + c.printing < UInt64.size
    omega

end Balanced

def Quiet (_c : Thread) (e : Event) : Prop := e ≠ .printingThrows

/-- Every event but an exception out of the printing keeps the balance. -/
theorem step_balanced (h : Balanced c) {e : Event} {threw : Bool} (hquiet : Quiet c e)
    (ht : step c e = .ok (c', threw)) : Balanced c' := by
  have hmap : ∀ {x : Except Fault Thread} {b : Bool},
      x.map (·, b) = .ok (c', threw) → x = .ok c' := by
    intro x b hx
    cases x with
    | error _ => cases hx
    | ok _ =>
      cases hx
      rfl
  cases e with
  | trace enabled => exact h.trace (hmap ht)
  | printed => exact h.printed (hmap ht)
  | printingThrows => exact absurd rfl hquiet
  | moveConstruct q => exact h.moveConstruct (hmap ht)
  | moveAssign p q => exact h.moveAssign (hmap ht)
  | leave p => exact h.leave (hmap ht)

/-- What the depth is for: between operations, when no call of `trace` is printing,
it is the number of active tracers. A call that prints has its tracer already. -/
structure DepthExact (c : Thread) : Prop where
  exact : c.depth + c.printing = c.active
  counted : ∀ p : Nat, c.tracers[p]? = some (Tracer.alive true) → 0 < c.depth
  arrow : c.live < 100000000000 → ∃ text, leadIn c.depth = .ok text ∧
    text.length = min c.depth modelSize

theorem Balanced.depthExact (h : Balanced c) : DepthExact c := by
  have hactive := h.active_eq
  have hlive := active_le_live c
  refine ⟨hactive.symm, ?_, ?_⟩
  · intro p hp
    exact h.depth_pos hp
  · intro hfew
    apply leadIn_ok
    omega

/-- The tracer of a call that throws lowers a depth that was not raised. -/
theorem Balanced.not_exact_of_throw (h : Balanced c) {threw : Bool}
    (ht : step c .printingThrows = .ok (c', threw)) : ¬ DepthExact c' := by
  intro hexact
  have hlt := h.depth_lt
  cases hprinting : c.printing with
  | zero => simp [step, Thread.printingThrows, hprinting, Except.map] at ht
  | succ n =>
    simp only [step, Thread.printingThrows, hprinting, Except.map, Except.ok.injEq,
      Prod.mk.injEq] at ht
    obtain ⟨rfl, _⟩ := ht
    have hdepth : lower c.depth + n = c.tracers.countP Tracer.isActive + n := hexact.exact
    rw [← h.depth] at hdepth
    exact lower_ne (by omega) (Nat.add_right_cancel hdepth)

/-- Without exceptions from the printing the depth is exact at every point, and
the first such exception makes it wrong. -/
theorem quiet_depth_exact {es : List Event} (h : Run step Quiet Thread.initial es c) :
    DepthExact c ∧ ∀ c' threw, step c .printingThrows = .ok (c', threw) → ¬ DepthExact c' := by
  have hc : Balanced c := by
    apply h.invariant _ initial_balanced
    intro c e c' threw hc hquiet taken
    exact step_balanced hc hquiet taken
  refine ⟨hc.depthExact, ?_⟩
  intro c' threw ht
  exact hc.not_exact_of_throw ht

theorem quiet_depth_exact_moved : DepthExact ⟨1, [.gone, .alive true, .alive false], 0⟩ := by
  have hmoved : Run step Quiet ⟨1, [.alive true], 0⟩
      [.moveConstruct 0, .leave 0, .trace false] ⟨1, [.gone, .alive true, .alive false], 0⟩ :=
    .cons (by simp [Quiet]) rfl (.cons (by simp [Quiet]) rfl (.cons (by simp [Quiet]) rfl (.nil _)))
  have htraced : Run step Quiet Thread.initial
      [.trace true, .printed, .moveConstruct 0, .leave 0, .trace false]
      ⟨1, [.gone, .alive true, .alive false], 0⟩ :=
    .cons (by simp [Quiet]) rfl (.cons (by simp [Quiet]) rfl hmoved)
  exact (quiet_depth_exact htraced).1

/-- A call whose argument throws: its tracer, destroyed before `++depth`, takes
the depth below zero. -/
theorem throwing_print_wraps_depth :
    Run step anything Thread.initial [.trace true, .printingThrows] ⟨18446744073709551615, [], 0⟩ ∧
      ¬ DepthExact ⟨18446744073709551615, [], 0⟩ := by
  constructor
  · exact .cons trivial rfl (.cons trivial rfl (.nil _))
  · intro h
    have hexact := h.exact
    revert hexact
    decide

end Valuelib.Debug
