import Mathlib.Data.Fintype.Pigeonhole
import Mathlib.Order.WellFounded
import Valuelib.Database.Registration

namespace Valuelib.Database

variable {Entity : Type} [DecidableEq Entity]

/-- Registering the roots one after the other returns. -/
def Returns (m : Schema Entity) (c : Context Entity) (roots : List Entity) : Prop :=
  ∃ fuel c', registerAll m fuel c roots = some c'

omit [DecidableEq Entity] in
theorem foldlM_mono {f g : Context Entity → Entity → Option (Context Entity)}
    (hfg : ∀ c d c', f c d = some c' → g c d = some c') (ds : List Entity)
    {c c' : Context Entity} (h : ds.foldlM f c = some c') : ds.foldlM g c = some c' := by
  induction ds generalizing c with
  | nil => exact h
  | cons d ds ih =>
    rw [List.foldlM_cons] at h ⊢
    obtain ⟨c₁, h₁, h₂⟩ := Option.bind_eq_some_iff.mp h
    exact Option.bind_eq_some_iff.mpr ⟨c₁, hfg c d c₁ h₁, ih h₂⟩

/-- A call that returns does the same with more room on the stack. -/
theorem registerEntityFor_mono (m : Schema Entity) {n k : Nat} (hnk : n ≤ k)
    {c c' : Context Entity} {e : Entity} {i : Nat}
    (h : registerEntityFor m n c e i = some c') : registerEntityFor m k c e i = some c' := by
  induction n generalizing k c c' e i with
  | zero => cases h
  | succ n ih =>
    obtain ⟨k, rfl⟩ := Nat.exists_eq_add_of_lt (Nat.lt_of_succ_le hnk)
    exact foldlM_mono (fun c d c' hd => ih (by omega) hd) _ h

theorem registerEntity_mono (m : Schema Entity) {n k : Nat} (hnk : n ≤ k)
    {c c' : Context Entity} {e : Entity} (h : registerEntity m n c e = some c') :
    registerEntity m k c e = some c' := by
  obtain ⟨c₁, h₁, h₂⟩ := Option.bind_eq_some_iff.mp h
  exact Option.bind_eq_some_iff.mpr
    ⟨c₁, foldlM_mono (fun c d c' hd => registerEntityFor_mono m hnk hd) _ h₁, h₂⟩

theorem registerAll_mono (m : Schema Entity) {n k : Nat} (hnk : n ≤ k) (roots : List Entity)
    {c c' : Context Entity} (h : registerAll m n c roots = some c') :
    registerAll m k c roots = some c' := by
  apply foldlM_mono _ roots h
  intro c d c' hr
  exact registerEntity_mono m hnk hr

omit [DecidableEq Entity] in
/-- A loop does not return when one of its calls never does. -/
theorem loop_never_returns {f : Context Entity → Entity → Option (Context Entity)} {d : Entity}
    (hd : ∀ c, f c d = none) (ds : List Entity) (hm : d ∈ ds) (c : Context Entity) :
    ds.foldlM f c = none := by
  induction ds generalizing c with
  | nil => cases hm
  | cons x ds ih =>
    rw [List.foldlM_cons]
    rcases List.mem_cons.mp hm with rfl | hm
    · rw [hd c]
      rfl
    · cases f c x with
      | none => rfl
      | some c₁ => exact ih hm c₁

/-- Nothing stops the recursion at an entity already indexed: above a cycle no
depth of calls suffices. -/
theorem registerEntityFor_never_returns (m : Schema Entity) (fuel : Nat) {a e : Entity}
    (ha : m.Reaches a e) (he : m.Requires e e) (c : Context Entity) (k : Nat) :
    registerEntityFor m fuel c a k = none := by
  induction fuel generalizing a c k with
  | zero => rfl
  | succ fuel ih =>
    obtain ⟨d, hd, hde⟩ := m.dependency_of_cycle a e ha he
    exact loop_never_returns (fun c => ih hde c _) (m.dependencies a) hd _

theorem registerEntity_never_returns (m : Schema Entity) (fuel : Nat) {a e : Entity}
    (ha : m.Reaches a e) (he : m.Requires e e) (c : Context Entity) :
    registerEntity m fuel c a = none := by
  obtain ⟨d, hd, hde⟩ := m.dependency_of_cycle a e ha he
  have hloop := loop_never_returns
    (f := fun c' d => registerEntityFor m fuel c' d (indexEntity c a).1)
    (fun c' => registerEntityFor_never_returns m fuel hde he c' _)
    (m.dependencies a) hd (indexEntity c a).2
  simp [registerEntity, hloop]

/-- Above a cycle registration never returns. -/
theorem no_return_of_cycle (m : Schema Entity) {roots : List Entity} (h : m.CycleBelow roots)
    (c : Context Entity) : ¬ Returns m c roots := by
  intro hreturns
  obtain ⟨fuel, c', hc⟩ := hreturns
  obtain ⟨e, ⟨r, hr, hre⟩, he⟩ := h
  have hloop := loop_never_returns (registerEntity_never_returns m fuel hre he) roots hr c
  rw [registerAll, hloop] at hc
  cases hc

omit [DecidableEq Entity] in
/-- Without a cycle below it, an entity starts no endless chain of dependencies,
since a chain through finitely many entities repeats one. -/
theorem acc_of_no_cycle [Finite Entity] (m : Schema Entity) (a : Entity)
    (h : ∀ e, m.Reaches a e → ¬ m.Requires e e) : Acc (fun d e => m.DependsOn e d) a := by
  by_contra hacc
  obtain ⟨f, hf₀, hf⟩ := not_acc_iff_exists_descending_chain.mp hacc
  have hreach : ∀ i j, i ≤ j → m.Reaches (f i) (f j) := fun i j hij =>
    Nat.le_induction .refl (fun k _ ih => ih.tail (hf k)) j hij
  have hrequire : ∀ i j, i < j → m.Requires (f i) (f j) := fun i j hij =>
    .head' (hf i) (hreach (i + 1) j hij)
  obtain ⟨i, j, hne, hij⟩ := Finite.exists_ne_map_eq_of_infinite f
  have hcycle : ∀ i j, i < j → f i = f j → False := fun i j hlt he =>
    h (f i) (hf₀ ▸ hreach 0 i (Nat.zero_le i)) (by
      have := hrequire i j hlt
      rwa [← he] at this)
  rcases Nat.lt_or_gt_of_ne hne with hlt | hlt
  · exact hcycle i j hlt hij
  · exact hcycle j i hlt hij.symm

omit [DecidableEq Entity] in
/-- One depth serves a whole list when each member has one. -/
theorem common_depth (p : Nat → Entity → Prop) (ds : List Entity)
    (h : ∀ d ∈ ds, ∃ n, ∀ k ≥ n, p k d) : ∃ n, ∀ k ≥ n, ∀ d ∈ ds, p k d := by
  induction ds with
  | nil => exact ⟨0, by simp⟩
  | cons d ds ih =>
    obtain ⟨n, hn⟩ := h d List.mem_cons_self
    obtain ⟨n', hn'⟩ := ih (fun x hx => h x (List.mem_cons_of_mem _ hx))
    refine ⟨max n n', ?_⟩
    intro k hk x hx
    rcases List.mem_cons.mp hx with rfl | hx
    · exact hn k (by omega)
    · exact hn' k (by omega) x hx

omit [DecidableEq Entity] in
theorem loop_returns {f : Context Entity → Entity → Option (Context Entity)} (ds : List Entity)
    (hf : ∀ d ∈ ds, ∀ c, ∃ c', f c d = some c') (c : Context Entity) :
    ∃ c', ds.foldlM f c = some c' := by
  induction ds generalizing c with
  | nil => exact ⟨c, rfl⟩
  | cons d ds ih =>
    obtain ⟨c₁, h₁⟩ := hf d List.mem_cons_self c
    obtain ⟨c', h'⟩ := ih (fun x hx => hf x (List.mem_cons_of_mem _ hx)) c₁
    exact ⟨c', by rw [List.foldlM_cons, h₁]; exact h'⟩

theorem registerEntityFor_returns (m : Schema Entity) {e : Entity}
    (h : Acc (fun d e => m.DependsOn e d) e) :
    ∃ n, ∀ k ≥ n, ∀ c i, ∃ c', registerEntityFor m k c e i = some c' := by
  induction h with
  | intro e _ ih =>
    obtain ⟨n, hn⟩ := common_depth
      (fun k d => ∀ c i, ∃ c', registerEntityFor m k c d i = some c') (m.dependencies e) ih
    refine ⟨n + 1, ?_⟩
    intro k hk c i
    obtain ⟨k, rfl⟩ := Nat.exists_eq_add_of_lt (Nat.lt_of_succ_le hk)
    exact loop_returns _ (fun d hd c => hn (n + k) (by omega) d hd c _) _

theorem registerEntity_returns [Finite Entity] (m : Schema Entity) (e : Entity)
    (h : ∀ x, m.Reaches e x → ¬ m.Requires x x) :
    ∃ n, ∀ k ≥ n, ∀ c, ∃ c', registerEntity m k c e = some c' := by
  have hacc : ∀ d ∈ m.dependencies e, Acc (fun d e => m.DependsOn e d) d := fun d hd =>
    (acc_of_no_cycle m e h).inv hd
  obtain ⟨n, hn⟩ := common_depth
    (fun k d => ∀ c i, ∃ c', registerEntityFor m k c d i = some c') (m.dependencies e)
    (fun d hd => registerEntityFor_returns m (hacc d hd))
  refine ⟨n, ?_⟩
  intro k hk c
  obtain ⟨c', hc'⟩ := loop_returns (m.dependencies e)
    (fun d hd c' => hn k hk d hd c' (indexEntity c e).1) (indexEntity c e).2
  exact ⟨{ c' with edges := sortUnique c'.edges }, by simp [registerEntity, hc']⟩

/-- Without a cycle below the roots registration returns, given enough depth. -/
theorem registerAll_returns [Finite Entity] (m : Schema Entity) (roots : List Entity)
    (h : ¬ m.CycleBelow roots) :
    ∃ n, ∀ k ≥ n, ∀ c, ∃ c', registerAll m k c roots = some c' := by
  have heach : ∀ r ∈ roots, ∃ n, ∀ k ≥ n, ∀ c, ∃ c', registerEntity m k c r = some c' := by
    intro r hr
    apply registerEntity_returns
    intro x hx hxx
    exact h ⟨x, ⟨r, hr, hx⟩, hxx⟩
  obtain ⟨n, hn⟩ :=
    common_depth (fun k e => ∀ c, ∃ c', registerEntity m k c e = some c') roots heach
  refine ⟨n, ?_⟩
  intro k hk c
  exact loop_returns roots (hn k hk) c

/-- Registration returns exactly when no cycle lies below the roots. -/
theorem returns_iff [Finite Entity] (m : Schema Entity) (c : Context Entity)
    (roots : List Entity) : Returns m c roots ↔ ¬ m.CycleBelow roots := by
  constructor
  · intro hr hc
    exact no_return_of_cycle m hc c hr
  · intro h
    obtain ⟨n, hn⟩ := registerAll_returns m roots h
    obtain ⟨c', hc'⟩ := hn n (Nat.le_refl n) c
    exact ⟨n, c', hc'⟩

end Valuelib.Database
