import Mathlib.Data.List.Nodup
import Mathlib.Data.List.Perm.Subperm
import Mathlib.Data.List.Range
import Mathlib.Logic.Relation

namespace DepthFirst

/-- A directed graph on the vertices below `size`. Parallel edges are kept, and
the order of the edges is the order in which a search follows them. -/
structure Graph where
  size : Nat
  edges : List (Nat × Nat)
deriving DecidableEq, Repr

namespace Graph

def Edge (g : Graph) (v w : Nat) : Prop := (v, w) ∈ g.edges

def Bounded (g : Graph) : Prop := ∀ e ∈ g.edges, e.1 < g.size ∧ e.2 < g.size

def Acyclic (g : Graph) : Prop := ∀ v, ¬ Relation.TransGen g.Edge v v

def successors (g : Graph) (v : Nat) : List Nat :=
  (g.edges.filter (fun e => e.1 == v)).map Prod.snd

@[simp] theorem mem_successors {g : Graph} {v w : Nat} : w ∈ g.successors v ↔ g.Edge v w := by
  simp [successors, Edge]

/-- Every vertex once, and the target of each edge before its source. -/
structure TargetFirst (g : Graph) (order : List Nat) : Prop where
  vertices : order.Perm (List.range g.size)
  edges : ∀ v w, g.Edge v w → [w, v].Sublist order

end Graph

/-- What a search has produced: the vertices in the order in which they were
finished and the edges found to lead back into the current path. -/
structure Search where
  finished : List Nat
  backEdges : List (Nat × Nat)
deriving DecidableEq, Repr

def visit (g : Graph) : Nat → List Nat → Nat → Search → Search
  | 0, _, _, s => s
  | fuel + 1, path, v, s =>
    let t := (g.successors v).foldl (fun s w =>
      if w ∈ v :: path then { s with backEdges := s.backEdges ++ [(v, w)] }
      else if w ∈ s.finished then s
      else visit g fuel (v :: path) w s) s
    { t with finished := t.finished ++ [v] }

def search (g : Graph) : Search :=
  (List.range g.size).foldl (fun s v =>
    if v ∈ s.finished then s else visit g g.size [] v s) ⟨[], []⟩

/-- What holds of a search at every point: a back edge is an edge that closes a
cycle, and without back edges a vertex is finished after all its successors. -/
structure Sound (g : Graph) (s : Search) : Prop where
  bounded : ∀ v ∈ s.finished, v < g.size
  nodup : s.finished.Nodup
  ordered : s.backEdges = [] → ∀ v ∈ s.finished, ∀ w, g.Edge v w → [w, v].Sublist s.finished
  cyclic : ∀ e ∈ s.backEdges, e ∈ g.edges ∧ Relation.TransGen g.Edge e.1 e.1

/-- One search extends another without finishing any vertex of the path. -/
structure Extends (path : List Nat) (s t : Search) : Prop where
  finished : s.finished <+: t.finished
  backEdges : s.backEdges <+: t.backEdges
  apart : ∀ v ∈ path, v ∉ t.finished

theorem Extends.refl (h : ∀ v ∈ path, v ∉ s.finished) : Extends path s s := by
  refine ⟨List.prefix_refl _, List.prefix_refl _, ?_⟩
  exact h

theorem Extends.trans (h : Extends path s t) (k : Extends path t u) : Extends path s u := by
  refine ⟨h.finished.trans k.finished, h.backEdges.trans k.backEdges, ?_⟩
  exact k.apart

/-- The path of a running search: distinct vertices, none of them finished,
each leading to the vertex under exploration. -/
structure Path (g : Graph) (path : List Nat) (v : Nat) (s : Search) : Prop where
  nodup : (v :: path).Nodup
  bounded : ∀ u ∈ v :: path, u < g.size
  unfinished : ∀ u ∈ v :: path, u ∉ s.finished
  leads : ∀ u ∈ path, Relation.TransGen g.Edge u v

theorem Path.length_lt (h : Path g path v s) : path.length < g.size := by
  have hsub : v :: path ⊆ List.range g.size := fun u hu => List.mem_range.mpr (h.bounded u hu)
  have hlen := (h.nodup.subperm hsub).length_le
  rwa [List.length_cons, List.length_range] at hlen

theorem Path.extend (h : Path g path v s) (he : Extends (v :: path) s t) : Path g path v t := by
  refine ⟨h.nodup, h.bounded, ?_, h.leads⟩
  exact he.apart

/-- Descending along an edge to a new vertex lengthens the path. -/
theorem Path.push (h : Path g path v s) (hg : g.Bounded) (he : g.Edge v w)
    (hp : w ∉ v :: path) (hf : w ∉ s.finished) : Path g (v :: path) w s := by
  refine ⟨List.nodup_cons.mpr ⟨hp, h.nodup⟩, ?_, ?_, ?_⟩
  · intro u hu
    rcases List.mem_cons.mp hu with rfl | hu
    · exact (hg _ he).2
    · exact h.bounded u hu
  · intro u hu
    rcases List.mem_cons.mp hu with rfl | hu
    · exact hf
    · exact h.unfinished u hu
  · intro u hu
    rcases List.mem_cons.mp hu with rfl | hu
    · exact .single he
    · exact (h.leads u hu).tail he

/-- An edge into the path closes a cycle through its source. -/
theorem Path.closes (h : Path g path v s) (he : g.Edge v w) (hp : w ∈ v :: path) :
    Relation.TransGen g.Edge v v := by
  rcases List.mem_cons.mp hp with rfl | hp
  · exact .single he
  · exact .head he (h.leads w hp)

theorem Sound.back (hs : Sound g s) (he : g.Edge v w) (hc : Relation.TransGen g.Edge v v) :
    Sound g { s with backEdges := s.backEdges ++ [(v, w)] } := by
  refine ⟨hs.bounded, hs.nodup, by simp, ?_⟩
  intro e hm
  rcases List.mem_append.mp hm with hm | hm
  · exact hs.cyclic e hm
  · rw [List.mem_singleton.mp hm]
    exact ⟨he, hc⟩

/-- A vertex may be finished once its successors are, or a back edge was seen. -/
theorem Sound.finish (hs : Sound g s) (hp : Path g path v s)
    (hw : s.backEdges = [] → ∀ w, g.Edge v w → w ∈ s.finished) :
    Sound g { s with finished := s.finished ++ [v] } := by
  have hv := hp.unfinished v List.mem_cons_self
  refine ⟨?_, ?_, ?_, hs.cyclic⟩
  · intro u hu
    rcases List.mem_append.mp hu with hu | hu
    · exact hs.bounded u hu
    · rw [List.mem_singleton.mp hu]
      exact hp.bounded v List.mem_cons_self
  · exact List.nodup_append.mpr ⟨hs.nodup, List.nodup_singleton v, by
      intro a ha b hb hab
      rw [List.mem_singleton.mp hb] at hab
      exact hv (hab ▸ ha)⟩
  · intro hb u hu w he
    rcases List.mem_append.mp hu with hu | hu
    · exact (hs.ordered hb u hu w he).trans (List.sublist_append_left _ _)
    · rw [List.mem_singleton.mp hu] at he ⊢
      exact (List.singleton_sublist.mpr (hw hb w he)).append (List.Sublist.refl [v])

structure Visited (g : Graph) (path : List Nat) (v : Nat) (s t : Search) : Prop where
  sound : Sound g t
  extends_ : Extends path s t
  done : v ∈ t.finished

/-- One loop over successors, given that each recursive visit is right. Every
successor ends up finished unless some back edge was reported. -/
theorem successors_loop (hg : g.Bounded) (f : Nat → Search → Search)
    (hf : ∀ s w, Sound g s → Path g (v :: path) w s → Visited g (v :: path) w s (f w s))
    (ws : List Nat) (hws : ∀ w ∈ ws, g.Edge v w) (hs : Sound g s) (hp : Path g path v s) :
    let t := ws.foldl (fun s w =>
      if w ∈ v :: path then { s with backEdges := s.backEdges ++ [(v, w)] }
      else if w ∈ s.finished then s else f w s) s
    Sound g t ∧ Extends (v :: path) s t ∧ (t.backEdges = [] → ∀ w ∈ ws, w ∈ t.finished) := by
  induction ws generalizing s with
  | nil => exact ⟨hs, .refl hp.unfinished, by simp⟩
  | cons w ws ih =>
    have he := hws w List.mem_cons_self
    have hrest : ∀ x ∈ ws, g.Edge v x := fun x hx => hws x (List.mem_cons_of_mem _ hx)
    simp only [List.foldl_cons]
    split
    · rename_i hback
      obtain ⟨ht, hx, hall⟩ := ih hrest (hs.back he (hp.closes he hback))
        ⟨hp.nodup, hp.bounded, hp.unfinished, hp.leads⟩
      refine ⟨ht, ⟨hx.finished, (List.prefix_append _ _).trans hx.backEdges, hx.apart⟩, ?_⟩
      intro hnone
      have hlast := hx.backEdges.subset (List.mem_append_right _ (List.mem_singleton_self (v, w)))
      rw [hnone] at hlast
      cases hlast
    · rename_i hnew
      split
      · rename_i hdone
        obtain ⟨ht, hx, hall⟩ := ih hrest hs hp
        refine ⟨ht, hx, ?_⟩
        intro hnone x hm
        rcases List.mem_cons.mp hm with rfl | hm
        · exact hx.finished.subset hdone
        · exact hall hnone x hm
      · rename_i hopen
        have hv := hf s w hs (hp.push hg he hnew hopen)
        obtain ⟨ht, hx, hall⟩ := ih hrest hv.sound (hp.extend hv.extends_)
        refine ⟨ht, hv.extends_.trans hx, ?_⟩
        intro hnone x hm
        rcases List.mem_cons.mp hm with rfl | hm
        · exact hx.finished.subset hv.done
        · exact hall hnone x hm

/-- The fuel suffices because the path never repeats a vertex. -/
theorem visit_visited (hg : g.Bounded) (fuel : Nat) (hn : g.size ≤ fuel + path.length)
    (hs : Sound g s) (hp : Path g path v s) : Visited g path v s (visit g fuel path v s) := by
  induction fuel generalizing path v s with
  | zero => have := hp.length_lt; omega
  | succ fuel ih =>
    obtain ⟨ht, hx, hall⟩ := successors_loop hg (visit g fuel (v :: path))
      (fun s w hs hp => ih (by simp only [List.length_cons]; omega) hs hp)
      (g.successors v) (fun w hw => Graph.mem_successors.mp hw) hs hp
    have hfin := ht.finish (hp.extend hx) (fun hb w he => hall hb w (Graph.mem_successors.mpr he))
    refine ⟨hfin, ⟨hx.finished.trans (List.prefix_append _ _), hx.backEdges, ?_⟩, ?_⟩
    · intro u hu hm
      rcases List.mem_append.mp hm with hm | hm
      · exact hx.apart u (List.mem_cons_of_mem _ hu) hm
      · rw [List.mem_singleton.mp hm] at hu
        exact (List.nodup_cons.mp hp.nodup).1 hu
    · exact List.mem_append_right _ (List.mem_singleton_self v)

/-- Restarting the search at some vertices finishes them all and keeps it sound. -/
theorem restart_loop (hg : g.Bounded) (vs : List Nat) (hvs : ∀ v ∈ vs, v < g.size)
    (hs : Sound g s) :
    let t := vs.foldl (fun s v => if v ∈ s.finished then s else visit g g.size [] v s) s
    Sound g t ∧ s.finished <+: t.finished ∧ ∀ v ∈ vs, v ∈ t.finished := by
  induction vs generalizing s with
  | nil => exact ⟨hs, List.prefix_refl _, by simp⟩
  | cons v vs ih =>
    have hrest : ∀ x ∈ vs, x < g.size := fun x hx => hvs x (List.mem_cons_of_mem _ hx)
    simp only [List.foldl_cons]
    split
    · rename_i hdone
      obtain ⟨ht, hx, hall⟩ := ih hrest hs
      refine ⟨ht, hx, ?_⟩
      intro x hm
      rcases List.mem_cons.mp hm with rfl | hm
      · exact hx.subset hdone
      · exact hall x hm
    · rename_i hopen
      have hp : Path g [] v s := ⟨by simp, by simpa using hvs v List.mem_cons_self,
        by simpa using hopen, by simp⟩
      have hv := visit_visited hg g.size (by simp) hs hp
      obtain ⟨ht, hx, hall⟩ := ih hrest hv.sound
      refine ⟨ht, hv.extends_.finished.trans hx, ?_⟩
      intro x hm
      rcases List.mem_cons.mp hm with rfl | hm
      · exact hx.subset hv.done
      · exact hall x hm

/-- A whole search is sound and finishes every vertex. -/
theorem search_sound (hg : g.Bounded) :
    Sound g (search g) ∧ ∀ v, v < g.size → v ∈ (search g).finished := by
  have hempty : Sound g ⟨[], []⟩ := ⟨by simp, by simp, by simp, by simp⟩
  obtain ⟨hs, _, hall⟩ := restart_loop hg (List.range g.size)
    (fun v hv => List.mem_range.mp hv) hempty
  exact ⟨hs, fun v hv => hall v (List.mem_range.mpr hv)⟩

/-- Standing before, as a sublist of two, is standing at a smaller position. -/
theorem idxOf_lt_of_before {α : Type} [DecidableEq α] {l : List α} {a b : α} (hn : l.Nodup)
    (h : [a, b].Sublist l) : l.idxOf a < l.idxOf b := by
  obtain ⟨pre, post, rfl, ha, hb⟩ := List.append_sublist_iff.mp
    (show ([a] ++ [b]).Sublist l from h)
  have ha := List.singleton_sublist.mp ha
  have hb := List.singleton_sublist.mp hb
  have hnot : b ∉ pre := fun hm => (List.nodup_append.mp hn).2.2 b hm b hb rfl
  rw [List.idxOf_append_of_mem ha, List.idxOf_append_of_notMem hnot]
  have := List.idxOf_lt_length_of_mem ha
  omega

/-- An order with all targets first exists only without cycles. -/
theorem Graph.TargetFirst.acyclic {g : Graph} {order : List Nat} (h : g.TargetFirst order) :
    g.Acyclic := by
  have hn : order.Nodup := h.vertices.nodup_iff.mpr List.nodup_range
  have hless : ∀ v w, Relation.TransGen g.Edge v w → order.idxOf w < order.idxOf v := by
    intro v w hp
    induction hp with
    | single he => exact idxOf_lt_of_before hn (h.edges _ _ he)
    | tail _ he ih => exact Nat.lt_trans (idxOf_lt_of_before hn (h.edges _ _ he)) ih
  intro v hc
  exact Nat.lt_irrefl _ (hless v v hc)

/-- Where nothing leads back, the order of finishing is target first. -/
theorem search_targetFirst (hg : g.Bounded) (hb : (search g).backEdges = []) :
    g.TargetFirst (search g).finished := by
  obtain ⟨hs, hall⟩ := search_sound hg
  constructor
  · apply (List.perm_ext_iff_of_nodup hs.nodup List.nodup_range).mpr
    intro v
    constructor
    · intro hv
      exact List.mem_range.mpr (hs.bounded v hv)
    · intro hv
      exact hall v (List.mem_range.mp hv)
  · intro v w he
    exact hs.ordered hb v (hall v (hg _ he).1) w he

theorem backEdges_mem (hg : g.Bounded) : ∀ e ∈ (search g).backEdges, e ∈ g.edges := by
  intro e he
  exact ((search_sound hg).1.cyclic e he).1

/-- The search reports a back edge exactly when the graph has a cycle. -/
theorem backEdges_iff (hg : g.Bounded) : (search g).backEdges ≠ [] ↔ ¬ g.Acyclic := by
  constructor
  · intro hb hac
    obtain ⟨e, he⟩ := List.exists_mem_of_ne_nil _ hb
    exact hac e.1 ((search_sound hg).1.cyclic e he).2
  · intro hc hb
    exact hc (search_targetFirst hg hb).acyclic

/-- Without cycles the finishing order puts the target of each edge first. -/
theorem finished_targetFirst {g : Graph} (hg : g.Bounded) (hac : g.Acyclic) :
    g.TargetFirst (search g).finished := by
  apply search_targetFirst hg
  have h := mt (backEdges_iff hg).mp (not_not.mpr hac)
  exact not_not.mp h

end DepthFirst
