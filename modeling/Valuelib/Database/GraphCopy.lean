import Mathlib.Data.Set.Function
import Valuelib.Database.Order

namespace Valuelib.Database

variable {Entity : Type}

def edgeLt (p q : Nat × Nat) : Prop := p.1 < q.1 ∨ p.1 = q.1 ∧ p.2 < q.2

/-- The indexed graph is a copy of the dependency relation below the roots. -/
structure GraphCopy (m : Schema Entity) (roots : List Entity) (c : Context Entity) : Prop where
  once : c.entities.Nodup
  entities : ∀ x, x ∈ c.entities ↔ m.ReachedFrom roots x
  increasing : c.edges.Pairwise edgeLt
  bounded : ∀ p ∈ c.edges, p.1 < c.entities.length ∧ p.2 < c.entities.length
  edges : ∀ i j, (i, j) ∈ c.edges ↔
    ∃ x y, c.entities[i]? = some x ∧ c.entities[j]? = some y ∧ y ∈ m.dependencies x

structure Renumbers (f : Nat → Nat) (c c' : Context Entity) : Prop where
  bijective : Set.BijOn f (Set.Iio c.entities.length) (Set.Iio c'.entities.length)
  entities : ∀ i < c.entities.length, c'.entities[f i]? = c.entities[i]?
  edges : (c.edges.map (Prod.map f f)).Perm c'.edges

theorem increasing_nodup {es : List (Nat × Nat)} (h : es.Pairwise edgeLt) : es.Nodup := by
  apply h.imp
  intro p q hlt heq
  rw [heq] at hlt
  unfold edgeLt at hlt
  omega

/-- Increasing edges are known by which edges there are. -/
theorem increasing_ext {es es' : List (Nat × Nat)} (h : es.Pairwise edgeLt)
    (h' : es'.Pairwise edgeLt) (hmem : ∀ p, p ∈ es ↔ p ∈ es') : es = es' := by
  have hperm : es.Perm es' :=
    (List.perm_ext_iff_of_nodup (increasing_nodup h) (increasing_nodup h')).mpr hmem
  apply hperm.eq_of_pairwise _ h h'
  intro p q _ _ hpq hqp
  unfold edgeLt at hpq hqp
  omega

/-- A vector that begins with another and has no more entities is the same. -/
theorem kept_eq {xs ys : List Entity} (hk : xs <+: ys) (hys : ys.Nodup)
    (hmem : ∀ y ∈ ys, y ∈ xs) : ys = xs := by
  obtain ⟨zs, rfl⟩ := hk
  cases zs with
  | nil => exact List.append_nil xs
  | cons z zs =>
    have hz : z ∈ xs := hmem z (by simp)
    exact absurd rfl ((List.nodup_append.mp hys).2.2 z hz z List.mem_cons_self)

section Faithful

variable {m : Schema Entity} {roots roots' : List Entity} {c c' : Context Entity}

/-- An edge joins the numbers of two entities when the first depends on the second. -/
theorem Faithful.mem_edges_iff (h : Faithful m roots c) (i j : Nat) :
    (i, j) ∈ c.edges ↔
      ∃ x y, c.entities[i]? = some x ∧ c.entities[j]? = some y ∧ m.DependsOn x y := by
  constructor
  · intro he
    exact h.entity_of_edge he
  · intro hd
    obtain ⟨x, y, hi, hj, hd⟩ := hd
    exact (h.edge_iff hi hj).mpr hd

theorem Faithful.graphCopy (h : Faithful m roots c) (hinc : c.edges.Pairwise edgeLt) :
    GraphCopy m roots c := by
  refine ⟨h.indexed.nodup, h.entities, hinc, h.indexed.bounded, ?_⟩
  exact h.mem_edges_iff

/-- Only the set of the roots matters. -/
theorem Faithful.congr (h : Faithful m roots c) (hroots : ∀ r, r ∈ roots ↔ r ∈ roots') :
    Faithful m roots' c := by
  have hreached : ∀ x, m.ReachedFrom roots x ↔ m.ReachedFrom roots' x := by
    intro x
    simp only [Schema.ReachedFrom, hroots]
  refine ⟨h.indexed, ?_, ?_⟩
  · intro x
    rw [h.entities, hreached]
  · intro x y
    rw [h.links, hreached]

/-- An indexed entity brings nothing that is not there already. -/
theorem Faithful.again (h : Faithful m roots c) {e : Entity} (he : e ∈ c.entities)
    (hg : Grows c c' (m.Reaches e) (fun x y => m.Reaches e x ∧ m.DependsOn x y)) :
    Faithful m roots c' := by
  obtain ⟨r, hr, hre⟩ := (h.entities e).mp he
  have hbelow : ∀ x, m.Reaches e x → m.ReachedFrom roots x := fun x hx => ⟨r, hr, hre.trans hx⟩
  refine ⟨hg.indexed, ?_, ?_⟩
  · intro x
    rw [hg.entities, h.entities]
    exact or_iff_left_of_imp (hbelow x)
  · intro x y
    rw [hg.links, h.links]
    exact or_iff_left_of_imp (fun hxy => ⟨hbelow x hxy.1, hxy.2⟩)

def renumber [DecidableEq Entity] (c c' : Context Entity) (i : Nat) : Nat :=
  match c.entities[i]? with
  | some x => c'.entities.idxOf x
  | none => i

theorem renumber_index [DecidableEq Entity] (hsame : ∀ x, x ∈ c.entities ↔ x ∈ c'.entities)
    {i : Nat} {x : Entity} (hi : c.entities[i]? = some x) :
    c'.entities[renumber c c' i]? = some x := by
  rw [renumber, hi]
  exact List.getElem?_idxOf ((hsame x).mp (List.mem_of_getElem? hi))

theorem Faithful.same_entities (h : Faithful m roots c) (h' : Faithful m roots c') (x : Entity) :
    x ∈ c.entities ↔ x ∈ c'.entities := by
  rw [h.entities, h'.entities]

theorem Faithful.renumber_bijective [DecidableEq Entity] (h : Faithful m roots c)
    (h' : Faithful m roots c') :
    Set.BijOn (renumber c c') (Set.Iio c.entities.length) (Set.Iio c'.entities.length) := by
  have hsame := h.same_entities h'
  refine ⟨?_, ?_, ?_⟩
  · intro i hi
    have hindex := renumber_index hsame (List.getElem?_eq_getElem hi)
    exact (List.getElem?_eq_some_iff.mp hindex).1
  · intro i hi j hj hij
    have hx := renumber_index hsame (List.getElem?_eq_getElem hi)
    have hy := renumber_index hsame (List.getElem?_eq_getElem hj)
    rw [hij, hy] at hx
    exact h.indexed.index_unique ((List.getElem?_eq_getElem hi).trans hx.symm)
      (List.getElem?_eq_getElem hj)
  · intro k hk
    have hk' : c'.entities[k]? = some c'.entities[k] := List.getElem?_eq_getElem hk
    obtain ⟨i, hi⟩ := List.mem_iff_getElem?.mp ((hsame _).mpr (List.mem_of_getElem? hk'))
    exact ⟨i, (List.getElem?_eq_some_iff.mp hi).1,
      h'.indexed.index_unique (renumber_index hsame hi) hk'⟩

/-- The renumbered edges of one context are the edges of the other. -/
theorem Faithful.renumber_edges [DecidableEq Entity] (h : Faithful m roots c)
    (h' : Faithful m roots c') (p : Nat × Nat) :
    p ∈ c.edges.map (Prod.map (renumber c c') (renumber c c')) ↔ p ∈ c'.edges := by
  have hsame := h.same_entities h'
  rw [List.mem_map]
  constructor
  · intro hp
    obtain ⟨⟨i, j⟩, he, rfl⟩ := hp
    obtain ⟨x, y, hi, hj, hd⟩ := (h.mem_edges_iff i j).mp he
    exact (h'.mem_edges_iff _ _).mpr ⟨x, y, renumber_index hsame hi, renumber_index hsame hj, hd⟩
  · intro hp
    obtain ⟨x, y, hk, hl, hd⟩ := (h'.mem_edges_iff p.1 p.2).mp hp
    obtain ⟨i, hi⟩ := List.mem_iff_getElem?.mp ((hsame x).mpr (List.mem_of_getElem? hk))
    obtain ⟨j, hj⟩ := List.mem_iff_getElem?.mp ((hsame y).mpr (List.mem_of_getElem? hl))
    refine ⟨(i, j), (h.mem_edges_iff i j).mpr ⟨x, y, hi, hj, hd⟩, ?_⟩
    exact Prod.ext (h'.indexed.index_unique (renumber_index hsame hi) hk)
      (h'.indexed.index_unique (renumber_index hsame hj) hl)

/-- Copies of one relation differ in their numbering only. -/
theorem Faithful.renumbers [DecidableEq Entity] (h : Faithful m roots c)
    (h' : Faithful m roots c') (hinc : c.edges.Pairwise edgeLt)
    (hinc' : c'.edges.Pairwise edgeLt) : Renumbers (renumber c c') c c' := by
  have hbijective := h.renumber_bijective h'
  refine ⟨hbijective, ?_, ?_⟩
  · intro i hi
    rw [List.getElem?_eq_getElem hi]
    exact renumber_index (h.same_entities h') (List.getElem?_eq_getElem hi)
  · have hnodup : (c.edges.map (Prod.map (renumber c c') (renumber c c'))).Nodup := by
      apply List.Nodup.map_on _ (increasing_nodup hinc)
      intro p hp q hq hpq
      obtain ⟨hfirst, hsecond⟩ := Prod.mk.inj hpq
      obtain ⟨hp₁, hp₂⟩ := h.indexed.bounded p hp
      obtain ⟨hq₁, hq₂⟩ := h.indexed.bounded q hq
      exact Prod.ext (hbijective.injOn hp₁ hq₁ hfirst) (hbijective.injOn hp₂ hq₂ hsecond)
    exact (List.perm_ext_iff_of_nodup hnodup (increasing_nodup hinc')).mpr (h.renumber_edges h')

end Faithful

variable [DecidableEq Entity] {m : Schema Entity} {roots : List Entity} {c c' : Context Entity}

/-- Registering the roots one after the other returns and leads to the context. -/
def Leads (m : Schema Entity) (roots : List Entity) (c : Context Entity) : Prop :=
  ∃ n, ∀ fuel ≥ n, registerAll m fuel .empty roots = some c

theorem Leads.of_registerAll {fuel : Nat} (h : registerAll m fuel .empty roots = some c) :
    Leads m roots c := by
  refine ⟨fuel, ?_⟩
  intro k hk
  exact registerAll_mono m hk roots h

theorem Leads.registered (h : Leads m roots c) :
    ∃ fuel, registerAll m fuel .empty roots = some c := by
  obtain ⟨n, hn⟩ := h
  exact ⟨n, hn n (Nat.le_refl n)⟩

theorem exists_leads [Finite Entity] (hac : m.Acyclic) (roots : List Entity) :
    ∃ c, Leads m roots c := by
  obtain ⟨n, c, hc⟩ := (returns_iff m .empty roots).mpr (hac.no_cycle_below roots)
  exact ⟨c, .of_registerAll hc⟩

theorem Leads.faithful (h : Leads m roots c) : Faithful m roots c := by
  obtain ⟨fuel, hc⟩ := h.registered
  exact registerAll_faithful m fuel roots hc

theorem registerEntity_increasing {fuel : Nat} {e : Entity}
    (h : registerEntity m fuel c e = some c') : c'.edges.Pairwise edgeLt := by
  obtain ⟨c₁, _, h₂⟩ := Option.bind_eq_some_iff.mp h
  cases h₂
  apply (sortUnique_increasing c₁.edges).imp
  intro p q hpq
  have hne : ¬ (p.1 = q.1 ∧ p.2 = q.2) := fun heq => hpq.2 (Prod.ext heq.1 heq.2)
  have hle := hpq.1
  unfold edgeLe at hle
  unfold edgeLt
  omega

/-- Every completed registration leaves the edges sorted. -/
theorem registerAll_increasing {fuel : Nat} (hc : c.edges.Pairwise edgeLt)
    (h : registerAll m fuel c roots = some c') : c'.edges.Pairwise edgeLt := by
  induction roots generalizing c with
  | nil =>
    cases h
    exact hc
  | cons r roots ih =>
    obtain ⟨c₁, h₁, h₂⟩ := registerAll_cons.mp h
    exact ih (registerEntity_increasing h₁) h₂

theorem Leads.increasing (h : Leads m roots c) : c.edges.Pairwise edgeLt := by
  obtain ⟨fuel, hc⟩ := h.registered
  exact registerAll_increasing List.Pairwise.nil hc

/-- Over acyclic dependencies every sequence of registrations returns, and what
it leads to is a copy of the dependency relation. -/
theorem graph_copied [Finite Entity] (hac : m.Acyclic) (roots : List Entity) :
    (∃ c, Leads m roots c) ∧ ∀ c, Leads m roots c → GraphCopy m roots c := by
  refine ⟨exists_leads hac roots, ?_⟩
  intro c h
  exact h.faithful.graphCopy h.increasing

theorem shared_leads : Leads shared [1, 0, 1] ⟨[(0, 1), (2, 0), (2, 1)], [1, 2, 0]⟩ := by
  apply Leads.of_registerAll
  show registerAll shared 4 .empty [1, 0, 1] = _
  decide

theorem graph_copied_shared :
    shared.Acyclic ∧ (∃ c, Leads shared [1, 0, 1] c) ∧
      GraphCopy shared [1, 0, 1] ⟨[(0, 1), (2, 0), (2, 1)], [1, 2, 0]⟩ := by
  obtain ⟨hexists, hcopy⟩ := graph_copied shared_acyclic [1, 0, 1]
  exact ⟨shared_acyclic, hexists, hcopy _ shared_leads⟩

/-- The edges appended below an indexed entity are sorted away again. -/
theorem Leads.again [Finite Entity] (hac : m.Acyclic) (h : Leads m roots c) {e : Entity}
    (he : e ∈ c.entities) : ∃ n, ∀ fuel ≥ n, registerEntity m fuel c e = some c := by
  obtain ⟨n, hn⟩ := registerEntity_returns m e (fun x _ hx => hac x hx)
  refine ⟨n, ?_⟩
  intro fuel hfuel
  obtain ⟨c', hc'⟩ := hn fuel hfuel c
  have hgrows := registerEntity_grows m fuel h.faithful.indexed hc'
  have hfaithful := h.faithful.again he hgrows
  have hentities : c'.entities = c.entities := by
    apply kept_eq hgrows.kept hgrows.indexed.nodup
    intro y hy
    exact (h.faithful.same_entities hfaithful y).mpr hy
  have hedges : c'.edges = c.edges := by
    apply increasing_ext (registerEntity_increasing hc') h.increasing
    intro p
    rw [hfaithful.mem_edges_iff p.1 p.2, h.faithful.mem_edges_iff p.1 p.2, hentities]
  rw [hc']
  obtain ⟨edges, entities⟩ := c
  obtain ⟨edges', entities'⟩ := c'
  cases hentities
  cases hedges
  rfl

/-- Registering an indexed entity again changes nothing at all. Neither the order
of the roots nor their number matters but for the numbering of the entities. -/
theorem registration_insensitive [Finite Entity] (hac : m.Acyclic) :
    (∀ roots, ∃ c, Leads m roots c) ∧
      (∀ roots c, Leads m roots c → ∀ e ∈ c.entities,
        ∃ n, ∀ fuel ≥ n, registerEntity m fuel c e = some c) ∧
      ∀ roots roots' c c', (∀ r, r ∈ roots ↔ r ∈ roots') → Leads m roots c → Leads m roots' c' →
        (∀ x, x ∈ c.entities ↔ x ∈ c'.entities) ∧ ∃ f, Renumbers f c c' := by
  refine ⟨exists_leads hac, fun roots c h e he => h.again hac he, ?_⟩
  intro roots roots' c c' hroots h h'
  have hfaithful := h.faithful.congr hroots
  exact ⟨hfaithful.same_entities h'.faithful, renumber c c',
    hfaithful.renumbers h'.faithful h.increasing h'.increasing⟩

theorem registration_insensitive_shared :
    shared.Acyclic ∧
      (∃ n, ∀ fuel ≥ n, registerEntity shared fuel ⟨[(0, 1), (2, 0), (2, 1)], [1, 2, 0]⟩ 2 =
        some ⟨[(0, 1), (2, 0), (2, 1)], [1, 2, 0]⟩) ∧
      ∃ f, Renumbers f (⟨[(0, 1), (2, 0), (2, 1)], [1, 2, 0]⟩ : Context (Fin 3))
        ⟨[(0, 1), (0, 2), (1, 2)], [0, 1, 2]⟩ := by
  obtain ⟨_, hagain, horder⟩ := registration_insensitive shared_acyclic
  have hleads' : Leads shared [0, 1, 1] ⟨[(0, 1), (0, 2), (1, 2)], [0, 1, 2]⟩ :=
    .of_registerAll (show registerAll shared 4 .empty [0, 1, 1] = _ by decide)
  have hroots : ∀ r : Fin 3, r ∈ [1, 0, 1] ↔ r ∈ [0, 1, 1] := by decide
  exact ⟨shared_acyclic, hagain _ _ shared_leads 2 (by decide),
    (horder _ _ _ _ hroots shared_leads hleads').2⟩

end Valuelib.Database
