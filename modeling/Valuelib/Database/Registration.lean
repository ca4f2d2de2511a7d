import Valuelib.Database.DdlContext

namespace Valuelib.Database

variable {Entity : Type} [DecidableEq Entity]

/-- Every entity is indexed once and every edge names indexed entities. This
also holds inside a registration, where edges are unsorted and repeated. -/
structure Context.WellIndexed (c : Context Entity) : Prop where
  nodup : c.entities.Nodup
  bounded : ∀ e ∈ c.edges, e.1 < c.entities.length ∧ e.2 < c.entities.length

def Context.Links (c : Context Entity) (a b : Entity) : Prop :=
  ∃ i j, (i, j) ∈ c.edges ∧ c.entities[i]? = some a ∧ c.entities[j]? = some b

/-- One context extends another: old indices stay valid, and exactly the given
entities and links are added. -/
structure Grows (c c' : Context Entity) (added : Entity → Prop)
    (linked : Entity → Entity → Prop) : Prop where
  kept : c.entities <+: c'.entities
  indexed : c'.WellIndexed
  entities : ∀ x, x ∈ c'.entities ↔ x ∈ c.entities ∨ added x
  links : ∀ a b, c'.Links a b ↔ c.Links a b ∨ linked a b

omit [DecidableEq Entity] in
theorem empty_wellIndexed : (Context.empty : Context Entity).WellIndexed := by
  constructor
  · exact List.nodup_nil
  · simp [Context.empty]

omit [DecidableEq Entity] in
theorem Context.WellIndexed.index_unique {c : Context Entity} (h : c.WellIndexed) {i j : Nat}
    {e : Entity} (hi : c.entities[i]? = some e) (hj : c.entities[j]? = some e) : i = j := by
  have hlt : i < c.entities.length := (List.getElem?_eq_some_iff.mp hi).1
  exact (List.getElem?_inj hlt h.nodup).mp (hi.trans hj.symm)

omit [DecidableEq Entity] in
theorem kept_index {xs ys : List Entity} (hk : xs <+: ys) {i : Nat} {e : Entity}
    (hi : xs[i]? = some e) : ys[i]? = some e := by
  obtain ⟨zs, rfl⟩ := hk
  have hlt : i < xs.length := (List.getElem?_eq_some_iff.mp hi).1
  rw [List.getElem?_append_left hlt, hi]

omit [DecidableEq Entity] in
/-- A bounded index means the same entity before and after entities are added. -/
theorem kept_index_iff {xs ys : List Entity} (hk : xs <+: ys) {i : Nat} (hi : i < xs.length)
    (e : Entity) : ys[i]? = some e ↔ xs[i]? = some e := by
  obtain ⟨zs, rfl⟩ := hk
  rw [List.getElem?_append_left hi]

namespace Grows

variable {c c' c'' : Context Entity} {p q : Entity → Prop} {r s : Entity → Entity → Prop}

omit [DecidableEq Entity]

theorem refl (hc : c.WellIndexed) : Grows c c (fun _ => False) (fun _ _ => False) := by
  refine ⟨List.prefix_refl _, hc, ?_, ?_⟩
  · simp
  · simp

theorem trans (h : Grows c c' p r) (k : Grows c' c'' q s) :
    Grows c c'' (fun x => p x ∨ q x) (fun a b => r a b ∨ s a b) := by
  refine ⟨h.kept.trans k.kept, k.indexed, ?_, ?_⟩
  · intro x
    rw [k.entities, h.entities, or_assoc]
  · intro a b
    rw [k.links, h.links, or_assoc]

theorem congr (h : Grows c c' p r) (hp : ∀ x, p x ↔ q x) (hr : ∀ a b, r a b ↔ s a b) :
    Grows c c' q s := by
  refine ⟨h.kept, h.indexed, ?_, ?_⟩
  · intro x
    exact (h.entities x).trans (or_congr_right (hp x))
  · intro a b
    exact (h.links a b).trans (or_congr_right (hr a b))

theorem keeps (h : Grows c c' p r) {i : Nat} {e : Entity} (hi : c.entities[i]? = some e) :
    c'.entities[i]? = some e :=
  kept_index h.kept hi

/-- Links only speak of bounded indices, so adding entities leaves them alone. -/
theorem add_entity (hc : c.WellIndexed) {e : Entity} (he : e ∉ c.entities) :
    Grows c { c with entities := c.entities ++ [e] } (· = e) (fun _ _ => False) := by
  have hk : c.entities <+: c.entities ++ [e] := List.prefix_append _ _
  refine ⟨hk, ⟨?_, ?_⟩, by simp, ?_⟩
  · exact List.nodup_append.mpr ⟨hc.nodup, List.nodup_singleton e, by
      intro x hx y hy hxy
      rw [List.mem_singleton.mp hy] at hxy
      exact he (hxy ▸ hx)⟩
  · intro p hp
    have := hc.bounded p hp
    simp only [List.length_append, List.length_singleton]
    omega
  · intro a b
    rw [or_false]
    constructor
    · intro hlink
      obtain ⟨i, j, he, hi, hj⟩ := hlink
      exact ⟨i, j, he, (kept_index_iff hk (hc.bounded _ he).1 a).mp hi,
        (kept_index_iff hk (hc.bounded _ he).2 b).mp hj⟩
    · intro hlink
      obtain ⟨i, j, he, hi, hj⟩ := hlink
      exact ⟨i, j, he, kept_index hk hi, kept_index hk hj⟩

theorem add_edge (hc : c.WellIndexed) {k i : Nat} {a e : Entity} (hk : c.entities[k]? = some a)
    (hi : c.entities[i]? = some e) :
    Grows c { c with edges := c.edges ++ [(k, i)] } (fun _ => False)
      (fun x y => x = a ∧ y = e) := by
  refine ⟨List.prefix_refl _, ⟨hc.nodup, ?_⟩, by simp, ?_⟩
  · intro p hp
    rcases List.mem_append.mp hp with hp | hp
    · exact hc.bounded p hp
    · rw [List.mem_singleton.mp hp]
      exact ⟨(List.getElem?_eq_some_iff.mp hk).1, (List.getElem?_eq_some_iff.mp hi).1⟩
  · intro x y
    constructor
    · intro hlink
      obtain ⟨u, v, hm, hu, hv⟩ := hlink
      rcases List.mem_append.mp hm with hm | hm
      · exact .inl ⟨u, v, hm, hu, hv⟩
      · obtain ⟨rfl, rfl⟩ := Prod.mk.inj (List.mem_singleton.mp hm)
        exact .inr ⟨Option.some.inj (hu.symm.trans hk), Option.some.inj (hv.symm.trans hi)⟩
    · intro hlink
      rcases hlink with ⟨u, v, hm, hu, hv⟩ | ⟨rfl, rfl⟩
      · exact ⟨u, v, List.mem_append_left _ hm, hu, hv⟩
      · exact ⟨k, i, List.mem_append_right _ (List.mem_singleton_self _), hk, hi⟩

/-- Links depend on which edges there are, not on their order or number. -/
theorem same_edges (h : Grows c c' p r) {es : List (Nat × Nat)}
    (hes : ∀ e, e ∈ es ↔ e ∈ c'.edges) : Grows c { c' with edges := es } p r := by
  refine ⟨h.kept, ⟨h.indexed.nodup, fun e he => h.indexed.bounded e ((hes e).mp he)⟩,
    h.entities, ?_⟩
  intro a b
  rw [← h.links]
  simp only [Context.Links, hes]

end Grows

theorem indexEntity_new {c : Context Entity} {e : Entity} (he : e ∉ c.entities) :
    indexEntity c e = (c.entities.length, { c with entities := c.entities ++ [e] }) := by
  simp [indexEntity, List.idxOf_eq_length he]

theorem indexEntity_old {c : Context Entity} {e : Entity} (he : e ∈ c.entities) :
    indexEntity c e = (c.entities.idxOf e, c) := by
  have hne : c.entities.idxOf e ≠ c.entities.length :=
    Nat.ne_of_lt (List.idxOf_lt_length_of_mem he)
  simp [indexEntity, hne]

theorem indexEntity_grows {c : Context Entity} (hc : c.WellIndexed) (e : Entity) :
    Grows c (indexEntity c e).2 (· = e) (fun _ _ => False) ∧
      (indexEntity c e).2.entities[(indexEntity c e).1]? = some e := by
  by_cases he : e ∈ c.entities
  · rw [indexEntity_old he]
    refine ⟨⟨List.prefix_refl _, hc, fun x => ?_, by simp⟩, List.getElem?_idxOf he⟩
    exact ⟨.inl, fun h => h.elim id (fun h => h ▸ he)⟩
  · rw [indexEntity_new he]
    exact ⟨Grows.add_entity hc he, by simp⟩

omit [DecidableEq Entity] in
/-- The links below an entity are its own and those below its dependencies. -/
theorem links_below (m : Schema Entity) (e x y : Entity) :
    (∃ d ∈ m.dependencies e, x = e ∧ y = d ∨ m.Reaches d x ∧ m.DependsOn x y) ↔
      m.Reaches e x ∧ m.DependsOn x y := by
  rw [m.reaches_iff e x]
  constructor
  · intro h
    obtain ⟨d, hd, ⟨rfl, rfl⟩ | ⟨hx, hy⟩⟩ := h
    · exact ⟨.inl rfl, hd⟩
    · exact ⟨.inr ⟨d, hd, hx⟩, hy⟩
  · intro h
    obtain ⟨rfl | ⟨d, hd, hx⟩, hy⟩ := h
    · exact ⟨y, hy, .inl ⟨rfl, rfl⟩⟩
    · exact ⟨d, hd, .inr ⟨hx, hy⟩⟩

omit [DecidableEq Entity] in
/-- The loop over a dependency list, given what one recursive call adds. The
dependent keeps its index throughout. -/
theorem dependencies_loop {f : Context Entity → Entity → Option (Context Entity)} {i : Nat}
    {a : Entity} {p : Entity → Entity → Prop} {r : Entity → Entity → Entity → Prop}
    (hf : ∀ c d c', c.WellIndexed → c.entities[i]? = some a → f c d = some c' →
      Grows c c' (p d) (r d))
    (ds : List Entity) {c c' : Context Entity} (hc : c.WellIndexed)
    (hi : c.entities[i]? = some a) (h : ds.foldlM f c = some c') :
    Grows c c' (fun x => ∃ d ∈ ds, p d x) (fun x y => ∃ d ∈ ds, r d x y) := by
  induction ds generalizing c with
  | nil =>
    rw [List.foldlM_nil] at h
    cases h
    exact (Grows.refl hc).congr (by simp) (by simp)
  | cons d ds ih =>
    rw [List.foldlM_cons] at h
    obtain ⟨c₁, h₁, h₂⟩ := Option.bind_eq_some_iff.mp h
    have hd := hf c d c₁ hc hi h₁
    have hds := ih hd.indexed (hd.keeps hi) h₂
    exact (hd.trans hds).congr (by simp) (by simp)

/-- A call for an entity adds all it reaches and their dependency links, and a
link from the dependent that asked for it. -/
theorem registerEntityFor_grows (m : Schema Entity) (fuel : Nat) {c c' : Context Entity}
    {e a : Entity} {k : Nat} (hc : c.WellIndexed) (hk : c.entities[k]? = some a)
    (h : registerEntityFor m fuel c e k = some c') :
    Grows c c' (m.Reaches e)
      (fun x y => x = a ∧ y = e ∨ m.Reaches e x ∧ m.DependsOn x y) := by
  induction fuel generalizing c c' e a k with
  | zero => cases h
  | succ fuel ih =>
    obtain ⟨hg, hi⟩ := indexEntity_grows hc e
    have hedge := Grows.add_edge hg.indexed (hg.keeps hk) hi
    have hloop := dependencies_loop (fun c d c' hc hi h => ih (e := d) hc hi h)
      (m.dependencies e) hedge.indexed (hedge.keeps hi) h
    apply ((hg.trans hedge).trans hloop).congr
    · intro x
      rw [m.reaches_iff e x, or_false]
    · intro x y
      rw [links_below, false_or]

theorem pairwise_edgeLe (edges : List (Nat × Nat)) :
    (edges.insertionSort edgeLe).Pairwise edgeLe := by
  have : Std.Total edgeLe := ⟨fun p q => by unfold edgeLe; omega⟩
  have : IsTrans (Nat × Nat) edgeLe := ⟨fun p q r => by unfold edgeLe; omega⟩
  exact List.pairwise_insertionSort edgeLe edges

theorem sortUnique_eq_dedup (edges : List (Nat × Nat)) :
    sortUnique edges = (edges.insertionSort edgeLe).dedup := by
  have : Std.Antisymm edgeLe := ⟨fun p q hpq hqp => by
    unfold edgeLe at hpq hqp
    exact Prod.ext (by omega) (by omega)⟩
  exact (pairwise_edgeLe edges).destutter_eq_dedup

@[simp] theorem mem_sortUnique {edges : List (Nat × Nat)} {e : Nat × Nat} :
    e ∈ sortUnique edges ↔ e ∈ edges := by
  rw [sortUnique_eq_dedup, List.mem_dedup, List.mem_insertionSort]

/-- Sorted without repetition: strictly increasing. -/
theorem sortUnique_increasing (edges : List (Nat × Nat)) :
    (sortUnique edges).Pairwise (fun p q => edgeLe p q ∧ p ≠ q) := by
  rw [sortUnique_eq_dedup]
  exact ((pairwise_edgeLe edges).sublist (List.dedup_sublist _)).and (List.nodup_dedup _)

/-- One registration adds what the entity reaches, with its links. -/
theorem registerEntity_grows (m : Schema Entity) (fuel : Nat) {c c' : Context Entity}
    {e : Entity} (hc : c.WellIndexed) (h : registerEntity m fuel c e = some c') :
    Grows c c' (m.Reaches e) (fun x y => m.Reaches e x ∧ m.DependsOn x y) := by
  obtain ⟨hg, hi⟩ := indexEntity_grows hc e
  obtain ⟨c₁, h₁, h₂⟩ := Option.bind_eq_some_iff.mp h
  cases h₂
  have hloop := dependencies_loop
    (fun c d c' hc hi h => registerEntityFor_grows m fuel (e := d) hc hi h)
    (m.dependencies e) hg.indexed hi h₁
  refine ((hg.trans hloop).congr ?_ ?_).same_edges
    (fun _ => mem_sortUnique)
  · intro x
    rw [m.reaches_iff e x]
  · intro x y
    rw [links_below, false_or]

theorem registerAll_cons {m : Schema Entity} {fuel : Nat} {c c' : Context Entity} {r : Entity}
    {roots : List Entity} : registerAll m fuel c (r :: roots) = some c' ↔
      ∃ c₁, registerEntity m fuel c r = some c₁ ∧ registerAll m fuel c₁ roots = some c' := by
  rw [registerAll, List.foldlM_cons]
  exact Option.bind_eq_some_iff

/-- The registrations add what the roots reach, with its links. -/
theorem registerAll_grows (m : Schema Entity) (fuel : Nat) (roots : List Entity)
    {c c' : Context Entity} (hc : c.WellIndexed) (h : registerAll m fuel c roots = some c') :
    Grows c c' (m.ReachedFrom roots) (fun x y => m.ReachedFrom roots x ∧ m.DependsOn x y) := by
  induction roots generalizing c with
  | nil =>
    cases h
    exact (Grows.refl hc).congr (by simp [Schema.ReachedFrom]) (by simp [Schema.ReachedFrom])
  | cons r roots ih =>
    obtain ⟨c₁, h₁, h₂⟩ := registerAll_cons.mp h
    have hr := registerEntity_grows m fuel hc h₁
    have hrest := ih hr.indexed h₂
    have hcons : ∀ x, m.Reaches r x ∨ m.ReachedFrom roots x ↔ m.ReachedFrom (r :: roots) x := by
      simp [Schema.ReachedFrom]
    apply (hr.trans hrest).congr hcons
    intro x y
    rw [← hcons, or_and_right]

/-- What registration achieves from an empty context: the indexed graph is a
copy of the dependency relation below the roots. -/
structure Faithful (m : Schema Entity) (roots : List Entity) (c : Context Entity) : Prop where
  indexed : c.WellIndexed
  entities : ∀ x, x ∈ c.entities ↔ m.ReachedFrom roots x
  links : ∀ x y, c.Links x y ↔ m.ReachedFrom roots x ∧ m.DependsOn x y

/-- From an empty context, registration makes a faithful copy. -/
theorem registerAll_faithful (m : Schema Entity) (fuel : Nat) (roots : List Entity)
    {c : Context Entity} (h : registerAll m fuel .empty roots = some c) : Faithful m roots c := by
  have hg := registerAll_grows m fuel roots empty_wellIndexed h
  refine ⟨hg.indexed, ?_, ?_⟩
  · intro x
    simpa [Context.empty] using hg.entities x
  · intro x y
    simpa [Context.empty, Context.Links] using hg.links x y

end Valuelib.Database
