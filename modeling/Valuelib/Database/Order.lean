import Valuelib.Database.Termination

namespace Valuelib.Database

variable {Entity : Type}

section graph

variable {m : Schema Entity} {roots : List Entity} {c : Context Entity}

theorem Faithful.bounded (h : Faithful m roots c) : (generateGraph c).Bounded := h.indexed.bounded

theorem Faithful.reached (h : Faithful m roots c) {i : Nat} {x : Entity}
    (hi : c.entities[i]? = some x) : m.ReachedFrom roots x := by
  have hx : x ∈ c.entities := List.mem_of_getElem? hi
  exact (h.entities x).mp hx

/-- An edge of the graph is a dependency between the entities it indexes. -/
theorem Faithful.edge_iff (h : Faithful m roots c) {i j : Nat} {x y : Entity}
    (hi : c.entities[i]? = some x) (hj : c.entities[j]? = some y) :
    (generateGraph c).Edge i j ↔ m.DependsOn x y := by
  constructor
  · intro he
    exact ((h.links x y).mp ⟨i, j, he, hi, hj⟩).2
  · intro hd
    obtain ⟨i', j', he, hi', hj'⟩ := (h.links x y).mpr ⟨h.reached hi, hd⟩
    rw [h.indexed.index_unique hi hi', h.indexed.index_unique hj hj']
    exact he

theorem Faithful.entity_of_edge (h : Faithful m roots c) {i j : Nat}
    (he : (generateGraph c).Edge i j) :
    ∃ x y, c.entities[i]? = some x ∧ c.entities[j]? = some y ∧ m.DependsOn x y := by
  obtain ⟨hi, hj⟩ := h.bounded _ he
  have hx : c.entities[i]? = some c.entities[i] := List.getElem?_eq_getElem hi
  have hy : c.entities[j]? = some c.entities[j] := List.getElem?_eq_getElem hj
  exact ⟨_, _, hx, hy, (h.edge_iff hx hy).mp he⟩

theorem Faithful.index_of_dependency (h : Faithful m roots c) {i : Nat} {x y : Entity}
    (hi : c.entities[i]? = some x) (hd : m.DependsOn x y) :
    ∃ j, c.entities[j]? = some y ∧ (generateGraph c).Edge i j := by
  obtain ⟨_, j, _, _, hj⟩ := (h.links x y).mpr ⟨h.reached hi, hd⟩
  exact ⟨j, hj, (h.edge_iff hi hj).mpr hd⟩

/-- A path in the graph is a chain of dependencies. -/
theorem Faithful.requires_of_path (h : Faithful m roots c) {i j : Nat}
    (hp : Relation.TransGen (generateGraph c).Edge i j) :
    ∃ x y, c.entities[i]? = some x ∧ c.entities[j]? = some y ∧ m.Requires x y := by
  induction hp with
  | single he =>
    obtain ⟨x, y, hx, hy, hd⟩ := h.entity_of_edge he
    exact ⟨x, y, hx, hy, .single hd⟩
  | tail _ he ih =>
    obtain ⟨x, y, hx, hy, hr⟩ := ih
    obtain ⟨y', z, hy', hz, hd⟩ := h.entity_of_edge he
    rw [hy] at hy'
    cases hy'
    exact ⟨x, z, hx, hz, hr.tail hd⟩

theorem Faithful.path_of_requires (h : Faithful m roots c) {i : Nat} {x y : Entity}
    (hi : c.entities[i]? = some x) (hr : m.Requires x y) :
    ∃ j, c.entities[j]? = some y ∧ Relation.TransGen (generateGraph c).Edge i j := by
  induction hr with
  | single hd =>
    obtain ⟨j, hj, he⟩ := h.index_of_dependency hi hd
    exact ⟨j, hj, .single he⟩
  | tail _ hd ih =>
    obtain ⟨j, hj, hp⟩ := ih
    obtain ⟨k, hk, he⟩ := h.index_of_dependency hj hd
    exact ⟨k, hk, hp.tail he⟩

/-- Cycles of the graph are cycles among the registered entities. -/
theorem Faithful.acyclic_iff (h : Faithful m roots c) :
    (generateGraph c).Acyclic ↔ ¬ m.CycleBelow roots := by
  constructor
  · rintro hac ⟨e, he, hr⟩
    obtain ⟨i, hi⟩ := List.mem_iff_getElem?.mp ((h.entities e).mpr he)
    obtain ⟨j, hj, hp⟩ := h.path_of_requires hi hr
    exact hac i ((h.indexed.index_unique hi hj) ▸ hp)
  · intro hno i hp
    obtain ⟨x, y, hx, hy, hr⟩ := h.requires_of_path hp
    rw [hx] at hy
    cases hy
    exact hno ⟨x, h.reached hx, hr⟩

end graph

theorem mapM_ok {α β ε : Type} (f : α → Except ε β) (l : List α) (h : ∀ a ∈ l, ∃ b, f a = .ok b) :
    ∃ bs, l.mapM f = .ok bs := by
  induction l with
  | nil => exact ⟨[], rfl⟩
  | cons a l ih =>
    obtain ⟨b, hb⟩ := h a List.mem_cons_self
    obtain ⟨bs, hbs⟩ := ih (fun x hx => h x (List.mem_cons_of_mem _ hx))
    exact ⟨b :: bs, by rw [List.mapM_cons, hb, hbs]; rfl⟩

theorem entityAt_ok {c : Context Entity} {i : Nat} (hi : i < c.entities.length) :
    entityAt c i = .ok c.entities[i] := by
  simp [entityAt, hi]

/-- Indexing a list of valid positions never leaves the vector. -/
theorem mapM_entityAt (c : Context Entity) (is : List Nat)
    (h : ∀ i ∈ is, i < c.entities.length) :
    is.mapM (entityAt c) = .ok (is.filterMap (c.entities[·]?)) := by
  induction is with
  | nil => rfl
  | cons i is ih =>
    have hi := h i List.mem_cons_self
    rw [List.mapM_cons, entityAt_ok hi, ih (fun j hj => h j (List.mem_cons_of_mem _ hj))]
    rw [List.filterMap_cons_some (List.getElem?_eq_getElem hi)]
    rfl

variable {boost : BoostGraph} {m : Schema Entity} {roots : List Entity}
  {c : Context Entity}

/-- The cycle check reports exactly the cyclic graphs, and always finds the
names of the entities it reports. -/
theorem checkCycles_cases (hb : boost.Contract) (h : Faithful m roots c) :
    (¬ m.CycleBelow roots ∧ checkCycles boost m c (generateGraph c) = .ok ()) ∨
    (m.CycleBelow roots ∧
      ∃ what, checkCycles boost m c (generateGraph c) = .error (.logicError what)) := by
  obtain ⟨hback, hedges⟩ := hb.backEdge _ h.bounded
  rw [h.acyclic_iff, not_not] at hback
  by_cases hc : boost.depthFirstSearch (generateGraph c) = []
  · exact .inl ⟨mt hback.mpr (not_not.mpr hc), by simp [checkCycles, hc]⟩
  · obtain ⟨lines, hl⟩ := mapM_ok (backEdgeLine m c) _ (fun e he => by
      obtain ⟨h₁, h₂⟩ := h.bounded e (hedges e he)
      exact ⟨_, by simp [backEdgeLine, entityAt_ok h₁, entityAt_ok h₂]; rfl⟩)
    exact .inr ⟨hback.mp hc, _, by simp [checkCycles, hc, hl]; rfl⟩

/-- An order for creation: the reached entities, each once, after everything it
depends on. -/
structure CreateOrdered (m : Schema Entity) (roots order : List Entity) : Prop where
  once : order.Nodup
  entities : ∀ e, e ∈ order ↔ m.ReachedFrom roots e
  dependencies : ∀ e ∈ order, ∀ d, m.DependsOn e d → [d, e].Sublist order

structure DropOrdered (m : Schema Entity) (roots order : List Entity) : Prop where
  once : order.Nodup
  entities : ∀ e, e ∈ order ↔ m.ReachedFrom roots e
  dependencies : ∀ e ∈ order, ∀ d, m.DependsOn e d → [e, d].Sublist order

/-- Dropping goes the other way round. -/
theorem CreateOrdered.reverse {order : List Entity} (h : CreateOrdered m roots order) :
    DropOrdered m roots order.reverse := by
  refine ⟨List.nodup_reverse.mpr h.once, ?_, ?_⟩
  · intro e
    rw [List.mem_reverse, h.entities]
  · intro e he d hd
    have hbefore := h.dependencies e (List.mem_reverse.mp he) d hd
    exact hbefore.reverse

/-- An order of the graph with targets first is an order of the entities. -/
theorem Faithful.createOrdered (h : Faithful m roots c) {is : List Nat}
    (ht : (generateGraph c).TargetFirst is) :
    CreateOrdered m roots (is.filterMap (c.entities[·]?)) := by
  have hmem : ∀ {i e}, c.entities[i]? = some e → i ∈ is := fun hi =>
    ht.vertices.mem_iff.mpr (List.mem_range.mpr (List.getElem?_eq_some_iff.mp hi).1)
  refine ⟨?_, ?_, ?_⟩
  · have hn : is.Nodup := ht.vertices.nodup_iff.mpr List.nodup_range
    exact hn.filterMap (fun i j e hi hj => h.indexed.index_unique hi hj)
  · intro e
    rw [← h.entities, List.mem_filterMap]
    constructor
    · intro he
      obtain ⟨i, _, hi⟩ := he
      exact List.mem_of_getElem? hi
    · intro he
      obtain ⟨i, hi⟩ := List.mem_iff_getElem?.mp he
      exact ⟨i, hmem hi, hi⟩
  · intro e he d hd
    obtain ⟨i, _, hi⟩ := List.mem_filterMap.mp he
    obtain ⟨j, hj, hedge⟩ := h.index_of_dependency hi hd
    have hsub := (ht.edges i j hedge).filterMap (c.entities[·]?)
    simpa [hi, hj] using hsub

/-- Without a cycle below the roots the order is made. -/
theorem createOrder_of_acyclic (hb : boost.Contract) (h : Faithful m roots c)
    (hac : ¬ m.CycleBelow roots) :
    ∃ order, createOrder boost m c = .ok order ∧ CreateOrdered m roots order := by
  have hg := h.acyclic_iff.mpr hac
  have ht := hb.topological _ h.bounded hg
  have hmap := mapM_entityAt c (boost.topologicalSort (generateGraph c)) (fun i hi =>
    List.mem_range.mp (ht.vertices.mem_iff.mp hi))
  rcases checkCycles_cases hb h with ⟨_, hw⟩ | ⟨hc, _⟩
  · exact ⟨_, by simp [createOrder, hw, hmap]; rfl, h.createOrdered ht⟩
  · exact absurd hc hac

theorem dropOrder_ok {order : List Entity} (h : createOrder boost m c = .ok order) :
    dropOrder boost m c = .ok order.reverse := by
  rw [dropOrder, h]
  rfl

/-- Over acyclic dependencies every sequence of registrations returns, and the
two orders list exactly the entities below the roots, each once, dependencies
first for creation and last for dropping. -/
theorem orders_correct [DecidableEq Entity] [Finite Entity] (hb : boost.Contract)
    (hac : m.Acyclic) (roots : List Entity) :
    ∃ c created dropped,
      (∃ n, ∀ fuel ≥ n, registerAll m fuel .empty roots = some c) ∧
      createOrder boost m c = .ok created ∧ CreateOrdered m roots created ∧
      dropOrder boost m c = .ok dropped ∧ DropOrdered m roots dropped := by
  have hno := hac.no_cycle_below roots
  obtain ⟨n, c, hc⟩ := (returns_iff m .empty roots).mpr hno
  have hf := registerAll_faithful m n roots hc
  obtain ⟨order, ho, hco⟩ := createOrder_of_acyclic hb hf hno
  exact ⟨c, order, order.reverse, ⟨n, fun fuel hn => registerAll_mono m hn roots hc⟩,
    ho, hco, dropOrder_ok ho, hco.reverse⟩

/-- Three entities, the first depending twice on the second and once on the
third, the second on the third. -/
def shared : Schema (Fin 3) where
  dependencies e := if e = 0 then [1, 2, 1] else if e = 1 then [2] else []
  typeName e := toString e.val

theorem shared_acyclic : shared.Acyclic := by
  have hstep : ∀ a b : Fin 3, b ∈ shared.dependencies a → a < b := by decide
  have hless : ∀ a b, shared.Requires a b → a < b := by
    intro a b h
    induction h with
    | single hd => exact hstep _ _ hd
    | tail _ hd ih => exact ih.trans (hstep _ _ hd)
  intro e he
  exact absurd (hless e e he) (lt_irrefl e)

theorem orders_correct_shared :
    shared.Acyclic ∧ ∃ c created dropped,
      (∃ n, ∀ fuel ≥ n, registerAll shared fuel .empty [1, 0, 1] = some c) ∧
      createOrder depthFirstBoost shared c = .ok created ∧ CreateOrdered shared [1, 0, 1] created ∧
      dropOrder depthFirstBoost shared c = .ok dropped ∧ DropOrdered shared [1, 0, 1] dropped := by
  refine ⟨shared_acyclic, ?_⟩
  exact orders_correct depthFirstBoost_contract shared_acyclic [1, 0, 1]

example : registerAll shared 4 .empty [1, 0, 1] =
    some ⟨[(0, 1), (2, 0), (2, 1)], [1, 2, 0]⟩ := by rfl

example : createOrder depthFirstBoost shared ⟨[(0, 1), (2, 0), (2, 1)], [1, 2, 0]⟩ =
    .ok [2, 1, 0] := by rfl

/-- What registration and the orders owe a caller whose entities may depend on
each other in a circle: every registration returns, and asking for an order
throws `std::logic_error` exactly when there is a cycle. -/
def CyclesReported [DecidableEq Entity] (boost : BoostGraph) (m : Schema Entity)
    (roots : List Entity) : Prop :=
  Returns m .empty roots ∧ ∀ fuel c, registerAll m fuel .empty roots = some c →
    ((∃ what, createOrder boost m c = .error (.logicError what)) ↔ m.CycleBelow roots) ∧
    ((∃ what, dropOrder boost m c = .error (.logicError what)) ↔ m.CycleBelow roots)

/-- The check itself is right, but registration does not return when it would
be needed: the promise is kept exactly when there is no cycle. -/
theorem cyclesReported_iff [DecidableEq Entity] [Finite Entity] (hb : boost.Contract)
    (m : Schema Entity) (roots : List Entity) :
    CyclesReported boost m roots ↔ ¬ m.CycleBelow roots := by
  constructor
  · intro h
    exact (returns_iff m .empty roots).mp h.1
  · intro hno
    refine ⟨(returns_iff m .empty roots).mpr hno, ?_⟩
    intro fuel c hc
    obtain ⟨order, ho, _⟩ := createOrder_of_acyclic hb (registerAll_faithful m fuel roots hc) hno
    simp [ho, dropOrder_ok ho, hno]

theorem cyclesReported_iff_shared :
    CyclesReported depthFirstBoost shared [0] ↔ ¬ shared.CycleBelow [0] :=
  cyclesReported_iff depthFirstBoost_contract shared [0]

def selfDependent : Schema Unit where
  dependencies _ := [()]
  typeName _ := "self_dependent"

theorem selfDependent_unreported : ¬ CyclesReported depthFirstBoost selfDependent [()] := by
  have hcycle : selfDependent.CycleBelow [()] :=
    ⟨(), ⟨(), List.mem_singleton_self _, .refl⟩, .single (List.mem_singleton_self _)⟩
  intro h
  exact no_return_of_cycle selfDependent hcycle .empty h.1

end Valuelib.Database
