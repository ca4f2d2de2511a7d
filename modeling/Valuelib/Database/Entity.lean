import Mathlib.Logic.Relation
import Mathlib.Data.List.Basic

namespace Valuelib.Database

/-- The entities of one database engine. Values of `Entity` stand for object
addresses, so their equality is `entity::operator==`; the type name is what
`demangle(typeid(e))` prints. -/
structure Schema (Entity : Type) where
  dependencies : Entity → List Entity
  typeName : Entity → String

namespace Schema

variable {Entity : Type}

def DependsOn (m : Schema Entity) (a b : Entity) : Prop := b ∈ m.dependencies a

def Reaches (m : Schema Entity) : Entity → Entity → Prop := Relation.ReflTransGen m.DependsOn

def Requires (m : Schema Entity) : Entity → Entity → Prop := Relation.TransGen m.DependsOn

def ReachedFrom (m : Schema Entity) (roots : List Entity) (e : Entity) : Prop :=
  ∃ r ∈ roots, m.Reaches r e

def Acyclic (m : Schema Entity) : Prop := ∀ e, ¬ m.Requires e e

/-- Some entity below the roots depends on itself, directly or not. -/
def CycleBelow (m : Schema Entity) (roots : List Entity) : Prop :=
  ∃ e, m.ReachedFrom roots e ∧ m.Requires e e

theorem Acyclic.no_cycle_below {m : Schema Entity} (h : m.Acyclic) (roots : List Entity) :
    ¬ m.CycleBelow roots := by
  rintro ⟨e, _, he⟩
  exact h e he

/-- What is reached from an entity is the entity or reached from a dependency. -/
theorem reaches_iff (m : Schema Entity) (a x : Entity) :
    m.Reaches a x ↔ x = a ∨ ∃ d ∈ m.dependencies a, m.Reaches d x := by
  constructor
  · intro h
    rcases h.cases_head with rfl | ⟨d, hd, hx⟩
    · exact .inl rfl
    · exact .inr ⟨d, hd, hx⟩
  · intro h
    rcases h with rfl | ⟨d, hd, hx⟩
    · exact .refl
    · exact .head hd hx

/-- An entity that reaches a cycle has a dependency that reaches it. -/
theorem dependency_of_cycle (m : Schema Entity) (a e : Entity) (ha : m.Reaches a e)
    (he : m.Requires e e) : ∃ d ∈ m.dependencies a, m.Reaches d e := by
  rcases ha.cases_head with rfl | h
  · obtain ⟨d, hd, hx⟩ := Relation.TransGen.head'_iff.mp he
    exact ⟨d, hd, hx⟩
  · exact h

end Schema

end Valuelib.Database
