import Valuelib.Exceptions.RegisterSettled
import Valuelib.Exceptions.Report

namespace Valuelib.Exceptions.Raising
open Runs

section Layers

variable {codes : Codes} {r : Register} {x : Thrown} {layers : List Layer} {a : Announcement}

/-- The property holds of all that is announced between the layers. -/
def AllAnnounced (p : Announcement → Prop) (layers : List Layer) : Prop :=
  ∀ layer ∈ layers, ∀ a ∈ layer.announcements, p a

theorem AllAnnounced.cons {p : Announcement → Prop} (h : AllAnnounced p layers)
    (message : String) : AllAnnounced p (⟨[], message⟩ :: layers) := by
  intro l hl b hb
  rcases List.mem_cons.mp hl with hl | hl
  · subst hl
    cases hb
  · exact h l hl b hb

end Layers

variable {codes : Codes} {w w' : World} {i : Nat} {x : Thrown} {ms : List String}

end Valuelib.Exceptions.Raising
