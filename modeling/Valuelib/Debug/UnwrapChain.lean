import Valuelib.Debug.Unwrap

namespace Valuelib.Debug
open Text

variable {Stream ε : Type}

def Link.reported : Link → StdException
  | standard e => e
  | other _ => nonstandardException

def Link.IsStandard : Link → Prop
  | standard _ => True
  | other _ => False

/-- The links down to the first that is no `std::exception`. -/
def visible : List Link → List Link
  | [] => []
  | .standard e :: links => .standard e :: visible links
  | .other type :: _ => [.other type]

/-- The calls of a formatter for some links, the first of them at a depth. -/
def reports (depth : Nat) (links : List Link) : List (StdException × Nat) :=
  (links.map Link.reported).zipIdx depth

def formatAll (format : Formatter Stream ε) (os : Stream) (calls : List (StdException × Nat)) :
    Except ε Stream :=
  calls.foldlM (fun os call => format os call.1 call.2) os

/-- The links below one that is no `std::exception` are never looked at. -/
theorem writeException_eq (format : Formatter Stream ε) (os : Stream) (e : StdException)
    (depth : Nat) (nested : List Link) :
    writeException format os e depth nested =
      formatAll format os (reports depth (visible (.standard e :: nested))) := by
  induction nested generalizing os e depth with
  | nil => simp [writeException, formatAll, reports, visible, Link.reported]
  | cons link nested ih =>
    cases link with
    | standard e' =>
      simp only [writeException, ih]
      simp [formatAll, reports, visible, Link.reported]
    | other type =>
      simp [writeException, formatAll, reports, visible, Link.reported]

/-- Unwrapping formats the reports of the visible links. -/
theorem unwrap_eq (format : Formatter Stream ε) (os : Stream) (t : Thrown) :
    unwrap format os (some t) = formatAll format os (reports 0 (visible t.links)) := by
  obtain ⟨object, nested⟩ := t
  cases object with
  | standard e => exact writeException_eq format os e 0 nested
  | other type => simp [unwrap, write, formatAll, reports, visible, Link.reported, Thrown.links]

/-- A formatter that appends an entry for each call. -/
theorem formatAll_entries {α : Type} (entry : StdException → Nat → List α) (os : List α)
    (calls : List (StdException × Nat)) :
    formatAll (ε := ε) (fun os e depth => .ok (os ++ entry e depth)) os calls =
      .ok (os ++ calls.flatMap (fun call => entry call.1 call.2)) := by
  induction calls generalizing os with
  | nil => simp [formatAll, pure, Except.pure]
  | cons call calls ih =>
    rw [formatAll, List.foldlM_cons]
    exact (ih (os ++ entry call.1 call.2)).trans (by simp)

def recorder : Formatter (List (StdException × Nat)) ε := fun os e depth =>
  .ok (os ++ [(e, depth)])

theorem unwrap_recorder (t : Thrown) :
    unwrap (ε := ε) recorder [] (some t) = .ok (reports 0 (visible t.links)) := by
  rw [unwrap_eq]
  exact (formatAll_entries (fun e depth => [(e, depth)]) [] _).trans (by simp)

/-- Unwrapping is meant to call any formatter once for every link, in order and
with its depth; a formatter that throws ends this early. -/
structure ReportsChain (t : Thrown) : Prop where
  calls : ∀ (Stream ε : Type) (format : Formatter Stream ε) (os : Stream),
    unwrap format os (some t) = formatAll format os (reports 0 t.links)
  entries : ∃ calls, unwrap (ε := Empty) recorder [] (some t) = .ok calls ∧
    calls.length = t.links.length

/-- All links are visible when every link but the last is a `std::exception`. -/
theorem visible_eq_self {links : List Link} :
    visible links = links ↔ ∀ link ∈ links.dropLast, link.IsStandard := by
  induction links with
  | nil => simp [visible]
  | cons link links ih =>
    cases link with
    | standard e =>
      cases links with
      | nil => simp [visible]
      | cons link' links => simpa [visible, Link.IsStandard] using ih
    | other type =>
      cases links with
      | nil => simp [visible]
      | cons link' links => simp [visible, Link.IsStandard]

theorem visible_isInitial (links : List Link) : visible links <+: links := by
  induction links with
  | nil => exact List.prefix_refl []
  | cons link links ih =>
    cases link with
    | standard e => exact (List.prefix_cons_inj _).mpr ih
    | other type => exact ⟨links, rfl⟩

theorem reports_length (depth : Nat) (links : List Link) :
    (reports depth links).length = links.length := by
  simp [reports]

/-- The whole chain is reported exactly when every link but the last is a
`std::exception`. -/
theorem reportsChain_iff (t : Thrown) :
    ReportsChain t ↔ ∀ link ∈ t.links.dropLast, link.IsStandard := by
  rw [← visible_eq_self]
  constructor
  · intro h
    obtain ⟨calls, hcalls, hlength⟩ := h.entries
    rw [unwrap_recorder] at hcalls
    rw [← Except.ok.inj hcalls, reports_length] at hlength
    exact (visible_isInitial t.links).eq_of_length hlength
  · intro h
    refine ⟨?_, _, unwrap_recorder t, ?_⟩
    · intro Stream ε format os
      rw [unwrap_eq, h]
    · rw [reports_length, h]

/-- An object that is no `std::exception`, thrown over a runtime error. -/
theorem nonstandard_link_ends_report :
    let t : Thrown := ⟨.other (chars "std::__nested<foo>"),
      [.standard ⟨chars "std::runtime_error", chars "lost"⟩]⟩
    unwrap (ε := Empty) recorder [] (some t) = .ok [(nonstandardException, 0)] ∧
      ¬ ReportsChain t := by
  refine ⟨rfl, ?_⟩
  rw [reportsChain_iff]
  intro h
  exact h _ List.mem_cons_self

end Valuelib.Debug
