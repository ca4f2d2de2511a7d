import Valuelib.Debug.CsvChain

namespace Valuelib.Debug
open Text CChar PrefixFree

variable {ε : Type} {e : StdException} {nested : List Link}

/-- What unwrapping by reference is meant for: the text that unwrapping the
`exception_ptr` gives. -/
def EntryPointsAgree (format : Formatter (List CChar) ε) (e : StdException)
    (nested : List Link) : Prop :=
  unwrapReference format [] e = unwrap format [] (some ⟨.standard e, nested⟩)

/-- The exception looks like a plain `std::exception`, and nothing is nested in it. -/
structure Bare (e : StdException) (nested : List Link) : Prop where
  name : tidyExceptionName e = chars "std::exception"
  what : e.what = chars "std::exception"
  nested : nested = []

theorem tidyExceptionName_sliced (e : StdException) :
    tidyExceptionName (sliced e) = chars "std::exception" := by
  show tidyExceptionName (sliced ⟨[], []⟩) = chars "std::exception"
  decide +kernel

theorem what_sliced (e : StdException) : (sliced e).what = chars "std::exception" := rfl

def below (entry : StdException → Nat → List CChar) (nested : List Link) : List CChar :=
  (reports 1 (visible nested)).flatMap (fun call => entry call.1 call.2)

/-- The two texts agree when one entry is the other one with the nested ones. -/
theorem entryPointsAgree_iff (entry : StdException → Nat → List CChar) :
    EntryPointsAgree (ε := ε) (fun os e depth => .ok (os ++ entry e depth)) e nested ↔
      entry (sliced e) 0 = entry e 0 ++ below entry nested := by
  rw [EntryPointsAgree, unwrapReference, unwrap_eq, unwrap_eq, formatAll_entries,
    formatAll_entries, Except.ok.injEq]
  simp [makeExceptionPtr, Thrown.links, visible, reports, Link.reported, below]

theorem below_eq_nil {entry : StdException → Nat → List CChar} (h : ∀ e, entry e 1 ≠ []) :
    below entry nested = [] ↔ nested = [] := by
  cases nested with
  | nil => simp [below, visible, reports]
  | cons link links =>
    cases link <;> simp [below, visible, reports, h]

/-- As records, both entry points report bare exceptions alike, and no others. -/
theorem csv_agree_iff : EntryPointsAgree (ε := ε) csvFormatter e nested ↔ Bare e nested := by
  have hentry : ∀ e, csvEntry e 1 ≠ [] := by
    intro e
    simp [csvEntry, quoted]
  refine (entryPointsAgree_iff csvEntry).trans ?_
  constructor
  · intro h
    have hrecords : csvRecord (csvFields (sliced e)) ++ [] =
        csvRecord (csvFields e) ++ below csvEntry nested := by
      simpa [csvEntry, csvRecord, csvFields] using h
    obtain ⟨hfields, hbelow⟩ := csvRecord_splits _ _ _ _ trivial trivial hrecords
    obtain ⟨hname, hwhat⟩ := Prod.mk.inj hfields
    exact ⟨hname.symm.trans (tidyExceptionName_sliced e), hwhat.symm,
      (below_eq_nil hentry).mp hbelow.symm⟩
  · intro h
    rw [(below_eq_nil hentry).mpr h.nested]
    simp [csvEntry, tidyExceptionName_sliced, what_sliced, h.name, h.what]

/-- Only one text begins with a name before `" : "` in this way: a name with a
space in it would bring in a third space. -/
theorem colon_unique {name what rest : List CChar}
    (h : chars "std::exception" ++ chars " : " ++ chars "std::exception" =
      name ++ chars " : " ++ what ++ rest) :
    name = chars "std::exception" ∧ what ++ rest = chars "std::exception" := by
  have hcount := congrArg (List.count 32) h
  simp only [List.count_append] at hcount
  have hseparator : (chars " : ").count 32 = 2 := by rfl
  have hplain : (chars "std::exception").count 32 = 0 := by rfl
  have hname : (32 : CChar) ∉ name := by
    rw [← List.count_eq_zero]
    omega
  have hsplit : chars " : " = [32] ++ [58, 32] := by rfl
  rw [hsplit] at h
  obtain ⟨hname, htail⟩ := Splits.terminated (32 : CChar) (chars "std::exception") name
    ([58, 32] ++ chars "std::exception") ([58, 32] ++ (what ++ rest)) (by decide) hname
    (by simpa using h)
  exact ⟨hname.symm, (List.append_cancel_left htail).symm⟩

/-- As indented lines, both entry points report bare exceptions alike, and no others. -/
theorem indenting_agree_iff :
    EntryPointsAgree (ε := ε) indentingFormatter e nested ↔ Bare e nested := by
  have hentry : ∀ e, indentingEntry e 1 ≠ [] := by
    intro e
    simp [indentingEntry]
  refine (entryPointsAgree_iff indentingEntry).trans ?_
  constructor
  · intro h
    simp only [indentingEntry, tidyExceptionName_sliced, ne_eq, not_true_eq_false, if_false,
      List.nil_append, List.replicate_zero] at h
    obtain ⟨hname, hwhat⟩ := colon_unique (by simpa [what_sliced] using h)
    have hnewline : newline ∉ below indentingEntry nested := by
      intro hm
      have hplain : newline ∈ chars "std::exception" := hwhat ▸ List.mem_append_right e.what hm
      exact absurd hplain (by decide)
    have hnested : nested = [] := by
      cases nested with
      | nil => rfl
      | cons link links =>
        exfalso
        apply hnewline
        cases link <;> simp [below, visible, reports, indentingEntry]
    rw [(below_eq_nil hentry).mpr hnested, List.append_nil] at hwhat
    exact ⟨hname, hwhat, hnested⟩
  · intro h
    rw [(below_eq_nil hentry).mpr h.nested]
    simp [indentingEntry, tidyExceptionName_sliced, what_sliced, h.name, h.what]

/-- Both formatters give the same text for the reference as for the pointer
exactly when there is nothing to lose in a copy as `std::exception`. -/
theorem entryPoints_agree_iff (e : StdException) (nested : List Link) :
    (EntryPointsAgree (ε := ε) indentingFormatter e nested ↔ Bare e nested) ∧
      (EntryPointsAgree (ε := ε) csvFormatter e nested ↔ Bare e nested) := by
  constructor
  · exact indenting_agree_iff
  · exact csv_agree_iff

/-- A runtime error with a message. -/
theorem reference_loses_message :
    let e : StdException := ⟨chars "std::runtime_error", chars "disk full"⟩
    unwrapReference (ε := Empty) csvFormatter [] e =
        .ok (chars "\"std::exception\" : \"std::exception\"") ∧
      unwrap (ε := Empty) csvFormatter [] (some ⟨.standard e, []⟩) =
        .ok (chars "\"std::runtime_error\" : \"disk full\"") ∧
      ¬ EntryPointsAgree (ε := Empty) csvFormatter e [] ∧
      ¬ EntryPointsAgree (ε := Empty) indentingFormatter e [] := by
  refine ⟨rfl, rfl, ?_, ?_⟩
  · rw [csv_agree_iff]
    intro h
    exact absurd h.what (by decide)
  · rw [indenting_agree_iff]
    intro h
    exact absurd h.what (by decide)

end Valuelib.Debug
