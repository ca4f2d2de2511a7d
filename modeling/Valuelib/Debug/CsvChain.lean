import Valuelib.Debug.UnwrapChain

namespace Valuelib.Debug
open Text PrefixFree

variable {ε : Type}

def chain (e : StdException) (nested : List StdException) : Thrown :=
  ⟨.standard e, nested.map .standard⟩

def csvFields (e : StdException) : List CChar × List CChar := (tidyExceptionName e, e.what)

def csvRecord (fields : List CChar × List CChar) : List CChar :=
  quoted fields.1 ++ chars " : " ++ quoted fields.2

/-- A record ends where its second closing quote stands. -/
theorem csvRecord_splits : Splits (fun _ => True) csvRecord := by
  intro a b s t _ _ h
  exact quoted_splits.pair quoted_splits (chars " : ") a b s t ⟨trivial, trivial⟩
    ⟨trivial, trivial⟩ h

theorem visible_standard (es : List StdException) :
    visible (es.map .standard) = es.map .standard := by
  induction es with
  | nil => rfl
  | cons e es ih => rw [List.map_cons, visible, ih]

/-- Below the outermost exception every record has a separator in front. -/
theorem nestedEntries (es : List StdException) (depth : Nat) :
    (reports (depth + 1) (es.map .standard)).flatMap (fun call => csvEntry call.1 call.2) =
      (es.map csvFields).flatMap (fun fields => chars ", " ++ csvRecord fields) := by
  induction es generalizing depth with
  | nil => rfl
  | cons e es ih =>
    simp only [reports, List.map_cons, List.zipIdx_cons, List.flatMap_cons] at ih ⊢
    rw [ih]
    simp [csvEntry, csvRecord, csvFields, Link.reported]

/-- The report is one record for each exception of the chain. -/
theorem unwrap_csv (os : List CChar) (e : StdException) (nested : List StdException) :
    unwrap (ε := ε) csvFormatter os (some (chain e nested)) =
      .ok (os ++ (csvRecord (csvFields e) ++
        (nested.map csvFields).flatMap (fun fields => chars ", " ++ csvRecord fields))) := by
  have hvisible : visible (chain e nested).links = .standard e :: nested.map .standard :=
    visible_standard (e :: nested)
  have hnested := nestedEntries nested 0
  rw [unwrap_eq, hvisible]
  apply (formatAll_entries csvEntry os _).trans
  rw [← hnested]
  simp [reports, csvEntry, csvRecord, csvFields, Link.reported]

/-- The output tells chains apart by the names and messages in them. -/
theorem csv_identifies_chain (os : List CChar) (e e' : StdException)
    (nested nested' : List StdException) :
    unwrap (ε := ε) csvFormatter os (some (chain e nested)) =
        unwrap csvFormatter os (some (chain e' nested')) ↔
      (e :: nested).map csvFields = (e' :: nested').map csvFields := by
  rw [unwrap_csv, unwrap_csv]
  constructor
  · intro h
    have htext := List.append_cancel_left (Except.ok.inj h)
    have hsep : chars ", " ≠ [] := List.cons_ne_nil _ _
    exact csvRecord_splits.separated_inj hsep (fun _ _ => trivial) (fun _ _ => trivial) htext
  · intro h
    obtain ⟨hfirst, hrest⟩ := List.cons.inj h
    rw [hfirst, hrest]

end Valuelib.Debug
