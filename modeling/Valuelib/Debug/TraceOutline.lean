import Valuelib.Debug.TraceLog
import Valuelib.Base.Delimited

namespace Valuelib.Debug
open Text Outline Delimited

namespace Code

def silent : Code → Bool
  | .done | .throw => true
  | .seq first next => first.silent && next.silent
  | .tryCatch body handler => body.silent && handler.silent
  | .call enabled printing _ body => !enabled && printing.silent && body.silent
  | .say printing _ | .ret printing _ => printing.silent

/-- No traced function is run to make the text of a record. -/
def quiet : Code → Bool
  | .done | .throw => true
  | .seq first next => first.quiet && next.quiet
  | .tryCatch body handler => body.quiet && handler.quiet
  | .call _ printing _ body => printing.silent && body.quiet
  | .say printing _ | .ret printing _ => printing.silent

end Code

def marks : List CChar := chars "-><"

/-- A text that does not look like a lead or a returned value. -/
def Unmarked (text : List CChar) : Prop :=
  StopsAt marks text ∧ ¬ chars "returns: " <+: text

theorem unmarked_of_head {c : CChar} {text : List CChar} (hmark : c ∉ marks)
    (hreturns : c ≠ 114) : Unmarked (c :: text) := by
  refine ⟨stopsAt_cons hmark text, ?_⟩
  intro hprefix
  have hhead := (List.cons_prefix_cons.mp hprefix).1
  exact hreturns hhead.symm

namespace Code

def Unmarked : Code → Prop
  | .done | .throw => True
  | .seq first next => first.Unmarked ∧ next.Unmarked
  | .tryCatch body handler => body.Unmarked ∧ handler.Unmarked
  | .call _ _ text body => Debug.Unmarked text ∧ body.Unmarked
  | .say _ text => Debug.Unmarked text
  | .ret _ _ => True

/-- The calls that are made and what is said in them, as trees. -/
def outline (active : Bool) : Code → Forest Note
  | .done | .throw => .nil
  | .seq first next =>
    (first.outline active).append (if first.throws active then .nil else next.outline active)
  | .tryCatch body handler =>
    (body.outline active).append (if body.throws active then handler.outline active else .nil)
  | .call false _ _ body => body.outline false
  | .call true printing text body =>
    if printing.throws false then .nil else .cons (.entry text) (body.outline true) .nil
  | .say printing text =>
    if active && !printing.throws false then .leaf (.entry text) else .nil
  | .ret printing text =>
    if active && !printing.throws false then .leaf (.returned text) else .nil

/-- Code that runs no traced function logs nothing outside of active calls. -/
theorem records_of_silent {c : Code} (h : c.silent = true) (n : Nat) :
    c.records n false = [] := by
  induction c with
  | done => rfl
  | throw => rfl
  | seq first next ih ih' =>
    simp only [silent, Bool.and_eq_true] at h
    simp [records, ih h.1, ih' h.2]
  | tryCatch body handler ih ih' =>
    simp only [silent, Bool.and_eq_true] at h
    simp [records, ih h.1, ih' h.2]
  | call enabled printing text body _ ih' =>
    simp only [silent, Bool.and_eq_true, Bool.not_eq_true'] at h
    obtain ⟨⟨rfl, _⟩, hbody⟩ := h
    simp [records, ih' hbody]
  | say printing text => rfl
  | ret printing text => rfl

/-- The records are the outline, where printing adds none of its own. -/
theorem records_eq_lines {c : Code} (h : c.quiet = true) (n : Nat) (active : Bool) :
    c.records n active = (c.outline active).lines n := by
  induction c generalizing n active with
  | done => rfl
  | throw => rfl
  | seq first next ih ih' =>
    simp only [quiet, Bool.and_eq_true] at h
    cases hthrows : first.throws active with
    | true => simp [records, outline, hthrows, ih h.1]
    | false => simp [records, outline, hthrows, ih h.1, ih' h.2]
  | tryCatch body handler ih ih' =>
    simp only [quiet, Bool.and_eq_true] at h
    cases hthrows : body.throws active with
    | true => simp [records, outline, hthrows, ih h.1, ih' h.2]
    | false => simp [records, outline, hthrows, ih h.1]
  | call enabled printing text body _ ih' =>
    simp only [quiet, Bool.and_eq_true] at h
    cases enabled with
    | false => simp [records, outline, ih' h.2]
    | true =>
      cases hthrows : printing.throws false with
      | true => simp [records, outline, hthrows, records_of_silent h.1]
      | false => simp [records, outline, hthrows, records_of_silent h.1, ih' h.2, Forest.lines]
  | say printing text =>
    simp only [quiet] at h
    cases active with
    | false => rfl
    | true =>
      cases hthrows : printing.throws false with
      | true => simp [records, outline, hthrows, records_of_silent h]
      | false => simp [records, outline, hthrows, records_of_silent h]
  | ret printing text =>
    simp only [quiet] at h
    cases active with
    | false => rfl
    | true =>
      cases hthrows : printing.throws false with
      | true => simp [records, outline, hthrows, records_of_silent h]
      | false => simp [records, outline, hthrows, records_of_silent h]

end Code

/-- A record whose lead can be told from its text: its text is unmarked, or it is
a returned value and then some call is active. -/
def Legible : Nat × Note → Prop
  | (_, .entry text) => Unmarked text
  | (n, .returned _) => 0 < n

/-- Code whose texts are unmarked makes legible records. -/
theorem legible_records {c : Code} (h : c.Unmarked) (hquiet : c.quiet = true) {n : Nat}
    {active : Bool} (hn : active = true → 0 < n) : ∀ x ∈ c.records n active, Legible x := by
  induction c generalizing n active with
  | done =>
    intro x hx
    cases hx
  | throw =>
    intro x hx
    cases hx
  | seq first next ih ih' =>
    simp only [Code.quiet, Bool.and_eq_true] at hquiet
    intro x hx
    rw [Code.records, List.mem_append] at hx
    rcases hx with hx | hx
    · exact ih h.1 hquiet.1 hn x hx
    · split at hx
      · cases hx
      · exact ih' h.2 hquiet.2 hn x hx
  | tryCatch body handler ih ih' =>
    simp only [Code.quiet, Bool.and_eq_true] at hquiet
    intro x hx
    rw [Code.records, List.mem_append] at hx
    rcases hx with hx | hx
    · exact ih h.1 hquiet.1 hn x hx
    · split at hx
      · exact ih' h.2 hquiet.2 hn x hx
      · cases hx
  | call enabled printing text body _ ih' =>
    simp only [Code.quiet, Bool.and_eq_true] at hquiet
    intro x hx
    cases enabled with
    | false => exact ih' h.2 hquiet.2 (by simp) x hx
    | true =>
      rw [Code.records, Code.records_of_silent hquiet.1, List.nil_append] at hx
      split at hx
      · cases hx
      · cases hx with
        | head => exact h.1
        | tail _ hx => exact ih' h.2 hquiet.2 (by simp) x hx
  | say printing text =>
    intro x hx
    rw [Code.records, Code.records_of_silent hquiet, List.nil_append] at hx
    split at hx
    · split at hx
      · cases hx
      · cases List.mem_singleton.mp hx
        exact h
    · cases hx
  | ret printing text =>
    intro x hx
    rw [Code.records, Code.records_of_silent hquiet, List.nil_append] at hx
    split at hx
    · rename_i hactive
      split at hx
      · cases hx
      · cases List.mem_singleton.mp hx
        exact hn hactive
    · cases hx

theorem mem_putLeadIn {n : Nat} {c : CChar} (h : c ∈ putLeadIn n) : c ∈ marks := by
  induction n using putLeadIn.induct with
  | case1 => cases h
  | case2 =>
    cases List.mem_singleton.mp h
    decide
  | case3 n ih =>
    rw [putLeadIn, List.mem_append] at h
    rcases h with h | h
    · exact List.mem_append_left (chars "><") h
    · exact ih h

theorem length_putLeadIn (n : Nat) : (putLeadIn n).length = n := by
  induction n using putLeadIn.induct with
  | case1 => rfl
  | case2 => rfl
  | case3 n ih =>
    rw [putLeadIn, List.length_append, ih]
    exact Nat.add_comm _ _

theorem mem_putLeadOutLoop {ch : List CChar} (hch : ∀ c ∈ ch, c ∈ marks) {n : Nat} {c : CChar}
    (h : c ∈ putLeadOutLoop ch n) : c ∈ marks := by
  induction n generalizing ch with
  | zero => cases h
  | succ n ih =>
    rw [putLeadOutLoop, List.mem_append] at h
    rcases h with h | h
    · exact hch c h
    · exact ih (by simp [marks, chars]) h

theorem length_putLeadOutLoop {ch : List CChar} (hch : ch.length = 1) (n : Nat) :
    (putLeadOutLoop ch n).length = n := by
  induction n generalizing ch with
  | zero => rfl
  | succ n ih =>
    rw [putLeadOutLoop, List.length_append, hch, ih rfl]
    exact Nat.add_comm _ _

theorem mem_putLeadOut {n : Nat} {c : CChar} (h : c ∈ putLeadOut n) : c ∈ marks := by
  apply mem_putLeadOutLoop _ h
  simp [marks, chars]

theorem length_putLeadOut (n : Nat) : (putLeadOut n).length = n := length_putLeadOutLoop rfl n

theorem returns_stopsAt (text : List CChar) : StopsAt marks (chars "returns: " ++ text) := by
  intro c hc
  cases Option.some.inj hc
  decide

/-- A legible record is told by how it is written. -/
theorem render_inj {x y : Nat × Note} (hx : Legible x) (hy : Legible y)
    (h : render x = render y) : x = y := by
  obtain ⟨n, note⟩ := x
  obtain ⟨m, note'⟩ := y
  cases note with
  | entry text =>
    cases note' with
    | entry text' =>
      obtain ⟨hlead, rfl⟩ := word_end (fun _ => mem_putLeadIn) (fun _ => mem_putLeadIn) hx.1 hy.1 h
      have hlength := congrArg List.length hlead
      rw [length_putLeadIn, length_putLeadIn] at hlength
      rw [hlength]
    | returned text' =>
      obtain ⟨_, htext⟩ := word_end (fun _ => mem_putLeadIn) (fun _ => mem_putLeadOut) hx.1
        (returns_stopsAt text') h
      exact absurd ⟨text', htext.symm⟩ hx.2
  | returned text =>
    cases note' with
    | entry text' =>
      obtain ⟨_, htext⟩ := word_end (fun _ => mem_putLeadOut) (fun _ => mem_putLeadIn)
        (returns_stopsAt text) hy.1 h
      exact absurd ⟨text, htext⟩ hy.2
    | returned text' =>
      obtain ⟨hlead, htext⟩ := word_end (fun _ => mem_putLeadOut) (fun _ => mem_putLeadOut)
        (returns_stopsAt text) (returns_stopsAt text') h
      have hlength := congrArg List.length hlead
      rw [length_putLeadOut, length_putLeadOut] at hlength
      have hn : 0 < n := hx
      have hm : 0 < m := hy
      obtain rfl : n = m := by omega
      rw [List.append_cancel_left htext]

/-- A whole log of legible records. -/
theorem map_render_inj {l k : List (Nat × Note)} (hl : ∀ x ∈ l, Legible x)
    (hk : ∀ x ∈ k, Legible x) (h : l.map render = k.map render) : l = k := by
  induction l generalizing k with
  | nil => exact (List.map_eq_nil_iff.mp h.symm).symm
  | cons x l ih =>
    cases k with
    | nil => cases h
    | cons y k =>
      simp only [List.map_cons, List.cons.injEq] at h
      rw [render_inj (hl x List.mem_cons_self) (hk y List.mem_cons_self) h.1,
        ih (fun z hz => hl z (List.mem_cons_of_mem x hz))
          (fun z hz => hk z (List.mem_cons_of_mem y hz)) h.2]

/-- A program whose log can be read: its texts are unmarked, making them runs no
traced function, and its calls do not nest deeper than a `std::size_t` counts. -/
structure Readable where
  code : Code
  quiet : code.quiet = true
  unmarked : code.Unmarked
  fits : code.nesting < UInt64.size

namespace Readable

def log (p : Readable) : List (List CChar) := (exec ⟨0⟩ p.code 0).log

def outline (p : Readable) : Forest Note := p.code.outline false

theorem log_eq (p : Readable) : p.log = (p.outline.lines 0).map render := by
  have htold : exec (levelAt false 0) p.code 0 = told false p.code 0 :=
    exec_told p.code (by simp) (by simpa using p.fits)
  rw [log, ← levelAt_false 0, htold, outline, ← Code.records_eq_lines p.quiet]
  rfl

theorem legible (p : Readable) : ∀ x ∈ p.outline.lines 0, Legible x := by
  rw [outline, ← Code.records_eq_lines p.quiet]
  exact legible_records p.unmarked p.quiet (by simp)

end Readable

/-- The log tells which calls were made inside of which, what was said in them
and what they returned, and nothing else about the program: something said looks
like a call that does nothing. -/
theorem log_tells_outline (p q : Readable) : p.log = q.log ↔ p.outline = q.outline := by
  rw [p.log_eq, q.log_eq]
  constructor
  · intro h
    exact Forest.lines_inj (map_render_inj p.legible q.legible h)
  · intro h
    rw [h]

/-- Calls inside of calls: saying something looks like a call that does nothing, what is
inside of what is told apart. -/
theorem log_tells_outline_nested :
    ∃ p q r : Readable, p.code ≠ q.code ∧ p.log = q.log ∧ p.log ≠ r.log := by
  have hf : Unmarked (chars "f()") := unmarked_of_head (c := 102) (by decide) (by decide)
  have hg : Unmarked (chars "g()") := unmarked_of_head (c := 103) (by decide) (by decide)
  let inner : Code := .call true .done (chars "g()") .done
  let value : Code := .ret .done (chars "1")
  let p : Readable := ⟨.call true .done (chars "f()") (.seq inner value), rfl,
    ⟨hf, ⟨hg, trivial⟩, trivial⟩, by decide⟩
  let q : Readable := ⟨.call true .done (chars "f()") (.seq (.say .done (chars "g()")) value), rfl,
    ⟨hf, hg, trivial⟩, by decide⟩
  let r : Readable := ⟨.seq (.call true .done (chars "f()") value) inner, rfl,
    ⟨⟨hf, trivial⟩, hg, trivial⟩, by decide⟩
  refine ⟨p, q, r, by simp [p, q, inner], (log_tells_outline p q).mpr rfl, ?_⟩
  intro h
  have hsame := (log_tells_outline p r).mp h
  simp [Readable.outline, Code.outline, Code.throws, Forest.append, p, r, inner, value] at hsame

/-- An argument that traces while it is printed is put under the call before. -/
example :
    exec ⟨0⟩ (.seq (.call true .done (chars "f()") .done)
        (.call true (.call true .done (chars "size()") .done) (chars "g(x)") .done)) 0 =
      exec ⟨0⟩ (.seq (.call true .done (chars "f()") (.call true .done (chars "size()") .done))
        (.call true .done (chars "g(x)") .done)) 0 := by
  rfl

end Valuelib.Debug
