import Valuelib.Text.Numeral

namespace Valuelib.Text
open CChar

def CChar.isspace (c : CChar) : Bool := c == 32 || decide (tab ≤ c) && decide (c ≤ carriageReturn)

structure Iostate where
  bad : Bool
  eof : Bool
  fail : Bool
deriving DecidableEq, Repr

namespace Iostate

def good : Iostate := ⟨false, false, false⟩

def union (s t : Iostate) : Iostate := ⟨s.bad || t.bad, s.eof || t.eof, s.fail || t.fail⟩

def meets (s t : Iostate) : Bool := s.bad && t.bad || s.eof && t.eof || s.fail && t.fail

end Iostate

/-- `skipws` and all the other format flags, as one number. -/
structure Fmtflags where
  skipws : Bool
  others : Nat
deriving DecidableEq, Repr

structure Stringstream where
  unread : List CChar
  flags : Fmtflags
  state : Iostate
  exceptions : Iostate
deriving DecidableEq, Repr

inductive IosFailure where
  | failure
deriving DecidableEq, Repr

namespace Stringstream

def empty (flags : Fmtflags) : Stringstream := ⟨[], flags, .good, .good⟩

def setstate (is : Stringstream) (s : Iostate) : Except IosFailure Unit × Stringstream :=
  let is := { is with state := is.state.union s }
  (if is.state.meets is.exceptions then .error .failure else .ok (), is)

def write (os : Stringstream) (s : List CChar) : Except IosFailure Unit × Stringstream :=
  if os.state = .good then (.ok (), { os with unread := os.unread ++ s })
  else os.setstate ⟨false, false, true⟩

def failed (is : Stringstream) (s : Iostate) : Except IosFailure (Option CChar) × Stringstream :=
  let (thrown, is) := is.setstate s
  (thrown.map (fun _ => none), is)

/-- The sentry of formatted input skips whitespace, if the flags say so. -/
def sentry (is : Stringstream) : List CChar :=
  if is.flags.skipws then is.unread.dropWhile isspace else is.unread

def extract (is : Stringstream) : Except IosFailure (Option CChar) × Stringstream :=
  if is.state = .good then
    match is.sentry with
    | [] => { is with unread := [] }.failed ⟨false, true, true⟩
    | c :: rest => (.ok (some c), { is with unread := rest })
  else is.failed ⟨false, false, true⟩

theorem sentry_length (is : Stringstream) : is.sentry.length ≤ is.unread.length := by
  unfold sentry
  split
  · exact (List.dropWhile_sublist isspace).length_le
  · exact Nat.le_refl _

theorem failed_ne_some (is : Stringstream) (s : Iostate) (c : CChar) :
    (is.failed s).1 ≠ .ok (some c) := by
  unfold failed
  cases hset : (is.setstate s).1 with
  | ok _ => simp [hset, Except.map]
  | error _ => simp [hset, Except.map]

/-- Each extraction takes at least one character. -/
theorem extract_length {is is' : Stringstream} {c : CChar}
    (h : is.extract = (.ok (some c), is')) : is'.unread.length < is.unread.length := by
  unfold extract at h
  split at h
  · split at h
    · exact absurd (congrArg Prod.fst h) (failed_ne_some _ _ c)
    · rename_i rest hsentry
      cases h
      have hle := sentry_length is
      rw [hsentry, List.length_cons] at hle
      exact hle
  · exact absurd (congrArg Prod.fst h) (failed_ne_some _ _ c)

end Stringstream

end Valuelib.Text
