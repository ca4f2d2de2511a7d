import Valuelib.Data.StorableData
import Valuelib.Text.Stringstream

namespace Valuelib.Data
open Text

def toByteStream (os : Stringstream) (vec : List CChar) : Except IosFailure Unit × Stringstream :=
  os.write vec

/-- The copy from an `istream_iterator` into the back of `v`: the iterator reads
ahead, and ends with the first extraction that fails. -/
def copyInto (v : List CChar) (is : Stringstream) : Except IosFailure (List CChar) × Stringstream :=
  match _h : is.extract with
  | (.ok (some c), is') => copyInto (v ++ [c]) is'
  | (.ok none, is') => (.ok v, is')
  | (.error e, is') => (.error e, is')
termination_by is.unread.length
decreasing_by exact Stringstream.extract_length _h

/-- `from_byte_stream`. The saver puts the flags back however the copy ends. -/
def fromByteStream (is : Stringstream) : Except IosFailure (List CChar) × Stringstream :=
  let saved := is.flags
  let (v, is) := copyInto [] { is with flags := { is.flags with skipws := false } }
  (v, { is with flags := saved })

def writeToConnector (os : Stringstream) (sd : StorableData (List CChar)) :
    Except IosFailure Unit × Stringstream :=
  toByteStream os sd.value

def readFromConnector (is : Stringstream) :
    Except IosFailure (Instantiation (StorableData (List CChar))) × Stringstream :=
  let (v, is) := fromByteStream is
  (v.map (StorableData.new .noSizeLimits), is)

theorem write_of_good {os : Stringstream} (h : os.state = .good) (sd : StorableData (List CChar)) :
    writeToConnector os sd = (.ok (), { os with unread := os.unread ++ sd.value }) :=
  if_pos h

/-- The copy goes on for as long as characters can be extracted. -/
theorem copyInto_eq (v : List CChar) (is : Stringstream) :
    copyInto v is =
      match is.extract with
      | (.ok (some c), is') => copyInto (v ++ [c]) is'
      | (.ok none, is') => (.ok v, is')
      | (.error e, is') => (.error e, is') := by
  rw [copyInto]
  split
  · rename_i h
    rw [h]
  · rename_i h
    rw [h]
  · rename_i h
    rw [h]

/-- Without `skipws` the copy takes every character. -/
theorem copyInto_of_good (v unread : List CChar) {flags : Fmtflags} (h : flags.skipws = false) :
    copyInto v ⟨unread, flags, .good, .good⟩ =
      (.ok (v ++ unread), ⟨[], flags, ⟨false, true, true⟩, .good⟩) := by
  induction unread generalizing v with
  | nil =>
    have hextract : (⟨[], flags, .good, .good⟩ : Stringstream).extract =
        (.ok none, ⟨[], flags, ⟨false, true, true⟩, .good⟩) := by
      simp [Stringstream.extract, Stringstream.sentry, h, Stringstream.failed,
        Stringstream.setstate, Iostate.union, Iostate.meets, Iostate.good, Except.map]
    rw [copyInto_eq, hextract, List.append_nil]
  | cons c unread ih =>
    have hextract : (⟨c :: unread, flags, .good, .good⟩ : Stringstream).extract =
        (.ok (some c), ⟨unread, flags, .good, .good⟩) := by
      simp [Stringstream.extract, Stringstream.sentry, h]
    simp only [copyInto_eq v, hextract, ih, List.append_assoc, List.singleton_append]

/-- A reader of a good stream gets all that was written. -/
theorem read_of_good {is : Stringstream} (hstate : is.state = .good)
    (hexceptions : is.exceptions = .good) :
    (readFromConnector is).1 = .ok (.compiles (.ok ⟨is.unread⟩)) := by
  obtain ⟨unread, flags, state, exceptions⟩ := is
  cases hstate
  cases hexceptions
  have hskipws : ({ flags with skipws := false } : Fmtflags).skipws = false := rfl
  have hcopy := copyInto_of_good [] unread hskipws
  exact congrArg (fun r => r.1.map (StorableData.new .noSizeLimits)) hcopy

theorem read_flags (is : Stringstream) : (readFromConnector is).2.flags = is.flags := rfl

/-- What is written to a connector is read back, whatever the flags are, and
every read leaves them. -/
theorem connector_round_trip (flags : Fmtflags) (v w : StorableData (List CChar)) :
    (∃ written, writeToConnector (.empty flags) v = (.ok (), written) ∧
      (readFromConnector written).1 = .ok (.compiles (.ok v))) ∧
    (∃ half written, writeToConnector (.empty flags) v = (.ok (), half) ∧
      writeToConnector half w = (.ok (), written) ∧
      (readFromConnector written).1 = .ok (.compiles (.ok ⟨v.value ++ w.value⟩))) ∧
    ∀ is : Stringstream, (readFromConnector is).2.flags = is.flags := by
  refine ⟨⟨_, write_of_good rfl v, read_of_good rfl rfl⟩,
    ⟨_, _, write_of_good rfl v, write_of_good rfl w, read_of_good rfl rfl⟩, read_flags⟩

end Valuelib.Data
