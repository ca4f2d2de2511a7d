import Mathlib.Tactic.ByContra

namespace Valuelib.Data

inductive SizeLimits where
  | noSizeLimits
  | limitToRange (min max : Nat)
deriving DecidableEq, Repr

def fixedSize (len : Nat) : SizeLimits := .limitToRange len len

def maximumSize (max : Nat) : SizeLimits := .limitToRange 0 max

inductive Failure where
  | invalidArgument (text : String)
deriving DecidableEq, Repr

/-- The upper comparison is with the lower bound, as in the program. -/
def checkLength (limits : SizeLimits) (len : Nat) : Except Failure Unit :=
  match limits with
  | .noSizeLimits => .ok ()
  | .limitToRange min _ =>
    if len < min then .error (.invalidArgument "insufficient data")
    else if len > min then .error (.invalidArgument "data too long")
    else .ok ()

/-- What a class template does for given arguments: no program at all, or code
with a result. -/
inductive Instantiation (α : Type) where
  | illFormed
  | compiles (result : Except Failure α)
deriving Repr

/-- `check_limits`: the overload is chosen by whether the checked object has a
member function `size`. The one for objects that have it passes the size where
`check_length` takes the limits. -/
def checkLimits {T : Type} (size : Option (T → Nat)) (_t : T) (_limits : SizeLimits) :
    Instantiation Unit :=
  match size with
  | some _ => .illFormed
  | none => .compiles (.ok ())

structure StorableData (Type_ : Type) where
  value : Type_
deriving DecidableEq, Repr

namespace StorableData

variable {T : Type}

/-- `storable_data` declares no member function `size`, whatever its underlying
type has. -/
def size : Option (StorableData T → Nat) := none

def new (sizeLimits : SizeLimits) (value : T) : Instantiation (StorableData T) :=
  let this : StorableData T := ⟨value⟩
  match checkLimits size this sizeLimits with
  | .illFormed => .illFormed
  | .compiles checked => .compiles (checked.map (fun _ => this))

def skippingLimitCheck (value : T) : StorableData T := ⟨value⟩

end StorableData

variable {T : Type}

/-- The limits as they are meant: the constructor and the length gate accept
what lies in the range and refuse everything else. -/
structure LimitsEnforced (size : T → Nat) (min max : Nat) (v : T) (len : Nat) : Prop where
  accepted : min ≤ size v ∧ size v ≤ max →
    StorableData.new (.limitToRange min max) v = .compiles (.ok ⟨v⟩)
  refused : ¬ (min ≤ size v ∧ size v ≤ max) → ∃ text,
    StorableData.new (.limitToRange min max) v = .compiles (.error (.invalidArgument text))
  gate : (∃ text, checkLength (.limitToRange min max) len = .error (.invalidArgument text)) ↔
    len < min ∨ max < len

/-- The constructor never looks at the size. -/
theorem new_eq (limits : SizeLimits) (v : T) :
    StorableData.new limits v = .compiles (.ok ⟨v⟩) := rfl

/-- Whatever the limits, both constructors make the same object. -/
theorem new_eq_skippingLimitCheck (limits : SizeLimits) (v : T) :
    StorableData.new limits v = .compiles (.ok (.skippingLimitCheck v)) := by
  rw [new_eq, StorableData.skippingLimitCheck]

theorem checkLength_ok {min max len : Nat} :
    checkLength (.limitToRange min max) len = .ok () ↔ len = min := by
  unfold checkLength
  dsimp only
  split
  · simp
    omega
  · split
    · simp
      omega
    · simp
      omega

theorem checkLength_error {min max len : Nat} :
    (∃ text, checkLength (.limitToRange min max) len = .error (.invalidArgument text)) ↔
      len ≠ min := by
  have hok : checkLength (.limitToRange min max) len = .ok () ↔ len = min := checkLength_ok
  cases h : checkLength (.limitToRange min max) len with
  | ok _ =>
    rw [h] at hok
    simpa using hok.mp rfl
  | error e =>
    cases e with
    | invalidArgument text =>
      rw [h] at hok
      simpa using hok

/-- The length gate is right unless the length is allowed and above the lower bound. -/
theorem gate_iff {min max len : Nat} (hrange : min ≤ max) :
    ((∃ text, checkLength (.limitToRange min max) len = .error (.invalidArgument text)) ↔
      len < min ∨ max < len) ↔ ¬ (min < len ∧ len ≤ max) := by
  rw [checkLength_error]
  omega

/-- The limits are enforced exactly for the values within them and for the
lengths that are not above the lower bound and still in the range. -/
theorem limitsEnforced_iff (size : T → Nat) (min max : Nat) (hrange : min ≤ max) (v : T)
    (len m n : Nat) :
    (LimitsEnforced size min max v len ↔
      (min ≤ size v ∧ size v ≤ max) ∧ ¬ (min < len ∧ len ≤ max)) ∧
    ((checkLength (maximumSize m) len = .ok () ↔ len ≤ m) ↔ ¬ (0 < len ∧ len ≤ m)) ∧
    (checkLength (fixedSize n) len = .ok () ↔ len = n) := by
  refine ⟨⟨?_, ?_⟩, ?_, ?_⟩
  · intro h
    constructor
    · by_contra hout
      obtain ⟨text, hrefused⟩ := h.refused hout
      rw [new_eq] at hrefused
      cases hrefused
    · exact (gate_iff hrange).mp h.gate
  · rintro ⟨hsize, hgate⟩
    constructor
    · intro _
      exact new_eq _ v
    · intro hout
      exact absurd hsize hout
    · exact (gate_iff hrange).mpr hgate
  · rw [maximumSize, checkLength_ok]
    omega
  · rw [fixedSize, checkLength_ok]

theorem limitsEnforced_iff_word :
    2 ≤ 5 ∧
    (LimitsEnforced List.length 2 5 ['a', 'b', 'c'] 2 ↔
      (2 ≤ ['a', 'b', 'c'].length ∧ ['a', 'b', 'c'].length ≤ 5) ∧ ¬ (2 < 2 ∧ 2 ≤ 5)) ∧
    ((checkLength (maximumSize 4) 2 = .ok () ↔ 2 ≤ 4) ↔ ¬ (0 < 2 ∧ 2 ≤ 4)) ∧
    (checkLength (fixedSize 3) 2 = .ok () ↔ 2 = 3) := by
  refine ⟨by decide, ?_⟩
  exact limitsEnforced_iff List.length 2 5 (by decide) ['a', 'b', 'c'] 2 4 3

/-- A string of two characters under `maximum_size(1)`, and the length four
under `limit_to_range(3, 5)`. -/
theorem limits_violated :
    StorableData.new (maximumSize 1) ['a', 'b'] = .compiles (.ok ⟨['a', 'b']⟩) ∧
    ¬ LimitsEnforced List.length 0 1 ['a', 'b'] 0 ∧
    checkLength (.limitToRange 3 5) 4 = .error (.invalidArgument "data too long") ∧
    ¬ LimitsEnforced List.length 3 5 ['a', 'b', 'c'] 4 := by
  refine ⟨rfl, ?_, rfl, ?_⟩
  · intro h
    obtain ⟨text, hrefused⟩ := h.refused (by decide)
    rw [new_eq] at hrefused
    cases hrefused
  · intro h
    exact absurd (h.gate.mp ⟨"data too long", rfl⟩) (by decide)

end Valuelib.Data
