import Valuelib.Data.Enumeration

namespace Valuelib.Data
open Text Immutable

/-- The storable types over strings and enumerations: these themselves, and the
classes that derive from a `storable_data` over one. -/
inductive StorableType where
  | string
  | enumeration (tag : Tag)
  | storableData (underlying : StorableType)

/-- One function template after the other: what the second makes of the result
of the first. -/
def Instantiation.andThen {α β : Type} (x : Instantiation α) (f : α → Instantiation β) :
    Instantiation β :=
  match x with
  | .illFormed => .illFormed
  | .compiles (.error e) => .compiles (.error e)
  | .compiles (.ok a) => f a

namespace StorableType

@[reducible] def Value : StorableType → Type
  | string => List CChar
  | enumeration _ => Int32
  | storableData underlying => StorableData underlying.Value

def toString : (S : StorableType) → S.Value → Except Failure (List CChar)
  | string, ref => .ok ref
  | enumeration tag, arg => tag.toString arg
  | storableData underlying, arg => underlying.toString arg.value

def fromString : (S : StorableType) → List CChar → Instantiation S.Value
  | string, r => .compiles (.ok r)
  | enumeration tag, s => .compiles (tag.fromString s)
  | storableData underlying, s => (underlying.fromString s).andThen (StorableData.new .noSizeLimits)

/-- The enumeration under all the wrappers, if it is one. -/
def tag? : StorableType → Option Tag
  | string => none
  | enumeration tag => some tag
  | storableData underlying => underlying.tag?

def Accepts (S : StorableType) (s : List CChar) : Prop := ∀ tag ∈ S.tag?, s ∈ tag.names

def Listed : (S : StorableType) → S.Value → Prop
  | string, _ => True
  | enumeration tag, e => tag.Listed e
  | storableData underlying, x => underlying.Listed x.value

end StorableType

/-- The trip of the values of a type through text. -/
structure RoundTrips (S : StorableType) : Prop where
  fromTo : ∀ x, S.Listed x → ∃ s, S.toString x = .ok s ∧ S.fromString s = .compiles (.ok x)
  accepts : ∀ s, (∃ x, S.fromString s = .compiles (.ok x)) ↔ S.Accepts s
  rejects : ∀ s, ¬ S.Accepts s → ∃ text, S.fromString s = .compiles (.error (.invalidArgument text))
  toFrom : ∀ s x, S.fromString s = .compiles (.ok x) → S.toString x = .ok s
  outside : ∀ x, ¬ S.Listed x → ∃ text, S.toString x = .error (.invalidArgument text)

/-- Strings are texts of themselves. -/
theorem roundTrips_string : RoundTrips .string where
  fromTo x _ := ⟨x, rfl, rfl⟩
  accepts s := by
    constructor
    · intro _ tag htag
      cases htag
    · intro _
      exact ⟨s, rfl⟩
  rejects s hs := by
    apply absurd _ hs
    intro tag htag
    cases htag
  toFrom s x h := by
    cases h
    rfl
  outside x hx := absurd trivial hx

theorem accepts_enumeration {tag : Tag} {s : List CChar} :
    (StorableType.enumeration tag).Accepts s ↔ s ∈ tag.names := by
  simp [StorableType.Accepts, StorableType.tag?]

theorem roundTrips_enumeration (tag : Tag) : RoundTrips (.enumeration tag) where
  fromTo e he := by
    obtain ⟨s, hto, hfrom⟩ := tag.fromString_toString he
    exact ⟨s, hto, congrArg Instantiation.compiles hfrom⟩
  accepts s := by
    rw [accepts_enumeration]
    constructor
    · intro h
      by_contra hs
      obtain ⟨e, he⟩ := h
      simp [StorableType.fromString, Tag.fromString_of_not_mem hs] at he
    · intro hs
      exact ⟨_, congrArg Instantiation.compiles (Tag.fromString_of_mem hs)⟩
  rejects s hs := by
    rw [accepts_enumeration] at hs
    exact ⟨_, congrArg Instantiation.compiles (Tag.fromString_of_not_mem hs)⟩
  toFrom s e h := by
    simp only [StorableType.fromString, Instantiation.compiles.injEq] at h
    exact Tag.toString_fromString h
  outside e he := ⟨_, Tag.toString_of_not_listed he⟩

/-- A wrapper without size limits always takes its value. -/
theorem fromString_storableData {S : StorableType} {s : List CChar} {x : S.Value} :
    (StorableType.storableData S).fromString s = .compiles (.ok ⟨x⟩) ↔
      S.fromString s = .compiles (.ok x) := by
  rw [StorableType.fromString]
  cases hs : S.fromString s with
  | illFormed => simp [Instantiation.andThen]
  | compiles result =>
    cases result with
    | error e => simp [Instantiation.andThen]
    | ok y => simp [Instantiation.andThen, new_eq]

/-- A wrapper keeps the round trip of what it wraps. -/
theorem RoundTrips.storableData {S : StorableType} (h : RoundTrips S) :
    RoundTrips (.storableData S) where
  fromTo x hx := by
    obtain ⟨s, hto, hfrom⟩ := h.fromTo x.value hx
    exact ⟨s, hto, fromString_storableData.mpr hfrom⟩
  accepts s := by
    constructor
    · intro hx
      obtain ⟨x, hx⟩ := hx
      exact (h.accepts s).mp ⟨x.value, fromString_storableData.mp hx⟩
    · intro hs
      obtain ⟨x, hx⟩ := (h.accepts s).mpr hs
      exact ⟨⟨x⟩, fromString_storableData.mpr hx⟩
  rejects s hs := by
    obtain ⟨text, htext⟩ := h.rejects s hs
    refine ⟨text, ?_⟩
    rw [StorableType.fromString, htext]
    rfl
  toFrom s x hx := h.toFrom s x.value (fromString_storableData.mp hx)
  outside x hx := h.outside x.value hx

/-- The values of every storable type survive the trip. -/
theorem storable_round_trips (S : StorableType) : RoundTrips S := by
  induction S with
  | string => exact roundTrips_string
  | enumeration tag => exact roundTrips_enumeration tag
  | storableData underlying ih => exact ih.storableData

section LoginState

def loginNames : List AnyString :=
  [⟨_, string (literal (chars "logged_out"))⟩, ⟨_, string (literal (chars "logged_in"))⟩]

theorem loginNames_distinct : (loginNames.map AnyString.text).Nodup := by decide

theorem loginNames_representable : loginNames.length ≤ 2147483648 := by decide

def loginState : Tag := ⟨loginNames, loginNames_distinct, loginNames_representable⟩

theorem storable_round_trips_loginState :
    RoundTrips (.storableData (.storableData (.enumeration loginState))) ∧
      (StorableType.storableData (.storableData (.enumeration loginState))).fromString
        (chars "logged_in") = .compiles (.ok ⟨⟨1⟩⟩) := by
  constructor
  · exact storable_round_trips (.storableData (.storableData (.enumeration loginState)))
  · rfl

end LoginState

end Valuelib.Data
