import Valuelib.Exceptions.Register

namespace Valuelib.Exceptions
open ExceptionClass

variable {codes : Codes}

/-- Objects of type `ti` are thrown as objects of class `e`, up to the wrapper. -/
def IsForm (ti e : ExceptionClass) : Prop := ti = e ∨ ti = .nested e

instance (ti e : ExceptionClass) : Decidable (IsForm ti e) := inferInstanceAs (Decidable (_ ∨ _))

def announcedFor (announced : List ExceptionClass) (ti : ExceptionClass) :
    Option ExceptionClass :=
  announced.find? (fun e => decide (IsForm ti e))

def defaultClass (ti : ExceptionClass) : ExceptionClass :=
  if ti.isA .invalidArgument then .invalidArgument
  else if ti.isA .logicError then .logicError
  else if ti.isA .systemError then .systemError
  else .runtimeError

/-- The class with which `re_raise` wraps an exception of type `ti`. -/
def layerClass (announced : List ExceptionClass) (ti : ExceptionClass) : ExceptionClass :=
  (announcedFor announced ti).getD (defaultClass ti)

def layerObject (codes : Codes) (e : ExceptionClass) (code : Option ErrorCode)
    (message : String) : Object :=
  ⟨.nested e, message, if e = .systemError then code else codes e message⟩

/-- Two classes that can be announced have no form in common. -/
theorem IsForm.unique {ti e e' : ExceptionClass} (h : IsForm ti e) (h' : IsForm ti e')
    (he : e.derivesNested = false) (he' : e'.derivesNested = false) : e = e' := by
  rcases h with rfl | rfl <;> rcases h' with h' | h'
  · exact h'
  · rw [h'] at he
    cases he
  · rw [← h'] at he'
    cases he'
  · exact ExceptionClass.nested.inj h'

theorem announcedFor_some {announced : List ExceptionClass} {ti e : ExceptionClass}
    (h : announcedFor announced ti = some e) : e ∈ announced ∧ IsForm ti e := by
  unfold announcedFor at h
  have hform := List.find?_some h
  exact ⟨List.mem_of_find?_eq_some h, of_decide_eq_true hform⟩

/-- An announced class is found from each of its forms. -/
theorem announcedFor_eq_some {announced : List ExceptionClass}
    (ha : ∀ e ∈ announced, e.Announceable) {ti e : ExceptionClass} :
    announcedFor announced ti = some e ↔ e ∈ announced ∧ IsForm ti e := by
  constructor
  · exact announcedFor_some
  · intro hannounced
    obtain ⟨hm, hform⟩ := hannounced
    cases h : announcedFor announced ti with
    | none => exact absurd (decide_eq_true hform) (List.find?_eq_none.mp h e hm)
    | some e' =>
      obtain ⟨hm', hform'⟩ := announcedFor_some h
      rw [hform.unique hform' (ha e hm).plain (ha e' hm').plain]

theorem announcedFor_eq_none {announced : List ExceptionClass} {ti : ExceptionClass} :
    announcedFor announced ti = none ↔ ∀ e ∈ announced, ¬ IsForm ti e := by
  simp [announcedFor, List.find?_eq_none]

theorem announcedFor_cons (announced : List ExceptionClass) (ti e : ExceptionClass) :
    announcedFor (e :: announced) ti =
      if IsForm ti e then some e else announcedFor announced ti := by
  by_cases h : IsForm ti e
  · simp [announcedFor, h]
  · simp [announcedFor, h]

/-- The register knows the announced classes and their nested forms, each with
the wrapper of its class. -/
def Faithful (codes : Codes) (announced : List ExceptionClass) (r : Register) : Prop :=
  ∀ ti, r.lookup ti = (announcedFor announced ti).map (fun e => ⟨reRaiser codes e⟩)

theorem typeWhenNesting_eq {e : Object} (h : e.type.Announceable) :
    typeWhenNesting e = .nested e.type := by
  rw [typeWhenNesting, throwWithNested_plain h.nonFinal h.plain]
  rfl

theorem lookup_cons (r : Register) (ti key : ExceptionClass) (f : Actions) :
    List.lookup key ((ti, f) :: r) = if key = ti then some f else r.lookup key := by
  rw [List.lookup_cons]
  by_cases h : key = ti
  · simp [h]
  · rw [beq_eq_false_iff_ne.mpr h, if_neg h]

/-- Registering an announced class changes nothing; a new one comes in with its
nested form. -/
theorem registerException_faithful {announced : List ExceptionClass} {r : Register} {e : Object}
    (hr : Faithful codes announced r) (ha : ∀ e ∈ announced, e.Announceable)
    (he : e.type.Announceable) :
    Faithful codes (e.type :: announced)
      (r.registerException e ⟨reRaiser codes e.type⟩) := by
  intro ti
  rw [announcedFor_cons]
  by_cases hold : e.type ∈ announced
  · have hlookup : r.lookup e.type = some ⟨reRaiser codes e.type⟩ := by
      rw [hr, (announcedFor_eq_some ha).mpr ⟨hold, .inl rfl⟩]
      rfl
    have hkept : r.registerException e ⟨reRaiser codes e.type⟩ = r := by
      simp only [Register.registerException, Register.registerExactType, hlookup]
    rw [hkept, hr]
    split
    · rename_i hform
      rw [(announcedFor_eq_some ha).mpr ⟨hold, hform⟩]
    · rfl
  · have hfresh : ∀ key, IsForm key e.type → r.lookup key = none := by
      intro key hkey
      rw [hr, announcedFor_eq_none.mpr]
      · rfl
      · intro e' hm hform
        exact hold (hkey.unique hform he.plain (ha e' hm).plain ▸ hm)
    have hne : ExceptionClass.nested e.type ≠ e.type := fun h => by
      have hplain := he.plain
      rw [← h] at hplain
      cases hplain
    have hadded : r.registerException e ⟨reRaiser codes e.type⟩ =
        (.nested e.type, ⟨reRaiser codes e.type⟩) :: (e.type, ⟨reRaiser codes e.type⟩) :: r := by
      simp only [Register.registerException, Register.registerExactType, hfresh _ (.inl rfl),
        typeWhenNesting_eq he, lookup_cons, if_neg hne, hfresh _ (.inr rfl), if_true]
    rw [hadded, lookup_cons, lookup_cons, hr]
    by_cases hn : ti = .nested e.type
    · simp [IsForm, hn]
    · by_cases hp : ti = e.type
      · simp [IsForm, hp]
      · simp [IsForm, hn, hp]

def classes (announcements : List Announcement) : List ExceptionClass :=
  (announcements.map (fun a => a.object.type)).reverse

theorem mem_classes {announcements : List Announcement} {e : ExceptionClass} :
    e ∈ classes announcements ↔ ∃ a ∈ announcements, a.object.type = e := by
  simp [classes]

theorem classes_announceable {announcements : List Announcement} {announced : List ExceptionClass}
    (hnew : ∀ a ∈ announcements, a.object.type.Announceable)
    (ha : ∀ e ∈ announced, e.Announceable) :
    ∀ e ∈ classes announcements ++ announced, e.Announceable := by
  intro e hm
  rcases List.mem_append.mp hm with hm | hm
  · obtain ⟨a, ham, rfl⟩ := mem_classes.mp hm
    exact hnew a ham
  · exact ha e hm

/-- Announcing keeps the register faithful to what was announced. -/
theorem announceAll_faithful {announcements : List Announcement} :
    ∀ {announced : List ExceptionClass} {r : Register}, Faithful codes announced r →
      (∀ e ∈ announced, e.Announceable) → (∀ a ∈ announcements, a.object.type.Announceable) →
      Faithful codes (classes announcements ++ announced) (announceAll codes r announcements) := by
  induction announcements with
  | nil =>
    intro announced r hr _ _
    exact hr
  | cons a announcements ih =>
    intro announced r hr ha hnew
    have hfirst : Faithful codes (a.object.type :: announced) (a.make codes r).1 := by
      cases a <;> exact registerException_faithful hr ha (hnew _ List.mem_cons_self)
    have hall : ∀ e ∈ a.object.type :: announced, e.Announceable := by
      intro e hm
      rcases List.mem_cons.mp hm with rfl | hm
      · exact hnew a List.mem_cons_self
      · exact ha e hm
    have hrest := ih hfirst hall (fun b hb => hnew b (List.mem_cons_of_mem a hb))
    simpa [classes, announceAll] using hrest

theorem empty_faithful (codes : Codes) : Faithful codes [] [] := by
  intro ti
  rfl

theorem defaultClass_cases (ti : ExceptionClass) :
    defaultClass ti = .invalidArgument ∨ defaultClass ti = .logicError ∨
      defaultClass ti = .systemError ∨ defaultClass ti = .runtimeError := by
  unfold defaultClass
  split
  · exact .inl rfl
  · split
    · exact .inr (.inl rfl)
    · split
      · exact .inr (.inr (.inl rfl))
      · exact .inr (.inr (.inr rfl))

/-- The default handlers take an exception they threw for what it was. -/
theorem defaultClass_nested (ti : ExceptionClass) :
    defaultClass (.nested (defaultClass ti)) = defaultClass ti := by
  rcases defaultClass_cases ti with h | h | h | h
  all_goals
    rw [h]
    rfl

theorem layerClass_wrappable {announced : List ExceptionClass}
    (ha : ∀ e ∈ announced, e.Announceable) (ti : ExceptionClass) :
    (layerClass announced ti).isFinal = false ∧
      (layerClass announced ti).derivesNested = false := by
  unfold layerClass
  cases h : announcedFor announced ti with
  | some e =>
    have he := ha e (announcedFor_some h).1
    exact ⟨he.nonFinal, he.plain⟩
  | none =>
    rcases defaultClass_cases ti with hd | hd | hd | hd <;> simp [hd, isFinal, derivesNested]

theorem reRaiser_eq {e : ExceptionClass} (hf : e.isFinal = false) (hn : e.derivesNested = false)
    (message : String) (x : Thrown) :
    reRaiser codes e message x = .nesting (layerObject codes e x.object.code message) x := by
  unfold reRaiser
  split
  · rename_i hs
    subst hs
    rfl
  · rename_i hs
    rw [throwWithNested_plain hf hn]
    simp [construct, layerObject, hs]

/-- The default wrapper adds an object of the default class. -/
theorem defaultWrap_eq (message : String) (x : Thrown) :
    defaultWrap codes message x =
      .nesting (layerObject codes (defaultClass x.object.type) x.object.code message) x := by
  unfold defaultWrap defaultClass
  split
  · rfl
  · split
    · rfl
    · split
      · rfl
      · split <;> rfl

/-- One handler adds one layer. -/
theorem reRaise_eq {announced : List ExceptionClass} {r : Register}
    (hr : Faithful codes announced r) (ha : ∀ e ∈ announced, e.Announceable)
    (message : String) (x : Thrown) :
    reRaise codes r message x = .nesting
      (layerObject codes (layerClass announced x.object.type) x.object.code message) x := by
  have hwrappable := layerClass_wrappable ha x.object.type
  unfold reRaise wrap
  rw [hr]
  unfold layerClass at hwrappable ⊢
  cases h : announcedFor announced x.object.type with
  | none => exact defaultWrap_eq message x
  | some e =>
    rw [h] at hwrappable
    exact reRaiser_eq hwrappable.1 hwrappable.2 message x

/-- A form of an announced class is wrapped by that class. -/
theorem layerClass_of_form {announced : List ExceptionClass} (ha : ∀ e ∈ announced, e.Announceable)
    {ti e : ExceptionClass} (hm : e ∈ announced) (hform : IsForm ti e) :
    layerClass announced ti = e := by
  rw [layerClass, (announcedFor_eq_some ha).mpr ⟨hm, hform⟩]
  rfl

theorem layerClass_of_no_form {announced : List ExceptionClass} {ti : ExceptionClass}
    (h : ∀ e ∈ announced, ¬ IsForm ti e) : layerClass announced ti = defaultClass ti := by
  rw [layerClass, announcedFor_eq_none.mpr h]
  rfl

/-- The class of a layer is the class of the next one, whatever is announced in
between. -/
theorem layerClass_stable {announced announced' : List ExceptionClass}
    (ha' : ∀ e ∈ announced', e.Announceable)
    (hsub : announced ⊆ announced') (ti : ExceptionClass) :
    layerClass announced' (.nested (layerClass announced ti)) = layerClass announced ti := by
  by_cases hm : layerClass announced ti ∈ announced'
  · exact layerClass_of_form ha' hm (.inr rfl)
  · cases h : announcedFor announced ti with
    | some e =>
      have he : layerClass announced ti = e := by rw [layerClass, h]; rfl
      exact absurd (hsub (announcedFor_some h).1) (he ▸ hm)
    | none =>
      have hd := layerClass_of_no_form (announcedFor_eq_none.mp h)
      have hnone : ∀ e ∈ announced', ¬ IsForm (.nested (defaultClass ti)) e := by
        intro e he hform
        rcases hform with hform | hform
        · have hplain := (ha' e he).plain
          rw [← hform] at hplain
          cases hplain
        · exact hm (by rw [hd, ExceptionClass.nested.inj hform]; exact he)
      rw [hd, layerClass_of_no_form hnone]
      exact defaultClass_nested ti

/-- An exception that every register in question wraps as class `e` gets layers
of that class only. -/
theorem unwind_chain (e : ExceptionClass) (code : Option ErrorCode) {layers : List Layer}
    (hnew : ∀ layer ∈ layers, ∀ a ∈ layer.announcements, a.object.type.Announceable) :
    ∀ {announced : List ExceptionClass} {r : Register} {x : Thrown}, Faithful codes announced r →
      (∀ e ∈ announced, e.Announceable) →
      (∀ announced', announced ⊆ announced' → (∀ e ∈ announced', e.Announceable) →
        layerClass announced' x.object.type = e) →
      (e = .systemError → x.object.code = code) →
      (unwind codes r x layers).chain =
        (layers.map (fun layer => layerObject codes e code layer.message)).reverse ++ x.chain := by
  induction layers with
  | nil =>
    intro announced r x _ _ _ _
    rfl
  | cons layer layers ih =>
    intro announced r x hr ha hclass hcode
    have hfirst := hnew layer List.mem_cons_self
    have hr' := announceAll_faithful hr ha hfirst
    have ha' := classes_announceable hfirst ha
    have he := hclass _ (List.subset_append_right (classes layer.announcements) announced) ha'
    have hobject : layerObject codes e x.object.code layer.message =
        layerObject codes e code layer.message := by
      unfold layerObject
      split
      · rename_i hs
        rw [hcode hs]
      · rfl
    have hstep := reRaise_eq hr' ha' layer.message x
    rw [he, hobject] at hstep
    rw [unwind, hstep, ih (fun l hl => hnew l (List.mem_cons_of_mem layer hl)) hr' ha']
    · simp [Thrown.chain]
    · intro announced' hsub hall
      have hstable := layerClass_stable hall hsub x.object.type
      rw [he] at hstable
      exact hstable
    · intro hs
      simp [Thrown.object, layerObject, hs]

/-- Re-raising adds one layer for each message, all of one class, and leaves the
chain below as it was. The class is that announced for the exception when it is
first re-raised, and otherwise the one the default handlers choose. -/
theorem re_raise_chain (codes : Codes) (history : List Announcement) (x : Thrown)
    (layers : List Layer)
    (hhistory : ∀ a ∈ history, a.object.type.Announceable)
    (hlayers : ∀ layer ∈ layers, ∀ a ∈ layer.announcements, a.object.type.Announceable) :
    ∃ e added, (unwind codes (announceAll codes [] history) x layers).chain = added ++ x.chain ∧
      added.map (fun o => (o.type, o.message)) =
        (layers.map (fun layer => (ExceptionClass.nested e, layer.message))).reverse ∧
      ∀ first rest, layers = first :: rest →
        (∀ a ∈ history ++ first.announcements, IsForm x.object.type a.object.type →
          e = a.object.type) ∧
        ((∀ a ∈ history ++ first.announcements, ¬ IsForm x.object.type a.object.type) →
          e = defaultClass x.object.type) := by
  cases layers with
  | nil => exact ⟨.runtimeError, [], rfl, rfl, fun _ _ h => by cases h⟩
  | cons first rest =>
    have hempty : ∀ e ∈ ([] : List ExceptionClass), e.Announceable := fun _ h => by cases h
    have hfirst := hlayers first List.mem_cons_self
    have hr := announceAll_faithful (empty_faithful codes) hempty hhistory
    have ha := classes_announceable hhistory hempty
    have hr' := announceAll_faithful hr ha hfirst
    have ha' := classes_announceable hfirst ha
    let announced := classes first.announcements ++ (classes history ++ [])
    let e := layerClass announced x.object.type
    have hmem : ∀ e', e' ∈ announced ↔
        ∃ a ∈ history ++ first.announcements, a.object.type = e' := by
      intro e'
      simp only [announced, List.append_nil, List.mem_append, mem_classes, or_and_right, exists_or]
      exact Or.comm
    refine ⟨e, ((first :: rest).map
      (fun layer => layerObject codes e x.object.code layer.message)).reverse, ?_, ?_, ?_⟩
    · rw [unwind, reRaise_eq hr' ha', unwind_chain e x.object.code
        (fun l hl => hlayers l (List.mem_cons_of_mem first hl)) hr' ha']
      · simp [Thrown.chain, e, announced]
      · intro announced' hsub hall
        exact layerClass_stable hall hsub x.object.type
      · intro hs
        simp [Thrown.object, layerObject, e, announced] at hs ⊢
        simp [hs]
    · simp [layerObject, Function.comp_def]
    · rintro _ _ ⟨⟩
      refine ⟨?_, ?_⟩
      · intro a hm hform
        exact layerClass_of_form ha' ((hmem _).mpr ⟨a, hm, rfl⟩) hform
      · intro hnone
        apply layerClass_of_no_form
        intro e' hm
        obtain ⟨a, ham, rfl⟩ := (hmem e').mp hm
        exact hnone a ham

def flobbyError : ExceptionClass := .derived "flobby_error" .runtimeError false false true

theorem flobbyError_announceable : flobbyError.Announceable := by
  refine ⟨rfl, rfl, ?_⟩
  right
  rfl

theorem logicError_announceable : logicError.Announceable := by
  refine ⟨rfl, rfl, ?_⟩
  right
  rfl

/-- The exceptions of the program's own test, in which a `flobby_error` is raised
over a logic error and re-raised twice. -/
theorem re_raise_chain_flobby :
    let logic : Object := ⟨.logicError, "logic", none⟩
    let flobby : Object := ⟨flobbyError, "my flobby", none⟩
    let history := [.raise logic, .raiseWithNested flobby (some (.alone logic))]
    let x : Thrown := .nesting { flobby with type := .nested flobbyError } (.alone logic)
    let layers : List Layer := [⟨[], "test::inner(\"foo\")"⟩, ⟨[], "outer"⟩]
    ∃ e added, (unwind (fun _ _ => none) (announceAll (fun _ _ => none) [] history) x
        layers).chain = added ++ x.chain ∧
      added.map (fun o => (o.type, o.message)) =
        (layers.map (fun layer => (ExceptionClass.nested e, layer.message))).reverse ∧
      ∀ first rest, layers = first :: rest →
        (∀ a ∈ history ++ first.announcements, IsForm x.object.type a.object.type →
          e = a.object.type) ∧
        ((∀ a ∈ history ++ first.announcements, ¬ IsForm x.object.type a.object.type) →
          e = defaultClass x.object.type) := by
  intro logic flobby history x layers
  apply re_raise_chain (fun _ _ => none) history x layers
  · intro a hm
    rcases List.mem_cons.mp hm with rfl | hm
    · exact logicError_announceable
    · cases List.mem_singleton.mp hm
      exact flobbyError_announceable
  · intro l hm
    rcases List.mem_cons.mp hm with rfl | hm
    · intro _ h
      cases h
    · cases List.mem_singleton.mp hm
      intro _ h
      cases h

example :
    let codes : Codes := fun _ _ => none
    let logic : Object := ⟨.logicError, "logic", none⟩
    let flobby : Object := ⟨flobbyError, "my flobby", none⟩
    let (r, inner) := announce codes [] logic
    let (r, x) := announceWithNested codes r flobby (some inner)
    (unwind codes r x [⟨[], "test::inner(\"foo\")"⟩, ⟨[], "outer"⟩]).chain.map
        (fun o => (o.type, o.message)) =
      [(.nested flobbyError, "outer"), (.nested flobbyError, "test::inner(\"foo\")"),
        (.nested flobbyError, "my flobby"), (.logicError, "logic")] := by rfl

end Valuelib.Exceptions
