import InsightsAssist.Java
import InsightsAssist.Puts

/-! The error messages that a form holds. Each validation adds those of the violations it finds; the
validator, which is given the fields and a group, stands for the library that checks them. -/
namespace InsightsAssist.AbstractForm
open Java
variable {Fields Group : Type*}

structure ConstraintViolation where
  propertyPath : String
  message : String
  deriving DecidableEq, Repr

structure Form (Fields : Type*) where
  fields : Fields
  errorMessages : Finmap fun _ : String => String
  nonFieldErrorMessages : List String

def newForm (fields : Fields) : Form Fields := ⟨fields, ∅, []⟩

def Form.setErrorMessage (field : Option String) (errorMessage : String) (form : Form Fields) :
    Form Fields :=
  if isBlank field then
    { form with nonFieldErrorMessages := form.nonFieldErrorMessages ++ [errorMessage] }
  else { form with errorMessages := form.errorMessages.insert (field.getD "") errorMessage }

def Form.setErrorMessages (violations : List ConstraintViolation) (form : Form Fields) :
    Form Fields :=
  violations.foldl (fun form cv => form.setErrorMessage (some cv.propertyPath) cv.message) form

/-- Whether the validation succeeded, and the form after it. The violations are in the order in
which their set is iterated over. -/
def Form.validate (validator : Fields → Group → List ConstraintViolation) (validationGroup : Group)
    (form : Form Fields) : Bool × Form Fields :=
  let violations := validator form.fields validationGroup
  if violations.length = 0 then (true, form) else (false, form.setErrorMessages violations)

/-- The keys are in the order of the hash map. -/
def Form.getFirstErrorMessage (keySet : List String) (form : Form Fields) : Option String :=
  match keySet with
  | key :: _ => form.errorMessages.lookup key
  | [] => none

/-- `validate()` is that of the default group. -/
inductive Step (Fields Group : Type*) where
  | change (fields : Fields)
  | validate (validationGroup : Group)

def step (validator : Fields → Group → List ConstraintViolation) (form : Form Fields) :
    Step Fields Group → Form Fields
  | .change fields => { form with fields := fields }
  | .validate validationGroup => (form.validate validator validationGroup).2

def run (validator : Fields → Group → List ConstraintViolation) (form : Form Fields)
    (steps : List (Step Fields Group)) : Form Fields := steps.foldl (step validator) form

/-- The violations that the calls of a run find, first ones first. -/
def found (validator : Fields → Group → List ConstraintViolation) (fields : Fields) :
    List (Step Fields Group) → List ConstraintViolation
  | [] => []
  | .change fields :: steps => found validator fields steps
  | .validate validationGroup :: steps =>
    validator fields validationGroup ++ found validator fields steps

def fieldless (cv : ConstraintViolation) : Bool := isBlank (some cv.propertyPath)

structure HoldsExactly (violations : List ConstraintViolation) (form : Form Fields) : Prop where
  errorMessages : ∀ field message, form.errorMessages.lookup field = some message ↔
    ∃ cv ∈ violations, fieldless cv = false ∧ cv.propertyPath = field ∧ cv.message = message
  nonFieldErrorMessages :
    form.nonFieldErrorMessages.Perm ((violations.filter fieldless).map (·.message))

/-- After a call, the form holds exactly the messages of that call: none if it returned true. -/
structure Reports (validator : Fields → Group → List ConstraintViolation) (form : Form Fields)
    (validationGroup : Group) : Prop where
  exact : HoldsExactly (validator form.fields validationGroup)
    (form.validate validator validationGroup).2
  valid : (form.validate validator validationGroup).1 = true →
    (form.validate validator validationGroup).2.errorMessages = ∅ ∧
    (form.validate validator validationGroup).2.nonFieldErrorMessages = [] ∧
    ∀ keySet, (∀ key, key ∈ keySet ↔
        key ∈ (form.validate validator validationGroup).2.errorMessages) →
      (form.validate validator validationGroup).2.getFirstErrorMessage keySet = none

/-- All violations found before were of fields, which are still violated, and a field has one
message now. -/
structure Renewed (before now : List ConstraintViolation) : Prop where
  ofField : ∀ cv ∈ before, fieldless cv = false
  again : ∀ cv ∈ before, ∃ cv' ∈ now, cv'.propertyPath = cv.propertyPath
  once : ∀ a ∈ now, ∀ b ∈ now, fieldless a = false → a.propertyPath = b.propertyPath →
    a.message = b.message

section Messages
variable {validator : Fields → Group → List ConstraintViolation} {form : Form Fields}
  {violations before now : List ConstraintViolation} {validationGroup : Group}

def fieldMessages (violations : List ConstraintViolation) : List (String × String) :=
  (violations.filter (!fieldless ·)).map fun cv => (cv.propertyPath, cv.message)

def nonFieldMessages (violations : List ConstraintViolation) : List String :=
  (violations.filter fieldless).map (·.message)

structure Adds (violations : List ConstraintViolation) (form form' : Form Fields) : Prop where
  errorMessages : form'.errorMessages = putAll form.errorMessages (fieldMessages violations)
  nonFieldErrorMessages :
    form'.nonFieldErrorMessages = form.nonFieldErrorMessages ++ nonFieldMessages violations

theorem Adds.trans {form' form'' : Form Fields} (h : Adds before form form')
    (h' : Adds now form' form'') : Adds (before ++ now) form form'' where
  errorMessages := by
    rw [h'.errorMessages, h.errorMessages, fieldMessages, fieldMessages, fieldMessages,
      List.filter_append, List.map_append, putAll_append]
  nonFieldErrorMessages := by
    rw [h'.nonFieldErrorMessages, h.nonFieldErrorMessages, nonFieldMessages, nonFieldMessages,
      nonFieldMessages, List.filter_append, List.map_append, List.append_assoc]

theorem adds_setErrorMessage (cv : ConstraintViolation) (form : Form Fields) :
    Adds [cv] form (form.setErrorMessage (some cv.propertyPath) cv.message) := by
  by_cases hblank : fieldless cv
  · rw [Form.setErrorMessage, if_pos (show isBlank (some cv.propertyPath) = true from hblank)]
    exact ⟨by simp [fieldMessages, hblank, putAll], by simp [nonFieldMessages, hblank]⟩
  · rw [Form.setErrorMessage, if_neg (show ¬isBlank (some cv.propertyPath) = true from hblank)]
    exact ⟨by simp [fieldMessages, hblank, putAll], by simp [nonFieldMessages, hblank]⟩

theorem fields_setErrorMessages (violations : List ConstraintViolation) (form : Form Fields) :
    (form.setErrorMessages violations).fields = form.fields := by
  induction violations generalizing form with
  | nil => rfl
  | cons cv violations ih =>
    have hfields : (form.setErrorMessage (some cv.propertyPath) cv.message).fields =
        form.fields := by
      unfold Form.setErrorMessage
      split <;> rfl
    exact (ih _).trans hfields

theorem adds_setErrorMessages (violations : List ConstraintViolation) (form : Form Fields) :
    Adds violations form (form.setErrorMessages violations) := by
  induction violations generalizing form with
  | nil => exact ⟨rfl, by simp [Form.setErrorMessages, nonFieldMessages]⟩
  | cons cv violations ih => exact (adds_setErrorMessage cv form).trans (ih _)

theorem validate_eq (validator : Fields → Group → List ConstraintViolation)
    (validationGroup : Group) (form : Form Fields) :
    (form.validate validator validationGroup).2 =
      form.setErrorMessages (validator form.fields validationGroup) := by
  unfold Form.validate
  dsimp only
  split
  · rename_i hempty
    rw [List.length_eq_zero_iff.mp hempty]
    rfl
  · rfl

theorem validate_eq_true : (form.validate validator validationGroup).1 = true ↔
    validator form.fields validationGroup = [] := by
  unfold Form.validate
  dsimp only
  split
  · rename_i hempty
    simp [List.length_eq_zero_iff.mp hempty]
  · rename_i hne
    simpa using fun heq => hne (by rw [heq]; rfl)

theorem adds_run (validator : Fields → Group → List ConstraintViolation)
    (steps : List (Step Fields Group)) (form : Form Fields) :
    Adds (found validator form.fields steps) form (run validator form steps) := by
  induction steps generalizing form with
  | nil => exact ⟨rfl, by simp [run, found, nonFieldMessages]⟩
  | cons a steps ih =>
    cases a with
    | change fields =>
      have hrest := ih { form with fields := fields }
      exact ⟨hrest.errorMessages, hrest.nonFieldErrorMessages⟩
    | validate validationGroup =>
      have hrest := ih (form.validate validator validationGroup).2
      rw [validate_eq, fields_setErrorMessages] at hrest
      have hrun : run validator form (.validate validationGroup :: steps) =
          run validator (form.setErrorMessages (validator form.fields validationGroup)) steps := by
        rw [run, List.foldl_cons, step, validate_eq]
        rfl
      rw [hrun]
      exact (adds_setErrorMessages _ _).trans hrest

theorem adds_validate (validator : Fields → Group → List ConstraintViolation) (fields : Fields)
    (steps : List (Step Fields Group)) (validationGroup : Group) :
    Adds (found validator fields steps ++
        validator (run validator (newForm fields) steps).fields validationGroup) (newForm fields)
      ((run validator (newForm fields) steps).validate validator validationGroup).2 := by
  rw [validate_eq]
  exact (adds_run validator steps (newForm fields)).trans (adds_setErrorMessages _ _)

theorem mem_fieldMessages {field message : String} :
    (field, message) ∈ fieldMessages violations ↔
      ∃ cv ∈ violations, fieldless cv = false ∧ cv.propertyPath = field ∧ cv.message = message := by
  simp [fieldMessages, and_assoc]

theorem fieldless_eq {cv cv' : ConstraintViolation} (h : cv.propertyPath = cv'.propertyPath) :
    fieldless cv = fieldless cv' := by
  rw [fieldless, fieldless, h]

end Messages

section Calls
variable {form : Form Fields} {before now : List ConstraintViolation}

theorem agree_of_renewed (h : Renewed before now) : Agree (fieldMessages now) := by
  rintro ⟨field, message⟩ hmem ⟨field', message'⟩ hmem' hfield
  obtain ⟨a, ha, hfieldless, rfl, rfl⟩ := mem_fieldMessages.mp hmem
  obtain ⟨b, hb, -, rfl, rfl⟩ := mem_fieldMessages.mp hmem'
  exact h.once a ha b hb hfieldless hfield

theorem holdsExactly_of_renewed {fields : Fields}
    (hadds : Adds (before ++ now) (newForm fields) form) (h : Renewed before now) :
    HoldsExactly now form where
  errorMessages field message := by
    rw [← mem_fieldMessages, hadds.errorMessages]
    have hsplit : fieldMessages (before ++ now) = fieldMessages before ++ fieldMessages now := by
      rw [fieldMessages, List.filter_append, List.map_append]
      rfl
    rw [hsplit, putAll_append]
    constructor
    · intro hlookup
      by_cases hnow : field ∈ (fieldMessages now).map Prod.fst
      · obtain ⟨⟨field', message'⟩, hmem, rfl, hlookup'⟩ := exists_of_mem_keys
          (m := putAll (newForm fields).errorMessages (fieldMessages before)) hnow
        rw [hlookup'] at hlookup
        cases hlookup
        exact hmem
      · rw [lookup_putAll_of_not_mem hnow] at hlookup
        exfalso
        by_cases hbefore : field ∈ (fieldMessages before).map Prod.fst
        · obtain ⟨⟨field', message'⟩, hmem, rfl⟩ := List.mem_map.mp hbefore
          obtain ⟨cv, hcv, hfieldless, rfl, rfl⟩ := mem_fieldMessages.mp hmem
          obtain ⟨cv', hcv', hpath⟩ := h.again cv hcv
          refine hnow (List.mem_map.mpr ⟨(cv'.propertyPath, cv'.message), ?_, hpath⟩)
          exact mem_fieldMessages.mpr ⟨cv', hcv', fieldless_eq hpath ▸ hfieldless, rfl, rfl⟩
        · rw [lookup_putAll_of_not_mem hbefore] at hlookup
          simp [newForm] at hlookup
    · exact lookup_putAll (agree_of_renewed h)
  nonFieldErrorMessages := by
    have hnone : before.filter fieldless = [] := by
      rw [List.filter_eq_nil_iff]
      intro cv hcv
      rw [h.ofField cv hcv]
      exact Bool.false_ne_true
    rw [hadds.nonFieldErrorMessages, nonFieldMessages, List.filter_append, hnone]
    rfl

theorem renewed_of_holdsExactly {fields : Fields}
    (hadds : Adds (before ++ now) (newForm fields) form) (h : HoldsExactly now form) :
    Renewed before now := by
  have hofField : ∀ cv ∈ before, fieldless cv = false := by
    intro cv hcv
    have hlength := h.nonFieldErrorMessages.length_eq
    rw [hadds.nonFieldErrorMessages, nonFieldMessages, List.filter_append] at hlength
    have hnone : (before.filter fieldless).length = 0 := by
      simp only [newForm, List.nil_append, List.length_map, List.length_append] at hlength
      omega
    rw [List.length_eq_zero_iff, List.filter_eq_nil_iff] at hnone
    simpa using hnone cv hcv
  refine ⟨hofField, ?_, ?_⟩
  · intro cv hcv
    have hmem : cv.propertyPath ∈ (fieldMessages (before ++ now)).map Prod.fst :=
      List.mem_map_of_mem (f := Prod.fst) (mem_fieldMessages.mpr
        ⟨cv, List.mem_append_left _ hcv, hofField cv hcv, rfl, rfl⟩)
    obtain ⟨⟨field, message⟩, -, rfl, hlookup⟩ :=
      exists_of_mem_keys (m := (newForm fields).errorMessages) hmem
    rw [← hadds.errorMessages] at hlookup
    obtain ⟨cv', hcv', -, hpath, -⟩ := (h.errorMessages _ _).mp hlookup
    exact ⟨cv', hcv', hpath⟩
  · intro a ha b hb hfieldless hpath
    have ha' := (h.errorMessages _ _).mpr ⟨a, ha, hfieldless, rfl, rfl⟩
    have hb' := (h.errorMessages _ _).mpr
      ⟨b, hb, fieldless_eq hpath ▸ hfieldless, rfl, rfl⟩
    rw [hpath, hb'] at ha'
    exact (Option.some.inj ha').symm

theorem empty_of_holdsExactly (h : HoldsExactly [] form) : form.errorMessages = ∅ ∧
    form.nonFieldErrorMessages = [] ∧
    ∀ keySet, (∀ key, key ∈ keySet ↔ key ∈ form.errorMessages) →
      form.getFirstErrorMessage keySet = none := by
  have hempty : form.errorMessages = ∅ := by
    refine Finmap.ext_lookup fun field => ?_
    rw [Finmap.lookup_empty]
    refine Option.eq_none_iff_forall_ne_some.mpr fun message hlookup => ?_
    simpa using (h.errorMessages field message).mp hlookup
  refine ⟨hempty, by simpa using h.nonFieldErrorMessages, ?_⟩
  intro keySet hkeySet
  cases keySet with
  | nil => rfl
  | cons key keySet =>
    have hkey := (hkeySet key).mp (List.mem_cons_self ..)
    rw [hempty] at hkey
    exact absurd hkey Finmap.notMem_empty

end Calls

theorem validate_reports_iff (validator : Fields → Group → List ConstraintViolation)
    (fields : Fields) (steps : List (Step Fields Group)) (validationGroup : Group) :
    Reports validator (run validator (newForm fields) steps) validationGroup ↔
      Renewed (found validator fields steps)
        (validator (run validator (newForm fields) steps).fields validationGroup) := by
  have hadds := adds_validate validator fields steps validationGroup
  constructor
  · exact fun h => renewed_of_holdsExactly hadds h.exact
  · intro h
    have hexact := holdsExactly_of_renewed hadds h
    refine ⟨hexact, fun hvalid => ?_⟩
    rw [validate_eq_true] at hvalid
    rw [hvalid] at hexact
    exact empty_of_holdsExactly hexact

def amountRequired (amount : Option Nat) (_ : Unit) : List ConstraintViolation :=
  if amount.isNone then [⟨"amount", "may not be null"⟩] else []

theorem corrected_field_reported :
    ¬Reports amountRequired
      (run amountRequired (newForm none) [.validate (), .change (some 5)]) () := by
  intro h
  have hrenewed := renewed_of_holdsExactly
    (adds_validate amountRequired none [.validate (), .change (some 5)] ()) h.exact
  obtain ⟨cv, hcv, -⟩ := hrenewed.again ⟨"amount", "may not be null"⟩ (by decide)
  exact absurd hcv List.not_mem_nil

end InsightsAssist.AbstractForm
