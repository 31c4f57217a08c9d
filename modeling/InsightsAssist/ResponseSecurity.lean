import Mathlib.Data.List.Infix
import InsightsAssist.Java

/-! The filter that should keep line breaks in parameters from reaching a response. -/
namespace InsightsAssist.ResponseSecurityFilter

/-- The values of a parameter may be missing, and so may one of them. -/
structure Parameter where
  name : List Char
  values : Option (List (Option (List Char)))
  deriving DecidableEq, Repr

structure State where
  logged : List (List Char)
  error : Option Nat
  forwarded : Bool
  deriving DecidableEq, Repr

def start : State := ⟨[], none, false⟩

def SC_BAD_REQUEST : Nat := 400

def containsIllicitCharacters : Option (List Char) → Bool
  | none => false
  | some string => !string.isEmpty &&
      (decide ("%0d".toList <:+: string) || decide ("%0a".toList <:+: string))

def reject (name : List Char) (s : State) : State :=
  { s with
    logged := s.logged ++ ["[ResponseSecurityFilter] Rejecting request as parameter ".toList ++
      name ++ " contains restricted characters.".toList]
    error := some SC_BAD_REQUEST }

/-- None once the request is rejected. -/
def checkValues (name : List Char) : List (Option (List Char)) → State → Option State
  | [], _ => none
  | aValue :: values, s =>
    if containsIllicitCharacters aValue then some (reject name s) else checkValues name values s

def doFilter : List Parameter → State → State
  | [], s => { s with forwarded := true }
  | parameter :: allParameters, s =>
    match parameter.values with
    | none | some [] => doFilter allParameters s
    | some values =>
      match checkValues parameter.name values s with
      | some rejected => rejected
      | none => doFilter allParameters s

def strings (parameters : List Parameter) : List (List Char) :=
  parameters.flatMap fun parameter => (parameter.values.getD []).filterMap id

/-- A carriage return or line feed, raw or percent-encoded in any case. -/
def BreaksLine (string : List Char) : Prop :=
  '\r' ∈ string ∨ '\n' ∈ string ∨ ∃ c ∈ ['d', 'D', 'a', 'A'], ['%', '0', c] <:+: string

/-- One of the two spellings that are looked for. -/
def Spelled (string : List Char) : Prop :=
  "%0d".toList <:+: string ∨ "%0a".toList <:+: string

/-- The request is passed on if no value breaks a line, and rejected otherwise. -/
def Guarded (parameters : List Parameter) : Prop :=
  ((∀ string ∈ strings parameters, ¬BreaksLine string) →
    (doFilter parameters start).forwarded = true ∧ (doFilter parameters start).error = none) ∧
  ((∃ string ∈ strings parameters, BreaksLine string) →
    (doFilter parameters start).forwarded = false ∧
      (doFilter parameters start).error = some SC_BAD_REQUEST)

variable {parameters : List Parameter} {s : State} {name string : List Char}

theorem containsIllicitCharacters_some :
    containsIllicitCharacters (some string) ↔ Spelled string := by
  unfold containsIllicitCharacters Spelled
  cases string with
  | nil => simp
  | cons c cs => simp

theorem breaksLine_of_spelled (h : Spelled string) : BreaksLine string :=
  .inr (.inr (h.elim (fun h => ⟨'d', by simp, h⟩) fun h => ⟨'a', by simp, h⟩))

theorem checkValues_none {values : List (Option (List Char))}
    (h : ∀ string ∈ values.filterMap id, ¬Spelled string) : checkValues name values s = none := by
  induction values with
  | nil => rfl
  | cons aValue values ih =>
    cases aValue with
    | none => exact ih h
    | some string =>
      have hstring : containsIllicitCharacters (some string) = false := by
        rw [Bool.eq_false_iff, ne_eq, containsIllicitCharacters_some]
        exact h string (by simp)
      rw [checkValues, hstring]
      exact ih fun other hother => h other (List.mem_cons_of_mem _ hother)

theorem checkValues_some {values : List (Option (List Char))}
    (h : ∃ string ∈ values.filterMap id, Spelled string) :
    checkValues name values s = some (reject name s) := by
  induction values with
  | nil => simp at h
  | cons aValue values ih =>
    rw [checkValues]
    split
    · rfl
    · rename_i hclear
      obtain ⟨string, hstring, hspelled⟩ := h
      refine ih ⟨string, ?_, hspelled⟩
      cases aValue with
      | none => exact hstring
      | some other =>
        rcases List.mem_cons.mp hstring with rfl | hstring
        · exact absurd (containsIllicitCharacters_some.mpr hspelled) hclear
        · exact hstring

theorem doFilter_cons (parameter : Parameter) (parameters : List Parameter) (s : State) :
    doFilter (parameter :: parameters) s =
      (checkValues parameter.name (parameter.values.getD []) s).getD (doFilter parameters s) := by
  obtain ⟨name, _ | _ | ⟨aValue, values⟩⟩ := parameter
  · rfl
  · rfl
  · simp only [doFilter, Option.getD_some]
    cases checkValues name (aValue :: values) s <;> rfl

theorem doFilter_forwards (h : ∀ string ∈ strings parameters, ¬Spelled string) (s : State) :
    doFilter parameters s = { s with forwarded := true } := by
  induction parameters with
  | nil => rfl
  | cons parameter parameters ih =>
    rw [strings, List.flatMap_cons] at h
    rw [doFilter_cons,
      checkValues_none fun string hstring => h string (List.mem_append_left _ hstring)]
    exact ih fun string hstring => h string (List.mem_append_right _ hstring)

theorem doFilter_rejects (h : ∃ string ∈ strings parameters, Spelled string) (s : State) :
    ∃ name, doFilter parameters s = reject name s := by
  induction parameters with
  | nil => simp [strings] at h
  | cons parameter parameters ih =>
    rw [doFilter_cons]
    by_cases hfound : ∃ string ∈ (parameter.values.getD []).filterMap id, Spelled string
    · rw [checkValues_some hfound]
      exact ⟨parameter.name, rfl⟩
    · rw [checkValues_none (by simpa only [not_exists, not_and] using hfound)]
      refine ih ?_
      obtain ⟨string, hstring, hspelled⟩ := h
      rw [strings, List.flatMap_cons] at hstring
      rcases List.mem_append.mp hstring with hstring | hstring
      · exact absurd ⟨string, hstring, hspelled⟩ hfound
      · exact ⟨string, hstring, hspelled⟩

theorem doFilter_guarded_iff (parameters : List Parameter) : Guarded parameters ↔
    (∀ string ∈ strings parameters, ¬BreaksLine string) ∨
      ∃ string ∈ strings parameters, Spelled string := by
  constructor
  · rintro ⟨-, hrejects⟩
    by_cases hbreaks : ∃ string ∈ strings parameters, BreaksLine string
    · right
      by_contra hspelled
      have hforwards : doFilter parameters start = { start with forwarded := true } :=
        doFilter_forwards (by simpa only [not_exists, not_and] using hspelled) start
      have hrejected := (hrejects hbreaks).1
      rw [hforwards] at hrejected
      cases hrejected
    · exact .inl (by simpa only [not_exists, not_and] using hbreaks)
  · rintro (hclean | hspelled)
    · have hforwards : doFilter parameters start = { start with forwarded := true } :=
        doFilter_forwards (fun string hstring hspelled =>
          hclean string hstring (breaksLine_of_spelled hspelled)) start
      refine ⟨fun _ => by rw [hforwards]; exact ⟨rfl, rfl⟩, ?_⟩
      rintro ⟨string, hstring, hbreaks⟩
      exact absurd hbreaks (hclean string hstring)
    · obtain ⟨name, hrejects⟩ := doFilter_rejects hspelled start
      refine ⟨?_, fun _ => by rw [hrejects]; exact ⟨rfl, rfl⟩⟩
      obtain ⟨string, hstring, hspelled⟩ := hspelled
      exact fun hclean => absurd (breaksLine_of_spelled hspelled) (hclean string hstring)

def capitalised : List Parameter := [⟨"next".toList, some [some "/ia%0DSet-Cookie:a=b".toList]⟩]

theorem capitalised_not_guarded : ¬Guarded capitalised := by
  intro h
  have hrejected := (h.2 ⟨_, List.mem_singleton_self _, .inr (.inr ⟨'D', by decide, by decide⟩)⟩).1
  exact absurd hrejected (by decide)

end InsightsAssist.ResponseSecurityFilter
