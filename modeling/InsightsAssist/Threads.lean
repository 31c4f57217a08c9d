import Mathlib.Data.List.Basic

/-! Lists of threads: one of them moves on, or a new one is started at the end. -/
namespace InsightsAssist.Threads
variable {α : Type*} {xs : List α} {x y : α} {f : α → α} {t i : Nat}

theorem getElem?_modify_cases (h : (xs.modify t f)[i]? = some y) :
    (i = t ∧ ∃ x, xs[t]? = some x ∧ y = f x) ∨ (i ≠ t ∧ xs[i]? = some y) := by
  rw [List.getElem?_modify] at h
  by_cases hi : t = i
  · subst hi
    obtain ⟨x, hx, rfl⟩ := Option.map_eq_some_iff.mp h
    exact .inl ⟨rfl, x, hx, by simp⟩
  · exact .inr ⟨Ne.symm hi, by simpa [hi] using h⟩

theorem getElem?_concat_cases (h : (xs ++ [x])[i]? = some y) :
    xs[i]? = some y ∨ (i = xs.length ∧ y = x) := by
  rw [List.getElem?_append] at h
  split at h
  · exact .inl h
  · right
    obtain ⟨hlt, heq⟩ := List.getElem?_eq_some_iff.mp h
    rw [List.length_singleton] at hlt
    exact ⟨by omega, by simpa using heq.symm⟩

theorem map_modify {β : Type*} {g : α → β} (h : ∀ x, g (f x) = g x) :
    (xs.modify t f).map g = xs.map g := by
  apply List.ext_getElem?
  intro i
  simp only [List.getElem?_map, List.getElem?_modify]
  cases xs[i]? with
  | none => rfl
  | some x => by_cases hi : t = i <;> simp [hi, h]

end InsightsAssist.Threads
