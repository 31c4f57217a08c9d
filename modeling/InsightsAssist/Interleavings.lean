import Mathlib.Data.List.Basic

/-! Sequences of steps with the same parts: a key divides the steps, those of one key keep their
order, and those of different keys may be exchanged as far as an observer can tell. -/
namespace InsightsAssist.Interleavings
variable {σ α κ ω : Type*} [DecidableEq κ]

def part (key : α → κ) (k : κ) (l : List α) : List α := l.filter fun a => decide (key a = k)

def SameParts (key : α → κ) (l l' : List α) : Prop := ∀ k, part key k l = part key k l'

variable {key : α → κ} {l l' u v : List α} {a : α} {k : κ}

@[simp] theorem part_nil : part key k [] = [] := rfl

theorem part_cons_self : part key (key a) (a :: l) = a :: part key (key a) l := by simp [part]

theorem part_cons_of_ne (h : key a ≠ k) : part key k (a :: l) = part key k l := by simp [part, h]

theorem part_append : part key k (u ++ v) = part key k u ++ part key k v := List.filter_append ..

theorem part_eq_nil_iff : part key k l = [] ↔ ∀ a ∈ l, key a ≠ k := by simp [part]

theorem SameParts.cons (h : SameParts key l l') : SameParts key (a :: l) (a :: l') := by
  intro k
  by_cases hk : key a = k
  · subst hk
    rw [part_cons_self, part_cons_self, h]
  · rw [part_cons_of_ne hk, part_cons_of_ne hk, h]

theorem SameParts.of_cons (h : SameParts key (a :: l) (a :: l')) : SameParts key l l' := by
  intro k
  have hk := h k
  by_cases heq : key a = k
  · subst heq
    rw [part_cons_self, part_cons_self] at hk
    exact (List.cons.inj hk).2
  · rwa [part_cons_of_ne heq, part_cons_of_ne heq] at hk

theorem sameParts_move (h : ∀ b ∈ u, key b ≠ key a) :
    SameParts key (u ++ a :: v) (a :: (u ++ v)) := by
  intro k
  rw [part_append]
  by_cases hk : key a = k
  · subst hk
    rw [part_cons_self, part_cons_self, part_append, part_eq_nil_iff.mpr h]
    rfl
  · rw [part_cons_of_ne hk, part_cons_of_ne hk, part_append]

theorem exists_of_part_eq_cons {p : List α} (h : part key k l = a :: p) :
    ∃ u v, l = u ++ a :: v ∧ (∀ b ∈ u, key b ≠ k) ∧ key a = k := by
  induction l with
  | nil => cases h
  | cons b l ih =>
    by_cases hb : key b = k
    · subst hb
      rw [part_cons_self] at h
      obtain ⟨rfl, _⟩ := List.cons.inj h
      exact ⟨[], l, rfl, by simp, rfl⟩
    · rw [part_cons_of_ne hb] at h
      obtain ⟨u, v, rfl, hu, ha⟩ := ih h
      refine ⟨b :: u, v, rfl, fun c hc => ?_, ha⟩
      obtain rfl | hc := List.mem_cons.mp hc
      · exact hb
      · exact hu c hc

/-- The steps of different keys commute for the observer, wherever the steps that are still to come
are admissible. -/
structure Commutes (f : σ → α → σ) (obs : σ → ω) (key : α → κ) (Ok : ω → List α → Prop) : Prop where
  congr : ∀ s s' a, obs s = obs s' → obs (f s a) = obs (f s' a)
  tail : ∀ s a l, Ok (obs s) (a :: l) → Ok (obs (f s a)) l
  perm : ∀ o l l', SameParts key l l' → Ok o l → Ok o l'
  swap : ∀ s a b l, key a ≠ key b → Ok (obs s) (a :: b :: l) →
    obs (f (f s a) b) = obs (f (f s b) a)

namespace Commutes
variable {f : σ → α → σ} {obs : σ → ω} {Ok : ω → List α → Prop} {s s' : σ}

theorem foldl_congr (hf : Commutes f obs key Ok) (h : obs s = obs s') (l : List α) :
    obs (l.foldl f s) = obs (l.foldl f s') := by
  induction l generalizing s s' with
  | nil => exact h
  | cons a l ih => exact ih (hf.congr s s' a h)

theorem foldl_move (hf : Commutes f obs key Ok) (hu : ∀ b ∈ u, key b ≠ key a)
    (hok : Ok (obs s) (u ++ a :: v)) :
    obs ((u ++ a :: v).foldl f s) = obs ((a :: (u ++ v)).foldl f s) := by
  induction u generalizing s with
  | nil => rfl
  | cons b u ih =>
    have hu' : ∀ c ∈ u, key c ≠ key a := fun c hc => hu c (List.mem_cons_of_mem b hc)
    have hb : key b ≠ key a := hu b List.mem_cons_self
    have hmoved : Ok (obs s) (b :: a :: (u ++ v)) :=
      hf.perm _ _ _ (sameParts_move hu').cons hok
    calc obs ((u ++ a :: v).foldl f (f s b))
        = obs ((u ++ v).foldl f (f (f s b) a)) := ih hu' (hf.tail s b _ hok)
      _ = obs ((u ++ v).foldl f (f (f s a) b)) :=
          hf.foldl_congr (hf.swap s b a _ hb hmoved) _

/-- Sequences with the same parts lead to states that look the same. -/
theorem foldl_eq (hf : Commutes f obs key Ok) (h : SameParts key l l') (hok : Ok (obs s) l) :
    obs (l.foldl f s) = obs (l'.foldl f s) := by
  induction l generalizing s l' with
  | nil =>
    cases l' with
    | nil => rfl
    | cons b l' =>
      have hpart := h (key b)
      rw [part_cons_self] at hpart
      cases hpart
  | cons a l ih =>
    have hpart := (h (key a)).symm
    rw [part_cons_self] at hpart
    obtain ⟨u, v, rfl, hu, _⟩ := exists_of_part_eq_cons hpart
    have hrest : SameParts key l (u ++ v) := by
      apply SameParts.of_cons
      intro k
      rw [h k, sameParts_move hu k]
    calc obs (l.foldl f (f s a))
        = obs ((u ++ v).foldl f (f s a)) := ih hrest (hf.tail s a l hok)
      _ = obs ((u ++ a :: v).foldl f s) := (hf.foldl_move hu (hf.perm _ _ _ h hok)).symm

end Commutes
end InsightsAssist.Interleavings
