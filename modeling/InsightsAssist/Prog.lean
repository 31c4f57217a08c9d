import Mathlib.Logic.Basic

/-! Computations over a state that may throw: a throw keeps the state it was reached in,
and a handler starts from there. -/
namespace InsightsAssist

def Prog (ε σ α : Type) : Type := σ → Except ε α × σ

namespace Prog
variable {ε σ α β : Type}

def run (m : Prog ε σ α) (s : σ) : Except ε α × σ := m s

def ret (a : α) : Prog ε σ α := fun s => (.ok a, s)

def andThen (m : Prog ε σ α) (f : α → Prog ε σ β) : Prog ε σ β := fun s =>
  match m s with
  | (.ok a, t) => f a t
  | (.error e, t) => (.error e, t)

instance : Monad (Prog ε σ) where
  pure := ret
  bind := andThen

instance : MonadExceptOf ε (Prog ε σ) where
  throw e := fun s => (.error e, s)
  tryCatch m handler := fun s =>
    match m s with
    | (.ok a, t) => (.ok a, t)
    | (.error e, t) => handler e t

instance : MonadStateOf σ (Prog ε σ) where
  get := fun s => (.ok s, s)
  set t := fun _ => (.ok ⟨⟩, t)
  modifyGet f := fun s => let r := f s; (.ok r.1, r.2)

def zoom {τ : Type} (part : σ → τ) (put : τ → σ → σ) (m : Prog ε τ α) : Prog ε σ α := fun s =>
  let r := m (part s)
  (r.1, put r.2 s)

@[simp] theorem run_pure (a : α) (s : σ) : (pure a : Prog ε σ α).run s = (.ok a, s) := rfl

theorem run_bind (m : Prog ε σ α) (f : α → Prog ε σ β) (s : σ) :
    (m >>= f).run s = match m.run s with
      | (.ok a, t) => (f a).run t
      | (.error e, t) => (.error e, t) := rfl

@[simp] theorem run_bind_ok {m : Prog ε σ α} {s t : σ} {a : α} (h : m.run s = (.ok a, t))
    (f : α → Prog ε σ β) : (m >>= f).run s = (f a).run t := by
  rw [run_bind, h]

@[simp] theorem run_bind_error {m : Prog ε σ α} {s t : σ} {e : ε} (h : m.run s = (.error e, t))
    (f : α → Prog ε σ β) : (m >>= f).run s = (.error e, t) := by
  rw [run_bind, h]

theorem bind_assoc {γ : Type} (m : Prog ε σ α) (f : α → Prog ε σ β) (g : β → Prog ε σ γ) :
    m >>= f >>= g = m >>= fun a => f a >>= g := by
  funext s
  change ((m >>= f) >>= g).run s = (m >>= fun a => f a >>= g).run s
  simp only [run_bind]
  obtain ⟨e | a, t⟩ := m.run s <;> rfl

theorem run_bind_eq_ok {m : Prog ε σ α} {f : α → Prog ε σ β} {s t : σ} {b : β} :
    (m >>= f).run s = (.ok b, t) ↔
      ∃ a u, m.run s = (.ok a, u) ∧ (f a).run u = (.ok b, t) := by
  rw [run_bind]
  constructor
  · intro h
    split at h
    · exact ⟨_, _, ‹_›, h⟩
    · cases h
  · rintro ⟨a, u, hm, hf⟩
    rw [hm]
    exact hf

@[simp] theorem run_throw (e : ε) (s : σ) : (throw e : Prog ε σ α).run s = (.error e, s) := rfl

@[simp] theorem run_get (s : σ) : (get : Prog ε σ σ).run s = (.ok s, s) := rfl

@[simp] theorem run_set (t s : σ) : (set t : Prog ε σ PUnit).run s = (.ok ⟨⟩, t) := rfl

@[simp] theorem run_modify (f : σ → σ) (s : σ) :
    (modify f : Prog ε σ PUnit).run s = (.ok ⟨⟩, f s) := rfl

theorem run_tryCatch (m : Prog ε σ α) (handler : ε → Prog ε σ α) (s : σ) :
    (tryCatch m handler).run s = match m.run s with
      | (.ok a, t) => (.ok a, t)
      | (.error e, t) => (handler e).run t := rfl

theorem run_tryCatch_eq_ok {m : Prog ε σ α} {handler : ε → Prog ε σ α} {s t : σ} {a : α} :
    (tryCatch m handler).run s = (.ok a, t) ↔ m.run s = (.ok a, t) ∨
      ∃ e u, m.run s = (.error e, u) ∧ (handler e).run u = (.ok a, t) := by
  rw [run_tryCatch]
  obtain ⟨e | b, u⟩ := m.run s
  · simp [and_assoc]
  · simp

theorem run_zoom {τ : Type} (part : σ → τ) (put : τ → σ → σ) (m : Prog ε τ α) (s : σ) :
    (zoom part put m).run s = ((m.run (part s)).1, put (m.run (part s)).2 s) := rfl

@[simp] theorem run_ite (c : Prop) [Decidable c] (m n : Prog ε σ α) (s : σ) :
    (if c then m else n).run s = if c then m.run s else n.run s := by
  split <;> rfl

/-- A property of the state that the computation keeps, whether it returns or throws. -/
def Keeps (P : σ → Prop) (m : Prog ε σ α) : Prop := ∀ s, P s → P (m.run s).2

theorem Keeps.bind {P : σ → Prop} {m : Prog ε σ α} {f : α → Prog ε σ β}
    (hm : Keeps P m) (hf : ∀ a, Keeps P (f a)) : Keeps P (m >>= f) := by
  intro s hs
  have h := hm s hs
  rw [run_bind]
  cases hr : m.run s with
  | mk r t =>
    rw [hr] at h
    cases r with
    | ok a => exact hf a t h
    | error e => exact h

theorem Keeps.pure {P : σ → Prop} (a : α) : Keeps P (pure a : Prog ε σ α) := fun _ hs => hs

theorem Keeps.throw {P : σ → Prop} (e : ε) : Keeps P (throw e : Prog ε σ α) := fun _ hs => hs

theorem Keeps.modify {P : σ → Prop} {f : σ → σ} (h : ∀ s, P s → P (f s)) :
    Keeps P (modify f : Prog ε σ PUnit) := h

theorem Keeps.ite {P : σ → Prop} {c : Prop} [Decidable c] {m n : Prog ε σ α}
    (hm : Keeps P m) (hn : Keeps P n) : Keeps P (if c then m else n) := by
  split
  · exact hm
  · exact hn

/-- From `P` the computation returns with `Q` or throws with `E`. -/
def Triple (P : σ → Prop) (m : Prog ε σ α) (Q : α → σ → Prop) (E : σ → Prop) : Prop :=
  ∀ s, P s → match m.run s with
    | (.ok a, t) => Q a t
    | (.error _, t) => E t

section Triple
variable {P P' : σ → Prop} {Q Q' : α → σ → Prop} {R : β → σ → Prop} {E E' : σ → Prop}

theorem Triple.bind {m : Prog ε σ α} {f : α → Prog ε σ β} (hm : Triple P m Q E)
    (hf : ∀ a, Triple (Q a) (f a) R E) : Triple P (m >>= f) R E := by
  intro s hs
  have h := hm s hs
  rw [run_bind]
  rcases hr : m.run s with ⟨e | a, t⟩ <;> rw [hr] at h
  · exact h
  · exact hf a t h

theorem Triple.pure {a : α} (h : ∀ s, P s → Q a s) : Triple P (pure a : Prog ε σ α) Q E := h

theorem Triple.consequence {m : Prog ε σ α} (hm : Triple P m Q E) (hP : ∀ s, P' s → P s)
    (hQ : ∀ a s, Q a s → Q' a s) (hE : ∀ s, E s → E' s) : Triple P' m Q' E' := by
  intro s hs
  have h := hm s (hP s hs)
  rcases hr : m.run s with ⟨e | a, t⟩ <;> rw [hr] at h
  · exact hE t h
  · exact hQ a t h

theorem Triple.ite {c : Prop} [Decidable c] {m n : Prog ε σ α} (hm : c → Triple P m Q E)
    (hn : ¬ c → Triple P n Q E) : Triple P (if c then m else n) Q E := by
  split
  · exact hm ‹_›
  · exact hn ‹_›

theorem Triple.tryCatch {m : Prog ε σ α} {handler : ε → Prog ε σ α} (hm : Triple P m Q E')
    (hh : ∀ e, Triple E' (handler e) Q E) : Triple P (tryCatch m handler) Q E := by
  intro s hs
  have h := hm s hs
  rw [run_tryCatch]
  rcases hr : m.run s with ⟨e | a, t⟩ <;> rw [hr] at h
  · exact hh e t h
  · exact h

end Triple
end Prog
end InsightsAssist
