import Mathlib.Logic.Function.Basic
import InsightsAssist.Runs

/-! Threads that read and write the fields of one object without a lock, each by a program of its
own. A thread that never reads what another one has written ends as it would alone. -/
namespace InsightsAssist.SharedFields
open Runs

/-- What remains to be done by a thread. -/
inductive Program {F : Type} (V : F → Type) (ρ : Type) where
  | done (result : ρ)
  | read (f : F) (next : V f → Program V ρ)
  | write (f : F) (v : V f) (next : Program V ρ)

variable {F : Type} {V : F → Type} {ρ ρ' : Type}

namespace Program

def bind : Program V ρ → (ρ → Program V ρ') → Program V ρ'
  | done result, k => k result
  | read f next, k => read f fun v => (next v).bind k
  | write f v next, k => write f v (next.bind k)

instance : Monad (Program V) where
  pure := done
  bind := bind

def get (f : F) : Program V (V f) := read f done

def set (f : F) (v : V f) : Program V Unit := write f v (done ())

def result? : Program V ρ → Option ρ
  | done result => some result
  | read _ _ | write _ _ _ => none

theorem result?_eq_some {p : Program V ρ} {result : ρ} :
    p.result? = some result ↔ p = done result := by
  cases p <;> simp [result?]

/-- The result of a thread that has the fields for itself, and what it leaves in them. -/
def alone [DecidableEq F] : Program V ρ → ((f : F) → V f) → ρ × ((f : F) → V f)
  | done result, fields => (result, fields)
  | read f next, fields => (next (fields f)).alone fields
  | write f v next, fields => next.alone (Function.update fields f v)

/-- Whatever values of `I` the thread reads, it writes values of `I` and ends with a result of
`Q`. -/
def Keeps (I : (f : F) → V f → Prop) (Q : ρ → Prop) : Program V ρ → Prop
  | done result => Q result
  | read f next => ∀ v, I f v → (next v).Keeps I Q
  | write f v next => I f v ∧ next.Keeps I Q

section
variable {I : (f : F) → V f → Prop} {Q : ρ → Prop} {Q' : ρ' → Prop} {f : F} {v : V f}
  {fields : (f : F) → V f}

theorem Keeps.bind {p : Program V ρ} {k : ρ → Program V ρ'} (h : p.Keeps I Q)
    (hk : ∀ result, Q result → (k result).Keeps I Q') : (p >>= k).Keeps I Q' := by
  show (p.bind k).Keeps I Q'
  induction p with
  | done result => exact hk result h
  | read f next ih => exact fun v hv => ih v (h v hv)
  | write f v next ih => exact ⟨h.1, ih h.2⟩

theorem keeps_get : (get f).Keeps I (I f) := fun _ hv => hv

theorem keeps_set (h : I f v) : (set f v).Keeps I fun _ => True := ⟨h, trivial⟩

variable [DecidableEq F]

@[simp] theorem alone_pure (result : ρ) :
    (pure result : Program V ρ).alone fields = (result, fields) := rfl

end

end Program

structure State {F : Type} (V : F → Type) (ι ρ : Type) where
  fields : (f : F) → V f
  threads : ι → Program V ρ

variable {ι : Type} [DecidableEq F] [DecidableEq ι]

def step (s : State V ι ρ) (t : ι) : Option (State V ι ρ) :=
  match s.threads t with
  | .done _ => none
  | .read f next => some { s with threads := Function.update s.threads t (next (s.fields f)) }
  | .write f v next =>
    some ⟨Function.update s.fields f v, Function.update s.threads t next⟩

def observe (s : State V ι ρ) (writers : F → Option ι) (t : ι) : F → Option ι :=
  match s.threads t with
  | .write f _ _ => Function.update writers f (some t)
  | .done _ | .read _ _ => writers

def writers (s : State V ι ρ) (h : List ι) : F → Option ι :=
  observation step observe s (fun _ => none) h

/-- What comes next is no read of a field that another thread has written last. -/
def readsOwn (t : ι) (writers : F → Option ι) : Program V ρ → Bool
  | .read f _ => (writers f).all (· = t)
  | .done _ | .write _ _ _ => true

def Undisturbed (s₀ : State V ι ρ) (t : ι) (h : List ι) (s : State V ι ρ) (a : ι) : Prop :=
  a = t → readsOwn t (writers s₀ h) (s.threads t)

instance (s₀ : State V ι ρ) (t : ι) (h : List ι) (s : State V ι ρ) (a : ι) :
    Decidable (Undisturbed s₀ t h s a) := by
  unfold Undisturbed
  infer_instance

variable {s₀ s s' : State V ι ρ} {t a : ι} {h : List ι} {cond : List ι → State V ι ρ → ι → Prop}
  {r : ρ}

theorem step_cases (hs : step s a = some s') :
    (∃ f next, s.threads a = .read f next ∧
      s' = { s with threads := Function.update s.threads a (next (s.fields f)) }) ∨
    ∃ f v next, s.threads a = .write f v next ∧
      s' = ⟨Function.update s.fields f v, Function.update s.threads a next⟩ := by
  cases hp : s.threads a with
  | done result => simp only [step, hp, reduceCtorEq] at hs
  | read f next =>
    simp only [step, hp, Option.some.injEq] at hs
    exact .inl ⟨f, next, rfl, hs.symm⟩
  | write f v next =>
    simp only [step, hp, Option.some.injEq] at hs
    exact .inr ⟨f, v, next, rfl, hs.symm⟩

theorem writers_snoc (hr : Run step cond s₀ h s) (hs : step s a = some s') :
    writers s₀ (h ++ [a]) = observe s (writers s₀ h) a :=
  observation_snoc hr.exec_eq hs

/-- The thread is where it would be alone, with the fields as `fields`: those that no other thread
has written last. -/
structure Follows (s₀ : State V ι ρ) (t : ι) (h : List ι) (s : State V ι ρ)
    (fields : (f : F) → V f) : Prop where
  result : (s.threads t).alone fields = (s₀.threads t).alone s₀.fields
  own : ∀ f, (writers s₀ h f).all (· = t) → fields f = s.fields f

theorem Follows.step {fields : (f : F) → V f} (hf : Follows s₀ t h s fields)
    (hr : Run SharedFields.step cond s₀ h s) (hc : Undisturbed s₀ t h s a)
    (hs : SharedFields.step s a = some s') : ∃ fields, Follows s₀ t (h ++ [a]) s' fields := by
  have hwriters := writers_snoc hr hs
  rcases step_cases hs with ⟨f, next, hp, rfl⟩ | ⟨f, v, next, hp, rfl⟩
  · have hsame : writers s₀ (h ++ [a]) = writers s₀ h := by rw [hwriters, observe, hp]
    refine ⟨fields, ?_, fun g hg => hf.own g (hsame ▸ hg)⟩
    by_cases ha : a = t
    · subst ha
      have hresult := hf.result
      rw [hp] at hresult
      have hown := hc rfl
      rw [hp] at hown
      simp only [Function.update_self, ← hf.own f hown]
      exact hresult
    · simp only [Function.update_of_ne (Ne.symm ha)]
      exact hf.result
  · have hnew : writers s₀ (h ++ [a]) = Function.update (writers s₀ h) f (some a) := by
      rw [hwriters, observe, hp]
    by_cases ha : a = t
    · subst ha
      have hresult := hf.result
      rw [hp] at hresult
      refine ⟨Function.update fields f v, ?_, fun g hg => ?_⟩
      · simp only [Function.update_self]
        exact hresult
      · by_cases hgf : g = f
        · subst hgf
          simp
        · rw [hnew, Function.update_of_ne hgf] at hg
          simp only [Function.update_of_ne hgf, hf.own g hg]
    · refine ⟨fields, ?_, fun g hg => ?_⟩
      · simp only [Function.update_of_ne (Ne.symm ha)]
        exact hf.result
      · by_cases hgf : g = f
        · subst hgf
          rw [hnew, Function.update_self, Option.all_some, decide_eq_true_eq] at hg
          exact (ha hg).elim
        · rw [hnew, Function.update_of_ne hgf] at hg
          simp only [Function.update_of_ne hgf, hf.own g hg]

/-- What every program relies on and keeps holds of the fields after every run, and each result is
one the program may have. -/
theorem keeps_run {I : (f : F) → V f → Prop} {Q : ι → ρ → Prop} (hfields : ∀ f, I f (s₀.fields f))
    (hthreads : ∀ t, (s₀.threads t).Keeps I (Q t)) (hr : Run step cond s₀ h s) :
    (∀ f, I f (s.fields f)) ∧ ∀ t, (s.threads t).Keeps I (Q t) := by
  induction hr with
  | nil => exact ⟨hfields, hthreads⟩
  | @snoc h s s' a _ _ hs ih =>
    obtain ⟨hI, hQ⟩ := ih
    have hother {p : Program V ρ} (hp : p.Keeps I (Q a)) :
        ∀ t, (Function.update s.threads a p t).Keeps I (Q t) := by
      intro t
      by_cases ht : t = a
      · subst ht
        simpa using hp
      · rw [Function.update_of_ne ht]
        exact hQ t
    have hown := hQ a
    rcases step_cases hs with ⟨f, next, hp, rfl⟩ | ⟨f, v, next, hp, rfl⟩
    · rw [hp] at hown
      exact ⟨hI, hother (hown _ (hI f))⟩
    · rw [hp] at hown
      refine ⟨fun g => ?_, hother hown.2⟩
      by_cases hg : g = f
      · subst hg
        simpa using hown.1
      · simpa [Function.update_of_ne hg] using hI g

/-! ### Given runs -/

theorem run_of_result? (hr : (exec step s₀ h).bind (fun s => (s.threads t).result?) = some r) :
    ∃ s, Run step AnyStep s₀ h s ∧ s.threads t = .done r := by
  obtain ⟨s, hs, hresult⟩ := Option.bind_eq_some_iff.mp hr
  exact ⟨s, run_anyStep_iff.mpr hs, Program.result?_eq_some.mp hresult⟩

end InsightsAssist.SharedFields
