import Mathlib.Data.List.Induction

/-! Runs of a labelled partial step function. The history grows at its end, so that
an invariant and a condition on the steps may speak of everything done so far. -/
namespace InsightsAssist.Runs
variable {σ τ α : Type*}

/-- `h` leads from `s₀` to the last index, each of its steps meeting `cond`. -/
inductive Run (step : σ → α → Option σ) (cond : List α → σ → α → Prop) (s₀ : σ) :
    List α → σ → Prop
  | nil : Run step cond s₀ [] s₀
  | snoc {h : List α} {s s' : σ} {a : α} :
      Run step cond s₀ h s → cond h s a → step s a = some s' → Run step cond s₀ (h ++ [a]) s'

def AnyStep : List α → σ → α → Prop := fun _ _ _ => True

def total (f : σ → α → σ) : σ → α → Option σ := fun s a => some (f s a)

def exec (step : σ → α → Option σ) : σ → List α → Option σ
  | s, [] => some s
  | s, a :: as => (step s a).bind fun s' => exec step s' as

variable {step : σ → α → Option σ} {cond : List α → σ → α → Prop} {s₀ s : σ} {h : List α}

/-- What holds at the start and is kept by each step holds after every run. -/
theorem Run.invariant (Inv : List α → σ → Prop) (init : Inv [] s₀)
    (keep : ∀ h s a s', Run step cond s₀ h s → Inv h s → cond h s a → step s a = some s' →
      Inv (h ++ [a]) s')
    (hr : Run step cond s₀ h s) : Inv h s := by
  induction hr with
  | nil => exact init
  | snoc hr hc hs ih => exact keep _ _ _ _ hr ih hc hs

theorem Run.weaken {cond' : List α → σ → α → Prop}
    (himp : ∀ h s a s', step s a = some s' → cond h s a → cond' h s a)
    (hr : Run step cond s₀ h s) : Run step cond' s₀ h s := by
  induction hr with
  | nil => exact .nil
  | snoc _ hc hs ih => exact .snoc ih (himp _ _ _ _ hs hc) hs

/-- Under an invariant that the steps keep, a condition that implies another one may be weakened
to it. -/
theorem Run.weaken_of_invariant {cond' : List α → σ → α → Prop} (Inv : List α → σ → Prop)
    (init : Inv [] s₀)
    (keep : ∀ h s a s', Run step cond s₀ h s → Inv h s → cond h s a → step s a = some s' →
      Inv (h ++ [a]) s')
    (himp : ∀ h s a s', Inv h s → step s a = some s' → cond h s a → cond' h s a)
    (hr : Run step cond s₀ h s) : Run step cond' s₀ h s := by
  have hboth : Inv h s ∧ Run step cond' s₀ h s := by
    refine Run.invariant (fun h s => Inv h s ∧ Run step cond' s₀ h s) ⟨init, .nil⟩ ?_ hr
    intro h s a s' hr ⟨hinv, hr'⟩ hc hs
    exact ⟨keep h s a s' hr hinv hc hs, .snoc hr' (himp h s a s' hinv hs hc) hs⟩
  exact hboth.2

/-- A relation kept by matching steps relates the ends of matching runs. -/
theorem Run.simulates {step' : τ → α → Option τ} {t₀ : τ} (R : σ → τ → Prop) (init : R s₀ t₀)
    (sim : ∀ h s t a s', R s t → cond h s a → step s a = some s' →
      ∃ t', step' t a = some t' ∧ R s' t')
    (hr : Run step cond s₀ h s) : ∃ t, Run step' AnyStep t₀ h t ∧ R s t := by
  induction hr with
  | nil => exact ⟨t₀, .nil, init⟩
  | snoc _ hc hs ih =>
    obtain ⟨t, ht, hR⟩ := ih
    obtain ⟨t', hs', hR'⟩ := sim _ _ _ _ _ hR hc hs
    exact ⟨t', .snoc ht trivial hs', hR'⟩

/-- A part of the system that each step leaves alone or moves on by a step of its own has runs of
its own. -/
theorem Run.project {β : Type*} {step' : τ → β → Option τ} {cond' : List β → τ → β → Prop}
    (part : σ → τ) (label : α → Option β)
    (own : ∀ h s a s', cond h s a → step s a = some s' →
      (label a = none ∧ part s' = part s) ∨
        ∃ b, label a = some b ∧ cond' (h.filterMap label) (part s) b ∧
          step' (part s) b = some (part s'))
    (hr : Run step cond s₀ h s) : Run step' cond' (part s₀) (h.filterMap label) (part s) := by
  induction hr with
  | nil => exact .nil
  | snoc _ hc hs ih =>
    rw [List.filterMap_append]
    rcases own _ _ _ _ hc hs with ⟨hlabel, hpart⟩ | ⟨b, hlabel, hc', hs'⟩
    · rw [List.filterMap_cons_none hlabel, List.filterMap_nil, List.append_nil, hpart]
      exact ih
    · rw [List.filterMap_cons_some hlabel, List.filterMap_nil]
      exact .snoc ih hc' hs'

theorem exec_append (s : σ) (u v : List α) :
    exec step s (u ++ v) = (exec step s u).bind fun s' => exec step s' v := by
  induction u generalizing s with
  | nil => rfl
  | cons a u ih =>
    simp only [List.cons_append, exec]
    cases step s a with
    | none => rfl
    | some s' => exact ih s'

theorem Run.exec_eq (hr : Run step cond s₀ h s) : exec step s₀ h = some s := by
  induction hr with
  | nil => rfl
  | snoc _ _ hs ih => simp [exec_append, ih, exec, hs]

theorem run_of_exec (hc : ∀ pre a post t, h = pre ++ a :: post → exec step s₀ pre = some t →
      cond pre t a)
    (he : exec step s₀ h = some s) : Run step cond s₀ h s := by
  induction h using List.reverseRecOn generalizing s with
  | nil => cases he; exact .nil
  | append_singleton h a ih =>
    rw [exec_append] at he
    obtain ⟨t, ht, hs⟩ := Option.bind_eq_some_iff.mp he
    have hrun : Run step cond s₀ h t := by
      refine ih (fun pre b post u hh hu => ?_) ht
      exact hc pre b (post ++ [a]) u (by simp [hh]) hu
    refine .snoc hrun (hc h a [] t (by simp) ht) ?_
    simpa [exec] using hs

theorem run_anyStep_iff : Run step AnyStep s₀ h s ↔ exec step s₀ h = some s :=
  ⟨Run.exec_eq, run_of_exec fun _ _ _ _ _ _ => trivial⟩

theorem Run.snoc_iff {a : α} {s' : σ} (he : exec step s₀ h = some s) (hs : step s a = some s') :
    Run step cond s₀ (h ++ [a]) s' ↔ Run step cond s₀ h s ∧ cond h s a := by
  constructor
  · intro hr
    generalize hlast : h ++ [a] = h' at hr
    cases hr with
    | nil => simp at hlast
    | snoc hr hc _ =>
      obtain ⟨hsame, hlast⟩ := List.append_inj' hlast rfl
      cases hlast
      subst hsame
      have hstate := hr.exec_eq
      rw [he] at hstate
      cases hstate
      exact ⟨hr, hc⟩
  · intro ⟨hr, hc⟩
    exact .snoc hr hc hs

/-- What an observer holds after the labels that can be followed. He sees each label in the state
that it is taken in. -/
def observation {ω : Type*} (step : σ → α → Option σ) (observe : σ → ω → α → ω) :
    σ → ω → List α → ω
  | _, o, [] => o
  | s, o, a :: as =>
    match step s a with
    | some s' => observation step observe s' (observe s o a) as
    | none => o

theorem observation_snoc {ω : Type*} {observe : σ → ω → α → ω} {s s' t : σ} {o : ω} {h : List α}
    {a : α} (he : exec step s h = some t) (hs : step t a = some s') :
    observation step observe s o (h ++ [a]) = observe t (observation step observe s o h) a := by
  induction h generalizing s o with
  | nil =>
    cases he
    simp [observation, hs]
  | cons b h ih =>
    obtain ⟨u, hb, he⟩ := Option.bind_eq_some_iff.mp he
    simp only [List.cons_append, observation, hb]
    exact ih he

theorem Run.observed {ω : Type*} {observe : σ → ω → α → ω} {o₀ : ω} (Inv : List α → σ → ω → Prop)
    (init : Inv [] s₀ o₀)
    (keep : ∀ h s o a s', Inv h s o → cond h s a → step s a = some s' →
      Inv (h ++ [a]) s' (observe s o a))
    (hr : Run step cond s₀ h s) : Inv h s (observation step observe s₀ o₀ h) := by
  refine Run.invariant (fun h s => Inv h s (observation step observe s₀ o₀ h)) init ?_ hr
  intro h s a s' hr hinv hc hs
  rw [observation_snoc hr.exec_eq hs]
  exact keep h s _ a s' hinv hc hs

/-- Some label of the history was taken in a state that it has `P` in. -/
def Occurred (step : σ → α → Option σ) (P : σ → α → Prop) (s₀ : σ) (h : List α) : Prop :=
  ∃ pre a post s, h = pre ++ a :: post ∧ exec step s₀ pre = some s ∧ P s a

theorem not_occurred_nil {P : σ → α → Prop} : ¬ Occurred step P s₀ [] := by
  intro ⟨pre, a, post, s, hsplit, _⟩
  cases pre <;> cases hsplit

theorem occurred_snoc {P : σ → α → Prop} {a : α} (he : exec step s₀ h = some s) :
    Occurred step P s₀ (h ++ [a]) ↔ Occurred step P s₀ h ∨ P s a := by
  constructor
  · intro ⟨pre, b, post, t, hsplit, ht, hb⟩
    obtain rfl | ⟨post, c, rfl⟩ := List.eq_nil_or_concat post
    · obtain ⟨rfl, hlast⟩ := List.append_inj' hsplit rfl
      cases hlast
      rw [he] at ht
      cases ht
      exact .inr hb
    · rw [List.concat_eq_append, ← List.cons_append, ← List.append_assoc] at hsplit
      exact .inl ⟨pre, b, post, t, (List.append_inj' hsplit rfl).1, ht, hb⟩
  · rintro (⟨pre, b, post, t, rfl, ht, hb⟩ | ha)
    · exact ⟨pre, b, post ++ [a], t, by simp, ht, hb⟩
    · exact ⟨h, a, [], s, rfl, he, ha⟩

/-- Some label of the history has `p` with what came before it. -/
def Happened (p : List α → α → Prop) (h : List α) : Prop :=
  ∃ pre a post, h = pre ++ a :: post ∧ p pre a

theorem not_happened_nil {p : List α → α → Prop} : ¬Happened p [] := by
  intro ⟨pre, a, post, hsplit, _⟩
  cases pre <;> cases hsplit

theorem happened_snoc {p : List α → α → Prop} {a : α} :
    Happened p (h ++ [a]) ↔ Happened p h ∨ p h a := by
  constructor
  · intro ⟨pre, b, post, hsplit, hb⟩
    obtain rfl | ⟨post, c, rfl⟩ := List.eq_nil_or_concat post
    · obtain ⟨rfl, hlast⟩ := List.append_inj' hsplit rfl
      cases hlast
      exact .inr hb
    · rw [List.concat_eq_append, ← List.cons_append, ← List.append_assoc] at hsplit
      exact .inl ⟨pre, b, post, (List.append_inj' hsplit rfl).1, hb⟩
  · rintro (⟨pre, b, post, rfl, hb⟩ | ha)
    · exact ⟨pre, b, post ++ [a], by simp, hb⟩
    · exact ⟨h, a, [], rfl, ha⟩

/-- Some label of the history has `p`, and none after it has `reset`. -/
def Since (p reset : α → Prop) (h : List α) : Prop :=
  ∃ pre a mid, h = pre ++ a :: mid ∧ p a ∧ ∀ b ∈ mid, ¬reset b

theorem not_since_nil {p reset : α → Prop} : ¬Since p reset [] := by
  intro ⟨pre, a, mid, hsplit, _⟩
  cases pre <;> cases hsplit

theorem since_snoc {p reset : α → Prop} {a : α} :
    Since p reset (h ++ [a]) ↔ p a ∨ (¬reset a ∧ Since p reset h) := by
  constructor
  · intro ⟨pre, b, mid, hsplit, hb, hmid⟩
    obtain rfl | ⟨mid, c, rfl⟩ := List.eq_nil_or_concat mid
    · obtain ⟨-, hlast⟩ := List.append_inj' hsplit rfl
      cases hlast
      exact .inl hb
    · rw [List.concat_eq_append, ← List.cons_append, ← List.append_assoc] at hsplit
      obtain ⟨rfl, hlast⟩ := List.append_inj' hsplit rfl
      cases hlast
      refine .inr ⟨hmid a (by simp), pre, b, mid, rfl, hb, fun c hc => hmid c ?_⟩
      rw [List.concat_eq_append]
      exact List.mem_append_left _ hc
  · rintro (ha | ⟨ha, pre, b, mid, rfl, hb, hmid⟩)
    · exact ⟨h, a, [], rfl, ha, nofun⟩
    · refine ⟨pre, b, mid ++ [a], by simp, hb, fun c hc => ?_⟩
      rcases List.mem_append.mp hc with hc | hc
      · exact hmid c hc
      · rwa [List.mem_singleton.mp hc]

theorem Since.exists_mem {p reset : α → Prop} (hs : Since p reset h) : ∃ a ∈ h, p a := by
  obtain ⟨pre, a, mid, rfl, ha, -⟩ := hs
  exact ⟨a, by simp, ha⟩

theorem exists_run_of_exec {check : σ → Bool} {a : α}
    (hx : (exec step s₀ h).any fun s => (step s a).isSome && check s) :
    ∃ s s', Run step AnyStep s₀ h s ∧ step s a = some s' ∧ check s := by
  obtain ⟨s, hs, hx⟩ := (Option.any_eq_true _ _).mp hx
  rw [Bool.and_eq_true, Option.isSome_iff_exists] at hx
  obtain ⟨⟨s', hs'⟩, hcheck⟩ := hx
  exact ⟨s, s', run_anyStep_iff.mpr hs, hs', hcheck⟩

/-- A condition that can be checked in each state may be made part of the step. -/
theorem run_of_exec_checked {check : σ → α → Bool} (hcheck : ∀ h s a, check s a → cond h s a)
    (he : exec (fun s a => if check s a then step s a else none) s₀ h = some s) :
    Run step cond s₀ h s := by
  have hr := run_anyStep_iff.mpr he
  clear he
  induction hr with
  | nil => exact .nil
  | snoc _ _ hs ih =>
    obtain ⟨hc, hs⟩ := Option.ite_none_right_eq_some.mp hs
    exact .snoc ih (hcheck _ _ _ hc) hs

theorem exec_total (f : σ → α → σ) (s : σ) (h : List α) :
    exec (total f) s h = some (h.foldl f s) := by
  induction h generalizing s with
  | nil => rfl
  | cons a h ih => simpa [exec, total] using ih (f s a)

end InsightsAssist.Runs
