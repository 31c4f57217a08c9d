import Mathlib.Algebra.Group.Nat.Defs
import Mathlib.Data.List.Nodup
import Mathlib.Order.Interval.Set.Basic
import Mathlib.Logic.Function.Iterate
import InsightsAssist.Runs

/-! A counter that threads read and write without a lock: `++counter` is a read and a later write of
the next value, which the thread then goes by. The numbers that are drawn are distinct exactly as
long as each write finds the counter as its thread has read it. -/
namespace InsightsAssist.Counters
open Runs
variable {ι α : Type*}

inductive Phase (α : Type*) where
  | idle
  | read (a : α)
  | has (a : α)
  deriving DecidableEq

/-- `drawn` are the numbers in the order of the writes. -/
structure State (ι α : Type*) where
  value : α
  phase : ι → Phase α
  drawn : List α

def start (a : α) : State ι α := ⟨a, fun _ => .idle, []⟩

inductive Step (ι : Type*) where
  | read (t : ι)
  | write (t : ι)
  | done (t : ι)

variable [DecidableEq ι] (next : α → α)

def State.move (s : State ι α) (t : ι) (p : Phase α) : State ι α :=
  { s with phase := Function.update s.phase t p }

def step (s : State ι α) : Step ι → Option (State ι α)
  | .read t =>
    match s.phase t with
    | .idle => some (s.move t (.read s.value))
    | .read _ | .has _ => none
  | .write t =>
    match s.phase t with
    | .read a => some
        { s.move t (.has (next a)) with value := next a, drawn := s.drawn ++ [next a] }
    | .idle | .has _ => none
  | .done t =>
    match s.phase t with
    | .has _ => some (s.move t .idle)
    | .idle | .read _ => none

def Fresh (s : State ι α) : Step ι → Prop
  | .write t => s.phase t = .read s.value
  | .read _ | .done _ => True

def numbers (next : α → α) (a : α) (n : Nat) : List α :=
  (List.range n).map fun i => next^[i + 1] a

theorem numbers_succ (a : α) (n : Nat) :
    numbers next a (n + 1) = numbers next a n ++ [next^[n + 1] a] := by
  rw [numbers, List.range_succ, List.map_append]
  rfl

/-- What holds as long as all writes are fresh: the numbers are drawn one after the other, and
nobody has read one that comes later. -/
structure Inv (next : α → α) (a : α) (s : State ι α) : Prop where
  value : s.value = next^[s.drawn.length] a
  drawn : s.drawn = numbers next a s.drawn.length
  read : ∀ t b, s.phase t = .read b → ∃ n ≤ s.drawn.length, b = next^[n] a

/-- The numbers that threads have are drawn ones, and no two threads have the same. -/
structure Owned (s : State ι α) : Prop where
  drawn : ∀ t b, s.phase t = .has b → b ∈ s.drawn
  unique : ∀ t u b, s.phase t = .has b → s.phase u = .has b → t = u

variable {next} {a : α} {s s' : State ι α} {e : Step ι} {t u : ι} {p : Phase α}

theorem phase_move_cases {b : Phase α} (h : (s.move t p).phase u = b) :
    (u = t ∧ p = b) ∨ (u ≠ t ∧ s.phase u = b) := by
  by_cases hu : u = t
  · subst hu
    exact .inl ⟨rfl, by simpa [State.move] using h⟩
  · exact .inr ⟨hu, by simpa [State.move, hu] using h⟩

theorem step_cases (hs : step next s e = some s') :
    (∃ t, e = .read t ∧ s.phase t = .idle ∧ s' = s.move t (.read s.value)) ∨
    (∃ t b, e = .write t ∧ s.phase t = .read b ∧
      s' = { s.move t (.has (next b)) with value := next b, drawn := s.drawn ++ [next b] }) ∨
    ∃ t b, e = .done t ∧ s.phase t = .has b ∧ s' = s.move t .idle := by
  cases e with
  | read t =>
    cases hp : s.phase t <;> simp only [step, hp, reduceCtorEq, Option.some.injEq] at hs
    exact .inl ⟨t, rfl, hp, hs.symm⟩
  | write t =>
    cases hp : s.phase t <;> simp only [step, hp, reduceCtorEq, Option.some.injEq] at hs
    exact .inr (.inl ⟨t, _, rfl, hp, hs.symm⟩)
  | done t =>
    cases hp : s.phase t <;> simp only [step, hp, reduceCtorEq, Option.some.injEq] at hs
    exact .inr (.inr ⟨t, _, rfl, hp, hs.symm⟩)

theorem has_step {b : α} (hs : step next s e = some s') (hdone : ∀ t, e ≠ .done t)
    (hu : s.phase u = .has b) : s'.phase u = .has b := by
  have hother {t : ι} {p q : Phase α} (hp : s.phase t = p) (hne : p ≠ .has b) :
      (s.move t q).phase u = .has b := by
    have hut : u ≠ t := by
      rintro rfl
      exact hne (hp.symm.trans hu)
    simpa [State.move, hut] using hu
  rcases step_cases hs with ⟨t, rfl, hp, rfl⟩ | ⟨t, c, rfl, hp, rfl⟩ | ⟨t, c, rfl, -, -⟩
  · exact hother hp nofun
  · exact hother hp nofun
  · exact (hdone t rfl).elim

omit [DecidableEq ι] in
theorem inv_start (a : α) : Inv next a (start a : State ι α) := ⟨rfl, rfl, nofun⟩

theorem Inv.step (h : Inv next a s) (hfresh : Fresh s e) (hs : Counters.step next s e = some s') :
    Inv next a s' := by
  rcases step_cases hs with ⟨t, rfl, hp, rfl⟩ | ⟨t, b, rfl, hp, rfl⟩ | ⟨t, b, rfl, hp, rfl⟩
  · refine ⟨h.value, h.drawn, fun u c hu => ?_⟩
    rcases phase_move_cases hu with ⟨rfl, hc⟩ | ⟨-, hu⟩
    · cases hc
      exact ⟨_, le_refl _, h.value⟩
    · exact h.read u c hu
  · have hb : next b = next^[s.drawn.length + 1] a := by
      have hvalue : Phase.read b = Phase.read s.value := hp.symm.trans hfresh
      rw [Phase.read.injEq] at hvalue
      rw [hvalue, h.value, Function.iterate_succ_apply']
    refine ⟨?_, ?_, fun u c hu => ?_⟩
    · simpa using hb
    · rw [List.length_append, List.length_singleton, numbers_succ, ← h.drawn, hb]
    · rcases phase_move_cases hu with ⟨rfl, hc⟩ | ⟨-, hu⟩
      · cases hc
      · obtain ⟨n, hn, hc⟩ := h.read u c hu
        exact ⟨n, by simp; omega, hc⟩
  · refine ⟨h.value, h.drawn, fun u c hu => ?_⟩
    rcases phase_move_cases hu with ⟨rfl, hc⟩ | ⟨-, hu⟩
    · cases hc
    · exact h.read u c hu

omit [DecidableEq ι] in
theorem owned_start (a : α) : Owned (start a : State ι α) := ⟨nofun, nofun⟩

theorem nodup_of_step (hs : step next s e = some s') (hnodup : s'.drawn.Nodup) :
    s.drawn.Nodup := by
  rcases step_cases hs with ⟨t, rfl, hp, rfl⟩ | ⟨t, b, rfl, hp, rfl⟩ | ⟨t, b, rfl, hp, rfl⟩
  · exact hnodup
  · exact (List.nodup_append.mp hnodup).1
  · exact hnodup

theorem Owned.step (h : Owned s) (hs : Counters.step next s e = some s')
    (hnodup : s'.drawn.Nodup) : Owned s' := by
  rcases step_cases hs with ⟨t, rfl, hp, rfl⟩ | ⟨t, b, rfl, hp, rfl⟩ | ⟨t, b, rfl, hp, rfl⟩
  · have hold {u : ι} {c : α} (hu : (s.move t (.read s.value)).phase u = .has c) :
        s.phase u = .has c := by
      rcases phase_move_cases hu with ⟨rfl, hc⟩ | ⟨-, hu⟩
      · cases hc
      · exact hu
    exact ⟨fun u c hu => h.drawn u c (hold hu),
      fun u v c hu hv => h.unique u v c (hold hu) (hold hv)⟩
  · have hnew {u : ι} (hu : s.phase u = .has (next b)) : False :=
      (List.nodup_append.mp hnodup).2.2 _ (h.drawn u _ hu) _ (List.mem_singleton_self _) rfl
    refine ⟨fun u c hu => ?_, fun u v c hu hv => ?_⟩
    · rcases phase_move_cases hu with ⟨rfl, hc⟩ | ⟨-, hu⟩
      · cases hc
        simp
      · exact List.mem_append_left _ (h.drawn u c hu)
    · rcases phase_move_cases hu with ⟨rfl, hc⟩ | ⟨-, holdu⟩ <;>
        rcases phase_move_cases hv with ⟨rfl, hc'⟩ | ⟨-, holdv⟩
      · rfl
      · cases hc
        exact (hnew holdv).elim
      · cases hc'
        exact (hnew holdu).elim
      · exact h.unique u v c holdu holdv
  · have hold {u : ι} {c : α} (hu : (s.move t .idle).phase u = .has c) : s.phase u = .has c := by
      rcases phase_move_cases hu with ⟨rfl, hc⟩ | ⟨-, hu⟩
      · cases hc
      · exact hu
    exact ⟨fun u c hu => h.drawn u c (hold hu),
      fun u v c hu hv => h.unique u v c (hold hu) (hold hv)⟩

theorem numbers_nodup {n : Nat} (hdistinct : Set.InjOn (fun k => next^[k] a) (Set.Iic n)) :
    (numbers next a n).Nodup := by
  refine List.Nodup.map_on ?_ List.nodup_range
  intro i hi j hj heq
  rw [List.mem_range] at hi hj
  have hij := hdistinct (Set.mem_Iic.mpr (show i + 1 ≤ n by omega))
    (Set.mem_Iic.mpr (show j + 1 ≤ n by omega)) heq
  omega

theorem fresh_of_nodup (h : Inv next a s) (hs : step next s e = some s') (hnodup : s'.drawn.Nodup) :
    Fresh s e := by
  rcases step_cases hs with ⟨t, rfl, hp, rfl⟩ | ⟨t, b, rfl, hp, rfl⟩ | ⟨t, b, rfl, hp, rfl⟩
  · exact trivial
  · obtain ⟨n, hn, rfl⟩ := h.read t b hp
    have hnew : next^[n + 1] a ∉ s.drawn := by
      rw [Function.iterate_succ_apply']
      intro hmem
      exact (List.nodup_append.mp hnodup).2.2 _ hmem _ (List.mem_singleton_self _) rfl
    have hlast : n = s.drawn.length := by
      by_contra hne
      refine hnew ?_
      rw [h.drawn]
      exact List.mem_map.mpr ⟨n, List.mem_range.mpr (by omega), rfl⟩
    rw [Fresh, hp, h.value, hlast]
  · exact trivial

variable {h : List (Step ι)} {cond : List (Step ι) → State ι α → Step ι → Prop}

theorem inv_of_fresh (hr : Run (step next) (fun _ => Fresh) (start a) h s) : Inv next a s := by
  induction hr with
  | nil => exact inv_start a
  | snoc _ hfresh hs ih => exact ih.step hfresh hs

theorem owned_of_nodup (hr : Run (step next) cond (start a) h s) (hnodup : s.drawn.Nodup) :
    Owned s := by
  induction hr with
  | nil => exact owned_start a
  | snoc _ _ hs ih => exact (ih (nodup_of_step hs hnodup)).step hs hnodup

/-- With a counter that has not come round, the numbers are distinct exactly if all writes have been
fresh. -/
theorem drawn_nodup_iff (hr : Run (step next) cond (start a) h s)
    (hdistinct : Set.InjOn (fun k => next^[k] a) (Set.Iic s.drawn.length)) :
    s.drawn.Nodup ↔ Run (step next) (fun _ => Fresh) (start a) h s := by
  constructor
  · clear hdistinct
    intro hnodup
    induction hr with
    | nil => exact .nil
    | snoc _ _ hs ih =>
      have hfresh := ih (nodup_of_step hs hnodup)
      exact .snoc hfresh (fresh_of_nodup (inv_of_fresh hfresh) hs hnodup) hs
  · intro hfresh
    rw [(inv_of_fresh hfresh).drawn]
    exact numbers_nodup hdistinct

/-! ### Counters that are ints -/

theorem iterate_add_one (x : Int32) (k : Nat) : (· + 1)^[k] x = x + Int32.ofNat k := by
  induction k with
  | zero => simp
  | succ k ih =>
    rw [Function.iterate_succ_apply', ih, Int32.ofNat_add, ← Int32.add_assoc]
    rfl

theorem int32_injOn (x : Int32) {n : Nat} (hn : n < 2 ^ 32) :
    Set.InjOn (fun k => (· + 1)^[k] x) (Set.Iic n) := by
  intro i hi j hj heq
  rw [Set.mem_Iic] at hi hj
  simp only [iterate_add_one, Int32.add_right_inj] at heq
  have hbits := congrArg (fun y => y.toBitVec.toNat) heq
  simp only [Int32.toBitVec_ofNat', BitVec.toNat_ofNat] at hbits
  rwa [Nat.mod_eq_of_lt (by omega), Nat.mod_eq_of_lt (by omega)] at hbits

theorem owned_of_fresh {a : Int32} {s : State ι Int32}
    (hr : Run (step (· + 1)) (fun _ => Fresh) (start a) h s) (hdraws : s.drawn.length < 2 ^ 32) :
    Owned s :=
  owned_of_nodup hr ((drawn_nodup_iff hr (int32_injOn a hdraws)).mpr hr)

end InsightsAssist.Counters
