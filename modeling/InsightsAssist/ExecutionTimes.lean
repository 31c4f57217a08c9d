import Mathlib.Algebra.BigOperators.Group.List.Basic
import Mathlib.Algebra.Order.Field.Basic
import Mathlib.Algebra.Order.Field.Rat
import Mathlib.Order.Bounds.Defs
import Mathlib.Tactic.FieldSimp
import Mathlib.Tactic.Linarith
import InsightsAssist.JobStatistics

/-! The times that a JobStat keeps of the runs of a type: the least, the greatest and the average,
which each run updates by a division that truncates. -/
namespace InsightsAssist.JobStatistics

def afterRuns (jobType : String) (runs : List (Int32 × Int32)) : JobStat :=
  stat ((runs.map fun run => Call.jobExecuted (some jobType) run.1 run.2).foldl call empty) jobType

def times (runs : List (Int32 × Int32)) : List Int := runs.map fun run => run.2.toInt

/-- A run of a new id in a non-negative time, whose average is computed without an overflow. -/
structure Admissible (s : JobStat) (runs : List (Int32 × Int32)) (run : Int32 × Int32) : Prop where
  fresh : run.1 ∉ runs.map Prod.fst
  nonneg : 0 ≤ run.2.toInt
  totalAttempts : s.totalAttempts.toInt + 1 < 2 ^ 31
  weighted : s.totalAttempts.toInt * s.avgExecTime.toInt + run.2.toInt < 2 ^ 31

def AllAdmissible (jobType : String) (runs : List (Int32 × Int32)) : Prop :=
  ∀ pre run, pre ++ [run] <+: runs → Admissible (afterRuns jobType pre) pre run

def positives (ts : List Int) : Set Int := {t | t ∈ ts ∧ 0 < t}

structure TimesSound (s : JobStat) (ts : List Int) : Prop where
  minExecTime : (∃ t ∈ ts, 0 < t) → IsLeast (positives ts) s.minExecTime.toInt
  maxExecTime : (∃ t ∈ ts, 0 < t) → IsGreatest (positives ts) s.maxExecTime.toInt
  between : (∃ t ∈ ts, 0 < t) → s.minExecTime ≤ s.avgExecTime ∧ s.avgExecTime ≤ s.maxExecTime
  mean : ts ≠ [] → (∀ t ∈ ts, 0 < t) →
    |(s.avgExecTime.toInt : ℚ) - (ts.sum : ℚ) / ts.length| < 1

/-- Latest time first. -/
def roundedSumRev : List Int → Int
  | [] => 0
  | t :: ts =>
    let sum := roundedSumRev ts + t
    sum - sum % (ts.length + 1)

/-- The running sum of times, rounded down after each of them to a multiple of their number. -/
def roundedSum (ts : List Int) : Int := roundedSumRev ts.reverse

def TimedFirst (ts : List Int) : Prop := (∃ t ∈ ts, 0 < t) → ∃ t ∈ ts.head?, 0 < t

variable {runs : List (Int32 × Int32)} {run : Int32 × Int32} {jobType : String} {s : JobStat}
  {ts : List Int} {t : Int} {id time : Int32}

@[simp] theorem times_concat : times (runs ++ [run]) = times runs ++ [run.2.toInt] := by
  simp [times]

@[simp] theorem length_times : (times runs).length = runs.length := List.length_map _

theorem roundedSum_concat : roundedSum (ts ++ [t]) =
    roundedSum ts + t - (roundedSum ts + t) % (ts.length + 1) := by
  simp [roundedSum, roundedSumRev]

theorem afterRuns_concat :
    afterRuns jobType (runs ++ [run]) = (afterRuns jobType runs).jobExecuted run.1 run.2 := by
  rw [afterRuns, List.map_append, List.foldl_append]
  simp only [List.map_cons, List.map_nil, List.foldl_cons, List.foldl_nil]
  rw [stat_call, callOf, if_pos rfl]
  rfl

theorem AllAdmissible.of_prefix {pre : List (Int32 × Int32)} (h : AllAdmissible jobType runs)
    (hpre : pre <+: runs) : AllAdmissible jobType pre := fun p run hp => h p run (hp.trans hpre)

theorem allAdmissible_nil : AllAdmissible jobType [] := fun pre run hpre => by
  simp at hpre

theorem AllAdmissible.concat (h : AllAdmissible jobType runs) (run : Int32 × Int32)
    (hadm : Admissible (afterRuns jobType runs) runs run) :
    AllAdmissible jobType (runs ++ [run]) := by
  intro pre last hpre
  obtain heq | hpre := List.prefix_concat_iff.mp hpre
  · obtain ⟨rfl, hlast⟩ := List.append_inj' heq rfl
    rw [(List.cons.inj hlast).1]
    exact hadm
  · exact h pre last hpre

structure Timed (s : JobStat) (runs : List (Int32 × Int32)) : Prop where
  unknown : ∀ id ∉ runs.map Prod.fst, s.jobErrors.lookup id = none
  totalAttempts : s.totalAttempts.toInt = runs.length
  avg_nonneg : 0 ≤ s.avgExecTime.toInt
  untimed : (∀ t ∈ times runs, t = 0) →
    s.minExecTime.toInt = 0 ∧ s.maxExecTime.toInt = 0 ∧ s.avgExecTime.toInt = 0
  nonneg : ∀ t ∈ times runs, 0 ≤ t
  minExecTime : (∃ t ∈ times runs, 0 < t) → IsLeast (positives (times runs)) s.minExecTime.toInt
  maxExecTime : (∃ t ∈ times runs, 0 < t) →
    IsGreatest (positives (times runs)) s.maxExecTime.toInt
  avg_le : s.avgExecTime.toInt ≤ s.maxExecTime.toInt
  rounded : (∀ t ∈ times runs, 0 < t) →
    runs.length * s.avgExecTime.toInt = roundedSum (times runs)

theorem timed_nil : Timed (afterRuns jobType []) [] := by
  refine ⟨fun _ _ => rfl, rfl, le_rfl, fun _ => ⟨rfl, rfl, rfl⟩, ?_, ?_, ?_, le_rfl,
    fun _ => rfl⟩ <;> simp [times]

theorem avg_recordTime (hfits : s.totalAttempts.toInt + 1 < 2 ^ 31)
    (hweighted : s.totalAttempts.toInt * s.avgExecTime.toInt + time.toInt < 2 ^ 31)
    (hattempts : 0 ≤ s.totalAttempts.toInt) (havg : 0 ≤ s.avgExecTime.toInt) (htime : 0 < time) :
    (s.recordTime time).avgExecTime.toInt =
      (s.totalAttempts.toInt * s.avgExecTime.toInt + time.toInt) / (s.totalAttempts.toInt + 1) := by
  rw [Int32.lt_iff_toInt_lt, Int32.toInt_zero] at htime
  have hproduct : 0 ≤ s.totalAttempts.toInt * s.avgExecTime.toInt := mul_nonneg hattempts havg
  have hbmod {x : Int} (h0 : 0 ≤ x) (hlt : x < 2 ^ 31) : x.bmod (2 ^ 32) = x :=
    Int.bmod_eq_of_le (by simp; omega) (by simp at hlt ⊢; omega)
  rw [JobStat.recordTime, if_pos (by rwa [Int32.lt_iff_toInt_lt, Int32.toInt_zero])]
  simp only [Int32.toInt_div, Int32.toInt_add, Int32.toInt_mul, Int32.toInt_one]
  rw [hbmod hproduct (by omega), hbmod (by omega) hweighted, hbmod (by omega) hfits,
    Int.tdiv_eq_ediv_of_nonneg (by omega), hbmod (Int.ediv_nonneg (by omega) (by omega))]
  exact lt_of_le_of_lt (Int.ediv_le_self _ (by omega)) hweighted

theorem mem_positives : t ∈ positives ts ↔ t ∈ ts ∧ 0 < t := Iff.rfl

theorem positives_concat (h : 0 < t) : positives (ts ++ [t]) = insert t (positives ts) := by
  ext u
  simp only [mem_positives, List.mem_append, List.mem_singleton, Set.mem_insert_iff]
  constructor
  · rintro ⟨hu | rfl, hpos⟩
    · exact .inr ⟨hu, hpos⟩
    · exact .inl rfl
  · rintro (rfl | ⟨hu, hpos⟩)
    · exact ⟨.inr rfl, h⟩
    · exact ⟨.inl hu, hpos⟩

theorem positives_concat_zero : positives (ts ++ [0]) = positives ts := by
  ext u
  simp only [mem_positives, List.mem_append, List.mem_singleton]
  constructor
  · rintro ⟨hu | rfl, hpos⟩
    · exact ⟨hu, hpos⟩
    · exact absurd hpos (lt_irrefl _)
  · exact fun ⟨hu, hpos⟩ => ⟨.inl hu, hpos⟩

theorem positives_eq_empty (h : ∀ t ∈ ts, t = 0) : positives ts = ∅ := by
  rw [Set.eq_empty_iff_forall_notMem]
  intro t ⟨ht, hpos⟩
  exact hpos.ne' (h t ht)

section recordAttempt
variable (s : JobStat) (time : Int32)

theorem recordAttempt_timed (h : 0 < time) :
    (s.recordAttempt time).minExecTime =
        (if time < s.minExecTime ∨ s.minExecTime = 0 then time else s.minExecTime) ∧
      (s.recordAttempt time).maxExecTime =
        (if s.maxExecTime < time ∨ s.maxExecTime = 0 then time else s.maxExecTime) ∧
      (s.recordAttempt time).avgExecTime = (s.recordTime time).avgExecTime := by
  simp [JobStat.recordAttempt, JobStat.recordTime, h]

theorem recordAttempt_untimed (h : ¬ 0 < time) :
    (s.recordAttempt time).minExecTime = s.minExecTime ∧
      (s.recordAttempt time).maxExecTime = s.maxExecTime ∧
      (s.recordAttempt time).avgExecTime = s.avgExecTime := by
  simp [JobStat.recordAttempt, JobStat.recordTime, h]

end recordAttempt

theorem pos_iff {x : Int32} : 0 < x ↔ 0 < x.toInt := Int32.lt_iff_toInt_lt

theorem toInt_eq_zero {x : Int32} : x.toInt = 0 ↔ x = 0 := by
  rw [← Int32.toInt_inj, Int32.toInt_zero]

theorem exists_pos_or_zero (h : ∀ t ∈ ts, 0 ≤ t) : (∃ t ∈ ts, 0 < t) ∨ ∀ t ∈ ts, t = 0 := by
  by_cases hts : ∃ t ∈ ts, 0 < t
  · exact .inl hts
  · exact .inr fun t ht => le_antisymm (not_lt.mp fun hpos => hts ⟨t, ht, hpos⟩) (h t ht)

theorem if_or_zero {p : Prop} [Decidable p] {x y : Int32} (h : y.toInt ≠ 0) :
    (if p ∨ y = 0 then x else y) = if p then x else y := by
  have hne : y ≠ 0 := mt toInt_eq_zero.mpr h
  simp [hne]

theorem isLeast_insert (time : Int32)
    (h : (∃ t ∈ ts, 0 < t) → IsLeast (positives ts) s.minExecTime.toInt)
    (hno : (∀ t ∈ ts, t = 0) → s.minExecTime.toInt = 0) (hnonneg : ∀ t ∈ ts, 0 ≤ t) :
    IsLeast (insert time.toInt (positives ts))
      (if time < s.minExecTime ∨ s.minExecTime = 0 then time else s.minExecTime).toInt := by
  obtain hts | hzero := exists_pos_or_zero hnonneg
  · have hleast := h hts
    have hmin : (if time < s.minExecTime ∨ s.minExecTime = 0 then time else s.minExecTime).toInt =
        min time.toInt s.minExecTime.toInt := by
      simp only [if_or_zero hleast.1.2.ne', Int32.lt_iff_toInt_lt]
      split <;> omega
    rw [hmin]
    exact hleast.insert _
  · rw [if_pos (.inr (toInt_eq_zero.mp (hno hzero))), positives_eq_empty hzero]
    simp

theorem isGreatest_insert (time : Int32)
    (h : (∃ t ∈ ts, 0 < t) → IsGreatest (positives ts) s.maxExecTime.toInt)
    (hno : (∀ t ∈ ts, t = 0) → s.maxExecTime.toInt = 0) (hnonneg : ∀ t ∈ ts, 0 ≤ t) :
    IsGreatest (insert time.toInt (positives ts))
      (if s.maxExecTime < time ∨ s.maxExecTime = 0 then time else s.maxExecTime).toInt := by
  obtain hts | hzero := exists_pos_or_zero hnonneg
  · have hgreatest := h hts
    have hmax : (if s.maxExecTime < time ∨ s.maxExecTime = 0 then time else s.maxExecTime).toInt =
        max time.toInt s.maxExecTime.toInt := by
      simp only [if_or_zero hgreatest.1.2.ne', Int32.lt_iff_toInt_lt]
      split <;> omega
    rw [hmax]
    exact hgreatest.insert _
  · rw [if_pos (.inr (toInt_eq_zero.mp (hno hzero))), positives_eq_empty hzero]
    simp

theorem average_step {n a t m : Int} (hn : 0 ≤ n) (ha : a ≤ m) (ht : t ≤ m) :
    (n * a + t) / (n + 1) ≤ m ∧
      (n + 1) * ((n * a + t) / (n + 1)) = n * a + t - (n * a + t) % (n + 1) := by
  constructor
  · apply Int.ediv_le_of_le_mul (by omega)
    nlinarith
  · have := Int.mul_ediv_add_emod (n * a + t) (n + 1)
    omega

theorem Timed.avg_timed (h : Timed s runs) (hadm : Admissible s runs run) (htime : 0 < run.2) :
    (s.jobExecuted run.1 run.2).avgExecTime.toInt =
      (s.totalAttempts.toInt * s.avgExecTime.toInt + run.2.toInt) /
        (s.totalAttempts.toInt + 1) := by
  have hattempts : 0 ≤ s.totalAttempts.toInt := h.totalAttempts ▸ Int.natCast_nonneg _
  rw [JobStat.jobExecuted, h.unknown run.1 hadm.fresh]
  simp only [(recordAttempt_timed _ run.2 htime).2.2]
  exact avg_recordTime hadm.totalAttempts hadm.weighted hattempts h.avg_nonneg htime

theorem Timed.kept_untimed (h : Timed s runs) (hfresh : run.1 ∉ runs.map Prod.fst)
    (htime : ¬ 0 < run.2) :
    (s.jobExecuted run.1 run.2).minExecTime = s.minExecTime ∧
      (s.jobExecuted run.1 run.2).maxExecTime = s.maxExecTime ∧
      (s.jobExecuted run.1 run.2).avgExecTime = s.avgExecTime := by
  rw [JobStat.jobExecuted, h.unknown run.1 hfresh]
  exact recordAttempt_untimed _ run.2 htime

theorem Timed.extrema_timed (h : Timed s runs) (hfresh : run.1 ∉ runs.map Prod.fst)
    (htime : 0 < run.2) :
    IsLeast (positives (times (runs ++ [run])))
        (s.jobExecuted run.1 run.2).minExecTime.toInt ∧
      IsGreatest (positives (times (runs ++ [run])))
        (s.jobExecuted run.1 run.2).maxExecTime.toInt := by
  have hset : positives (times (runs ++ [run])) = insert run.2.toInt (positives (times runs)) := by
    rw [times_concat, positives_concat (pos_iff.mp htime)]
  rw [JobStat.jobExecuted, h.unknown run.1 hfresh, hset]
  set s' : JobStat := { s with jobErrors := s.jobErrors.insert run.1 .JOB_SUCCESS }
  obtain ⟨hmin, hmax, _⟩ := recordAttempt_timed s' run.2 htime
  rw [hmin, hmax]
  constructor
  · exact isLeast_insert run.2 h.minExecTime (fun hall => (h.untimed hall).1) h.nonneg
  · exact isGreatest_insert run.2 h.maxExecTime (fun hall => (h.untimed hall).2.1) h.nonneg

theorem Timed.avg_le_timed (h : Timed s runs) (hfresh : run.1 ∉ runs.map Prod.fst)
    (htime : 0 < run.2) :
    s.avgExecTime.toInt ≤ (s.jobExecuted run.1 run.2).maxExecTime.toInt := by
  obtain ⟨-, hgreatest⟩ := h.extrema_timed hfresh htime
  obtain hts | hzero := exists_pos_or_zero h.nonneg
  · obtain ⟨hmem, hpos⟩ := (h.maxExecTime hts).1
    exact h.avg_le.trans (hgreatest.2 ⟨by simp [hmem], hpos⟩)
  · rw [(h.untimed hzero).2.2]
    exact hgreatest.1.2.le

theorem Timed.unknown_concat (h : Timed s runs) (hfresh : run.1 ∉ runs.map Prod.fst) :
    ∀ id ∉ (runs ++ [run]).map Prod.fst,
      (s.jobExecuted run.1 run.2).jobErrors.lookup id = none := by
  intro id hid
  rw [List.map_append, List.mem_append, not_or] at hid
  have hne : id ≠ run.1 := by simpa using hid.2
  rw [JobStat.jobExecuted, h.unknown run.1 hfresh]
  simp only [JobStat.recordAttempt_jobErrors, Finmap.lookup_insert_of_ne _ hne]
  exact h.unknown id hid.1

theorem Timed.totalAttempts_concat (h : Timed s runs) (hadm : Admissible s runs run) :
    (s.jobExecuted run.1 run.2).totalAttempts.toInt = (runs ++ [run]).length := by
  have hlt : s.totalAttempts.toInt < 2147483647 := by
    have := hadm.totalAttempts
    omega
  rw [JobStat.jobExecuted, h.unknown run.1 hadm.fresh]
  simp only [JobStat.recordAttempt_totalAttempts]
  rw [toInt_add_one hlt, h.totalAttempts]
  simp

theorem Timed.nonneg_concat (h : Timed s runs) (hadm : Admissible s runs run) :
    ∀ t ∈ times (runs ++ [run]), 0 ≤ t := by
  rw [times_concat]
  intro t ht
  obtain ht | ht := List.mem_append.mp ht
  · exact h.nonneg t ht
  · rw [List.mem_singleton.mp ht]
    exact hadm.nonneg

theorem Timed.jobExecuted (h : Timed s runs) (hadm : Admissible s runs run) :
    Timed (s.jobExecuted run.1 run.2) (runs ++ [run]) := by
  have hattempts : 0 ≤ s.totalAttempts.toInt := h.totalAttempts ▸ Int.natCast_nonneg _
  have hunknown := h.unknown_concat hadm.fresh
  have htotal := h.totalAttempts_concat hadm
  have hnonneg := h.nonneg_concat hadm
  by_cases htime : 0 < run.2
  · have hpos := pos_iff.mp htime
    have havg := h.avg_timed hadm htime
    obtain ⟨hleast, hgreatest⟩ := h.extrema_timed hadm.fresh htime
    have hrun : run.2.toInt ≤ (s.jobExecuted run.1 run.2).maxExecTime.toInt :=
      hgreatest.2 ⟨by simp, hpos⟩
    have hold := h.avg_le_timed hadm.fresh htime
    obtain ⟨hle, hrounded⟩ := average_step hattempts hold hrun
    refine ⟨hunknown, htotal, ?_, ?_, hnonneg, fun _ => hleast, fun _ => hgreatest, ?_, ?_⟩
    · rw [havg]
      have := mul_nonneg hattempts h.avg_nonneg
      exact Int.ediv_nonneg (by omega) (by omega)
    · intro hall
      exact absurd (hall run.2.toInt (by simp)) hpos.ne'
    · rw [havg]
      exact hle
    · intro hall
      have hall' : ∀ t ∈ times runs, 0 < t := fun t ht => hall t (by simp [ht])
      rw [times_concat, roundedSum_concat, ← h.rounded hall', length_times, ← h.totalAttempts,
        havg, ← hrounded, List.length_append, List.length_singleton, Nat.cast_add,
        Nat.cast_one, h.totalAttempts]
  · have hzero : run.2.toInt = 0 := le_antisymm (not_lt.mp (mt pos_iff.mpr htime)) hadm.nonneg
    obtain ⟨hmin, hmax, hkept⟩ := h.kept_untimed hadm.fresh htime
    have hsame : positives (times (runs ++ [run])) = positives (times runs) := by
      rw [times_concat, hzero, positives_concat_zero]
    have hexists : (∃ t ∈ times (runs ++ [run]), 0 < t) ↔ ∃ t ∈ times runs, 0 < t :=
      exists_congr fun t => Set.ext_iff.mp hsame t
    refine ⟨hunknown, htotal, ?_, ?_, hnonneg, ?_, ?_, ?_, ?_⟩
    · rw [hkept]
      exact h.avg_nonneg
    · intro hall
      rw [hmin, hmax, hkept]
      exact h.untimed fun t ht => hall t (by simp [ht])
    · rw [hexists, hsame, hmin]
      exact h.minExecTime
    · rw [hexists, hsame, hmax]
      exact h.maxExecTime
    · rw [hmax, hkept]
      exact h.avg_le
    · intro hall
      exact absurd hzero (hall run.2.toInt (by simp)).ne'

theorem timed_afterRuns (h : AllAdmissible jobType runs) : Timed (afterRuns jobType runs) runs := by
  induction runs using List.reverseRecOn with
  | nil => exact timed_nil
  | append_singleton runs run ih =>
    rw [afterRuns_concat]
    exact (ih (h.of_prefix (List.prefix_append _ _))).jobExecuted (h runs run (List.prefix_refl _))

theorem TimedFirst.of_prefix {pre : List (Int32 × Int32)} (h : TimedFirst (times runs))
    (hpre : pre <+: runs) : TimedFirst (times pre) := by
  obtain ⟨rest, rfl⟩ := hpre
  have htimes : times (pre ++ rest) = times pre ++ times rest := List.map_append
  intro ⟨t, ht, hpos⟩
  obtain ⟨t', ht', hpos'⟩ := h ⟨t, by simp [htimes, ht], hpos⟩
  refine ⟨t', ?_, hpos'⟩
  cases hhead : times pre with
  | nil => simp [hhead] at ht
  | cons first others => simpa [htimes, hhead] using ht'

/-- Under the average the least time stays, as long as the first timed run was the first run. -/
theorem min_le_avg (h : AllAdmissible jobType runs) (hfirst : TimedFirst (times runs))
    (hts : ∃ t ∈ times runs, 0 < t) :
    (afterRuns jobType runs).minExecTime.toInt ≤ (afterRuns jobType runs).avgExecTime.toInt := by
  induction runs using List.reverseRecOn with
  | nil => simp [times] at hts
  | append_singleton runs run ih =>
    have hpre := h.of_prefix (List.prefix_append runs [run])
    have hadm := h runs run (List.prefix_refl _)
    have hold := timed_afterRuns hpre
    have hnew := timed_afterRuns h
    have hleast := hnew.minExecTime hts
    -- either a run was timed before, or there was none at all
    have hcases : (∃ t ∈ times runs, 0 < t) ∨ runs = [] := by
      cases hruns : runs with
      | nil => exact .inr rfl
      | cons first rest =>
        obtain ⟨t, ht, hpos⟩ := hfirst hts
        exact .inl ⟨t, by simp_all [times], hpos⟩
    have hbefore := ih hpre (hfirst.of_prefix (List.prefix_append _ _))
    by_cases htime : 0 < run.2
    · have hrun : (afterRuns jobType (runs ++ [run])).minExecTime.toInt ≤ run.2.toInt :=
        hleast.2 ⟨by simp, pos_iff.mp htime⟩
      have hweighted : (runs.length : Int) * (afterRuns jobType (runs ++ [run])).minExecTime.toInt ≤
          runs.length * (afterRuns jobType runs).avgExecTime.toInt := by
        obtain hpos | rfl := hcases
        · obtain ⟨hmem, hmin⟩ := (hold.minExecTime hpos).1
          have hle := hleast.2 ⟨by simp [hmem], hmin⟩
          exact mul_le_mul_of_nonneg_left (hle.trans (hbefore hpos)) (Int.natCast_nonneg _)
        · simp
      rw [afterRuns_concat] at hrun hweighted ⊢
      rw [hold.avg_timed hadm htime, hold.totalAttempts]
      apply Int.le_ediv_of_mul_le (by omega)
      rw [mul_add, mul_one, mul_comm]
      omega
    · obtain ⟨hmin, _, havg⟩ := hold.kept_untimed hadm.fresh htime
      rw [afterRuns_concat, hmin, havg]
      refine hbefore (hcases.resolve_right ?_)
      rintro rfl
      obtain ⟨t, ht, hpos⟩ := hts
      rw [show t = run.2.toInt by simpa [times] using ht] at hpos
      exact htime (pos_iff.mpr hpos)

theorem roundedSum_le (ts : List Int) : roundedSum ts ≤ ts.sum := by
  induction ts using List.reverseRecOn with
  | nil => rfl
  | append_singleton ts t ih =>
    have hnonneg : 0 ≤ (roundedSum ts + t) % (ts.length + 1) := Int.emod_nonneg _ (by omega)
    rw [roundedSum_concat, List.sum_append, List.sum_singleton]
    omega

/-- The average is off by what the rounding of the running sum has lost. -/
theorem mean_iff {avg : Int} (hne : ts ≠ []) (havg : ts.length * avg = roundedSum ts) :
    |(avg : ℚ) - (ts.sum : ℚ) / ts.length| < 1 ↔ ts.sum - roundedSum ts < ts.length := by
  have hlength : (0 : ℚ) < ts.length := by exact_mod_cast List.length_pos_iff.mpr hne
  have hdiff : (avg : ℚ) - (ts.sum : ℚ) / ts.length =
      -(((ts.sum - roundedSum ts : Int) : ℚ) / ts.length) := by
    rw [← havg]
    push_cast
    field_simp
    rw [neg_sub]
  have hle := roundedSum_le ts
  rw [hdiff, abs_neg, abs_of_nonneg (div_nonneg (by exact_mod_cast sub_nonneg.mpr hle) hlength.le),
    div_lt_one hlength]
  exact_mod_cast Iff.rfl

theorem timedFirst_of_sound (h : AllAdmissible jobType runs)
    (hall : ∀ pre, pre <+: runs → TimesSound (afterRuns jobType pre) (times pre)) :
    TimedFirst (times runs) := by
  induction runs using List.reverseRecOn with
  | nil => exact fun ⟨t, ht, _⟩ => nomatch ht
  | append_singleton runs run ih =>
    have hpre := h.of_prefix (List.prefix_append runs [run])
    have hadm := h runs run (List.prefix_refl _)
    have hold := timed_afterRuns hpre
    have hfirst := ih hpre fun pre hp => hall pre (hp.trans (List.prefix_append _ _))
    intro hts
    rw [times_concat, List.head?_append]
    by_cases hruns : ∃ t ∈ times runs, 0 < t
    · obtain ⟨t, ht, hpos⟩ := hfirst hruns
      exact ⟨t, by simp [Option.mem_def.mp ht], hpos⟩
    · have hzero : ∀ t ∈ times runs, t = 0 := fun t ht =>
        le_antisymm (not_lt.mp fun hpos => hruns ⟨t, ht, hpos⟩) (hold.nonneg t ht)
      have hsound := hall _ (List.prefix_refl _)
      -- the only timed run is the last one, so its time is the least
      have hmin : (afterRuns jobType (runs ++ [run])).minExecTime.toInt = run.2.toInt := by
        obtain ⟨hmem, hpos⟩ := (hsound.minExecTime hts).1
        rw [times_concat, List.mem_append, List.mem_singleton] at hmem
        exact hmem.resolve_left fun hmem => hpos.ne' (hzero _ hmem)
      have hpos : 0 < run.2.toInt := hmin ▸ (hsound.minExecTime hts).1.2
      have hle := Int32.le_iff_toInt_le.mp (hsound.between hts).1
      rw [hmin, afterRuns_concat, hold.avg_timed hadm (pos_iff.mpr hpos), (hold.untimed hzero).2.2,
        mul_zero, zero_add, hold.totalAttempts] at hle
      have hnone : runs.length = 0 := by
        by_contra hne
        have hlt : run.2.toInt / (runs.length + 1) < run.2.toInt := by
          apply Int.ediv_lt_of_lt_mul (by omega)
          have hone : (1 : Int) ≤ runs.length := by omega
          nlinarith
        omega
      rw [List.length_eq_zero_iff.mp hnone]
      exact ⟨_, rfl, hpos⟩

/-- Runs of distinct ids in times that fit: after each of them the times are right exactly if no
untimed run came before the first timed one and, as long as every run was timed, the rounding of
the running sum has lost less than the number of runs. -/
theorem timesSound_iff (h : AllAdmissible jobType runs) :
    (∀ pre, pre <+: runs → TimesSound (afterRuns jobType pre) (times pre)) ↔
      TimedFirst (times runs) ∧ ∀ pre, pre <+: runs → pre ≠ [] → (∀ t ∈ times pre, 0 < t) →
        (times pre).sum - roundedSum (times pre) < pre.length := by
  have hmean {pre : List (Int32 × Int32)} (hpre : pre <+: runs) (hne : pre ≠ [])
      (hpos : ∀ t ∈ times pre, 0 < t) :
      |((afterRuns jobType pre).avgExecTime.toInt : ℚ) - ((times pre).sum : ℚ) /
          (times pre).length| < 1 ↔
        (times pre).sum - roundedSum (times pre) < pre.length := by
    have htimed := timed_afterRuns (h.of_prefix hpre)
    rw [mean_iff (by simpa [times] using hne) (by rw [length_times]; exact htimed.rounded hpos),
      length_times]
  constructor
  · intro hall
    refine ⟨timedFirst_of_sound h hall, fun pre hpre hne hpos => (hmean hpre hne hpos).mp ?_⟩
    exact (hall pre hpre).mean (by simpa [times] using hne) hpos
  · intro ⟨hfirst, hloss⟩ pre hpre
    have htimed := timed_afterRuns (h.of_prefix hpre)
    refine ⟨htimed.minExecTime, htimed.maxExecTime, fun hts => ⟨?_, ?_⟩, fun hne hpos => ?_⟩
    · exact Int32.le_iff_toInt_le.mpr
        (min_le_avg (h.of_prefix hpre) (hfirst.of_prefix hpre) hts)
    · exact Int32.le_iff_toInt_le.mpr htimed.avg_le
    · have hne' : pre ≠ [] := by
        rintro rfl
        exact hne rfl
      exact (hmean hpre hne' hpos).mpr (hloss pre hpre hne' hpos)

theorem timesSound_two_runs : AllAdmissible "refresh" [(1, 4), (2, 7)] ∧
    TimesSound (afterRuns "refresh" [(1, 4), (2, 7)]) (times [(1, 4), (2, 7)]) := by
  have hadm : AllAdmissible "refresh" [(1, 4), (2, 7)] :=
    (allAdmissible_nil.concat (1, 4) ⟨by decide, by decide, by decide, by decide⟩).concat (2, 7)
      ⟨by decide, by decide, by decide, by decide⟩
  have hsound := (timesSound_iff hadm).mpr
  refine ⟨hadm, hsound ⟨fun _ => ⟨4, rfl, by decide⟩, fun pre hpre hne _ => ?_⟩ _
    (List.prefix_refl _)⟩
  obtain rfl | hpre := List.prefix_concat_iff.mp (show pre <+: [(1, 4)] ++ [(2, 7)] from hpre)
  · decide
  · obtain rfl | hpre := List.prefix_concat_iff.mp (show pre <+: [] ++ [(1, 4)] from hpre)
    · decide
    · exact absurd (List.prefix_nil.mp hpre) hne

/-- An untimed run before the first timed one leaves the average under the least time, and three
timed runs are enough for the average to be off by a second. -/
theorem times_not_sound :
    (AllAdmissible "refresh" [(1, 0), (2, 6)] ∧
      ¬ TimesSound (afterRuns "refresh" [(1, 0), (2, 6)]) (times [(1, 0), (2, 6)])) ∧
    (AllAdmissible "refresh" [(1, 3), (2, 2), (3, 4)] ∧
      ¬ TimesSound (afterRuns "refresh" [(1, 3), (2, 2), (3, 4)])
        (times [(1, 3), (2, 2), (3, 4)])) := by
  refine ⟨⟨?_, fun h => ?_⟩, ?_, fun h => ?_⟩
  · exact (allAdmissible_nil.concat (1, 0) ⟨by decide, by decide, by decide, by decide⟩).concat
      (2, 6) ⟨by decide, by decide, by decide, by decide⟩
  · have hle := (h.between ⟨6, by decide⟩).1
    revert hle
    decide
  · exact ((allAdmissible_nil.concat (1, 3) ⟨by decide, by decide, by decide, by decide⟩).concat
      (2, 2) ⟨by decide, by decide, by decide, by decide⟩).concat
        (3, 4) ⟨by decide, by decide, by decide, by decide⟩
  · have hmean := h.mean (by decide) (by decide)
    rw [show (afterRuns "refresh" [(1, 3), (2, 2), (3, 4)]).avgExecTime = 2 by decide,
      show times [(1, 3), (2, 2), (3, 4)] = [3, 2, 4] by decide,
      show (2 : Int32).toInt = 2 by decide] at hmean
    norm_num at hmean

end InsightsAssist.JobStatistics
