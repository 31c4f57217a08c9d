import Std.Data.String.ToInt
import InsightsAssist.JobStatistics

/-! What a JobStat reports of itself. The percentages and the average are formed in 32 bits,
although what they are formed from and the right results fit. -/
namespace InsightsAssist.JobStatistics
open Runs

structure IAJobInfo where
  blocked : Int32
  blockedItypes : List String
  lastBlocked : Option Int
  lastRefreshed : Int
  deriving DecidableEq, Repr

def JOB_TEMPORARILY_BLOCKED : Int32 := 1

def JOB_NOT_BLOCKED : Int32 := 0

def IAJobInfo.getBlockStatusMessage (jobInfo : IAJobInfo) : String :=
  if JOB_NOT_BLOCKED < jobInfo.blocked then
    if jobInfo.blocked = JOB_TEMPORARILY_BLOCKED then "Temporarily Blocked"
    else "Permanently Blocked"
  else if 0 < jobInfo.blockedItypes.length then
    "[" ++ ", ".intercalate jobInfo.blockedItypes ++ "]"
  else "Not Blocked"

def ErrorType.label : ErrorType → String
  | .NATIVE_JOB_EXCEPTION => "NativeJobException"
  | .PREPROCESS_FAILED => "PreprocessFailed"
  | .ERROR_HTTP => "HTTP"
  | ErrorType.ERROR_IO => "IO"
  | .ERROR_PAGE => "Page"
  | .ERROR_SITE => "Site/Timeout"
  | .ERROR_NOACC => "NoAcc"
  | .ERROR_PASSWORD => "Password"
  | .ERROR_CHPASSWORD => "ChPassword"
  | .ERROR_USERACT => "UserAct"
  | .ERROR_INCOMPLETE_FILE => "IncompleteFile"
  | .ERROR_LOAD_FAILED => "LoadFailure"
  | .ERROR_USERACT_2FA => "UserAct2FA"

def ErrorType.all : List ErrorType :=
  [.NATIVE_JOB_EXCEPTION, .PREPROCESS_FAILED, .ERROR_HTTP, ErrorType.ERROR_IO, .ERROR_PAGE,
    .ERROR_SITE, .ERROR_NOACC, .ERROR_PASSWORD, .ERROR_CHPASSWORD, .ERROR_USERACT,
    .ERROR_INCOMPLETE_FILE, .ERROR_LOAD_FAILED, .ERROR_USERACT_2FA]

def IMPORTANCE_HIGH : String := "HIGH"

def IMPORTANCE_MEDIUM : String := "MEDIUM"

def IMPORTANCE_LOW : String := "LOW"

def IMPORTANCE_NONE : String := "NONE"

/-- The product of ints wraps, and the quotient truncates. -/
def percent (failures attempts : Int32) : Int32 :=
  if attempts = 0 then 0 else 100 * failures / attempts

namespace JobStat

def failureTypes (s : JobStat) : String :=
  ErrorType.all.foldl (fun sb i =>
    if s.errorCount i = 0 then sb
    else
      (if 0 < sb.length then sb ++ " " else sb) ++ i.label ++ "=" ++ toString (s.errorCount i)) ""

def percentFailure (s : JobStat) : Int32 := percent s.failures s.attempts

def totalPercentFailure (s : JobStat) : Int32 := percent s.totalFailures s.totalAttempts

def jobBlocked (jobInfo : Option IAJobInfo) : Bool :=
  jobInfo.any fun jobInfo => JOB_NOT_BLOCKED < jobInfo.blocked

def unfixedPageError (jobInfo : Option IAJobInfo) (s : JobStat) : Bool :=
  s.lastPageError.any fun lastPageError =>
    jobInfo.any fun jobInfo => jobInfo.lastRefreshed < lastPageError

def importance (jobInfo : Option IAJobInfo) (s : JobStat) : String :=
  if jobBlocked jobInfo ∨ s.unfixedPageError jobInfo ∨
      (80 ≤ s.percentFailure ∧ 5 ≤ s.attempts) ∨
      (80 ≤ s.totalPercentFailure ∧ 5 ≤ s.totalAttempts) then IMPORTANCE_HIGH
  else if 40 ≤ s.percentFailure then IMPORTANCE_MEDIUM
  else if 0 < s.percentFailure then IMPORTANCE_LOW
  else IMPORTANCE_NONE

def shortened (jobName : String) : String :=
  if 25 < jobName.length then .ofList (jobName.toList.take 25) ++ ".." else jobName

def jobNameForHTML (jobInfo : Option IAJobInfo) (s : JobStat) : String :=
  if jobBlocked jobInfo then
    s!"<span style=\"text-decoration: line-through;\">{shortened s.jobType}</span>"
  else shortened s.jobType

/-- The texts of the report. `format` is the format of timestamps. -/
def toStringArray (format : Int → String) (jobInfo : Option IAJobInfo) (forHTML : Bool)
    (s : JobStat) : List String :=
  [if forHTML then s.jobNameForHTML jobInfo else s.jobType,
    toString s.attempts, toString s.failures, toString s.percentFailure, s.importance jobInfo,
    if forHTML ∧ s.unfixedPageError jobInfo then
      s.failureTypes ++ "<br/><b>PAGE Error NOT FIXED</b>"
    else s.failureTypes,
    toString s.totalAttempts, toString s.totalFailures, toString s.totalPercentFailure,
    (jobInfo.map fun jobInfo => format jobInfo.lastRefreshed).getD "",
    (s.lastPageError.map format).getD "",
    ((jobInfo.bind IAJobInfo.lastBlocked).map format).getD "",
    (jobInfo.map IAJobInfo.getBlockStatusMessage).getD "",
    toString s.minExecTime, toString s.maxExecTime, toString s.avgExecTime]

end JobStat

/-- The calls, and a look at the report of a type between them. -/
inductive Step where
  | call (c : Call)
  | toStringArray (jobType : String) (jobInfo : Option IAJobInfo) (forHTML : Bool)
  deriving DecidableEq, Repr

def perform (m : JobStatMap) : Step → JobStatMap
  | .call c => call m c
  | .toStringArray .. => m

def CountersFit (m : JobStatMap) : Step → Prop
  | .call c => InRange m c
  | .toStringArray .. => True

instance (m : JobStatMap) (a : Step) : Decidable (CountersFit m a) := by
  unfold CountersFit
  split <;> infer_instance

def exactPercent (failures attempts : Int) : Int :=
  if attempts = 0 then 0 else 100 * failures / attempts

def ReportsPercent (items : List String) (i : Nat) (failures attempts : Int32) : Prop :=
  let p := exactPercent failures.toInt attempts.toInt
  items[i]? = some (toString p) ∧ 0 ≤ p ∧ p ≤ 100

/-- After a job the average of its type is not negative, and what is reported is exact. -/
def Exact (format : Int → String) (m : JobStatMap) : Step → Prop
  | .call (.jobExecuted (some jobType) id time) =>
    0 ≤ (stat (call m (.jobExecuted (some jobType) id time)) jobType).avgExecTime
  | .call _ => True
  | .toStringArray jobType jobInfo forHTML => ∀ s, m jobType = some s →
    ReportsPercent (s.toStringArray format jobInfo forHTML) 3 s.failures s.attempts ∧
      ReportsPercent (s.toStringArray format jobInfo forHTML) 8 s.totalFailures s.totalAttempts

/-- The dividend of the new average, before it wraps. -/
def weighted (s : JobStat) (timeInSecs : Int32) : Int :=
  s.totalAttempts.toInt * s.avgExecTime.toInt + timeInSecs.toInt

/-- The dividend wraps to no negative number, or to one that the division truncates to zero. -/
def AverageFits (s : JobStat) (jobExecutionId timeInSecs : Int32) : Prop :=
  s.jobErrors.lookup jobExecutionId = some .JOB_SUCCESS ∨ timeInSecs ≤ 0 ∨
    weighted s timeInSecs % 2 ^ 32 < 2 ^ 31 ∨
    2 ^ 32 - s.totalAttempts.toInt ≤ weighted s timeInSecs % 2 ^ 32

def ProductsFit (m : JobStatMap) : Step → Prop
  | .call (.jobExecuted (some jobType) id time) => AverageFits (stat m jobType) id time
  | .call _ => True
  | .toStringArray jobType _ _ => ∀ s, m jobType = some s →
    100 * s.failures.toInt < 2 ^ 31 ∧ 100 * s.totalFailures.toInt < 2 ^ 31

variable {m : JobStatMap} {s : JobStat} {jobType : String} {id time failures attempts : Int32}

/-! ### Percentages -/

theorem exactPercent_bounds {f a : Int} (h0 : 0 ≤ f) (hle : f ≤ a) :
    0 ≤ exactPercent f a ∧ exactPercent f a ≤ 100 := by
  rw [exactPercent]
  split
  · omega
  · have hpos : 0 < a := by omega
    exact ⟨Int.ediv_nonneg (by omega) hpos.le, Int.ediv_le_of_le_mul hpos (by omega)⟩

theorem toInt_hundred_mul (x : Int32) : (100 * x).toInt = (100 * x.toInt).bmod (2 ^ 32) :=
  Int32.toInt_mul 100 x

theorem toInt_div_pos (x : Int32) {y : Int32} (hy : 0 < y.toInt) :
    (x / y).toInt = x.toInt.tdiv y.toInt := by
  refine Int32.toInt_div_of_ne_right x y ?_
  intro hminus
  subst hminus
  exact absurd hy (by decide)

theorem tdiv_of_neg {w : Int} (hw : w < 0) (d : Int) : w.tdiv d = -(-w / d) := by
  rw [← Int.tdiv_eq_ediv_of_nonneg (by omega), Int.neg_tdiv, neg_neg]

theorem tdiv_nonneg_iff {w d : Int} (hd : 0 < d) : 0 ≤ w.tdiv d ↔ -d < w := by
  obtain hw | hw := le_or_gt 0 w
  · exact iff_of_true (Int.tdiv_nonneg hw hd.le) (by omega)
  · have hquot : 0 ≤ -w / d := Int.ediv_nonneg (by omega) hd.le
    have hzero : -w / d < 1 ↔ -w < 1 * d := Int.ediv_lt_iff_lt_mul hd
    rw [tdiv_of_neg hw]
    omega

/-- A product that does not fit loses at least `2 ^ 32`, and the quotient at least two. -/
theorem wrapped_quotient_ne {p a : Int} (hover : 2 ^ 31 ≤ p) (hpos : 0 < a) (hbound : a < 2 ^ 31)
    (hle : a ≤ p) : (p.bmod (2 ^ 32)).tdiv a ≠ p / a := by
  intro heq
  have hwrap : p.bmod (2 ^ 32) ≤ p - 2 ^ 32 := by
    rw [Int.bmod_def]
    split <;> omega
  have hone : 1 ≤ p / a := Int.le_ediv_of_mul_le hpos (by omega)
  have hnonneg : 0 ≤ p.bmod (2 ^ 32) := by
    by_contra hneg
    have hquot : 0 ≤ -p.bmod (2 ^ 32) / a := Int.ediv_nonneg (by omega) hpos.le
    rw [tdiv_of_neg (by omega)] at heq
    omega
  rw [Int.tdiv_eq_ediv_of_nonneg hnonneg] at heq
  have hquot : p < (p / a + 1) * a := Int.lt_ediv_add_one_mul_self p hpos
  have hwrapped : p.bmod (2 ^ 32) / a * a ≤ p.bmod (2 ^ 32) := Int.ediv_mul_le _ hpos.ne'
  rw [heq] at hwrapped
  rw [Int.add_mul] at hquot
  omega

theorem percent_eq_exact_iff (h0 : 0 ≤ failures.toInt) (hle : failures.toInt ≤ attempts.toInt) :
    (percent failures attempts).toInt = exactPercent failures.toInt attempts.toInt ↔
      100 * failures.toInt < 2 ^ 31 := by
  have hbound := toInt_le attempts
  obtain hzero | hpos : attempts.toInt = 0 ∨ 0 < attempts.toInt := by omega
  · have hattempts : attempts = 0 := by rw [← Int32.toInt_inj, hzero, Int32.toInt_zero]
    have hfailures : failures.toInt = 0 := by omega
    simp [percent, exactPercent, hattempts, hfailures]
  · have hne : attempts ≠ 0 := fun h => by simp [h] at hpos
    rw [percent, if_neg hne, exactPercent, if_neg hpos.ne', toInt_div_pos _ hpos,
      toInt_hundred_mul]
    constructor
    · intro heq
      by_contra hover
      exact wrapped_quotient_ne (by omega) hpos (by omega) (by omega) heq
    · intro hfits
      have hsame : (100 * failures.toInt).bmod (2 ^ 32) = 100 * failures.toInt :=
        Int.bmod_eq_of_le (by simp; omega) (by simp; omega)
      rw [hsame, Int.tdiv_eq_ediv_of_nonneg (by omega)]

theorem toString_eq_iff {x : Int32} {n : Int} : toString x = toString n ↔ x.toInt = n :=
  Int.repr_inj

theorem reportsPercent_iff {items : List String} {i : Nat}
    (hitem : items[i]? = some (toString (percent failures attempts)))
    (h0 : 0 ≤ failures.toInt) (hle : failures.toInt ≤ attempts.toInt) :
    ReportsPercent items i failures attempts ↔ 100 * failures.toInt < 2 ^ 31 := by
  rw [ReportsPercent, hitem, Option.some_inj, toString_eq_iff, percent_eq_exact_iff h0 hle]
  exact and_iff_left (exactPercent_bounds h0 hle)

/-! ### Averages -/

theorem avg_recordTime_nonneg_iff (hattempts : 0 ≤ s.totalAttempts.toInt)
    (hfits : s.totalAttempts.toInt < 2147483647) (htime : 0 < time) :
    0 ≤ (s.recordTime time).avgExecTime.toInt ↔
      weighted s time % 2 ^ 32 < 2 ^ 31 ∨
        2 ^ 32 - s.totalAttempts.toInt ≤ weighted s time % 2 ^ 32 := by
  have hnext := toInt_add_one hfits
  have hdividend : (s.totalAttempts * s.avgExecTime + time).toInt =
      (weighted s time).bmod (2 ^ 32) := by
    rw [Int32.toInt_add, Int32.toInt_mul, Int.bmod_add_bmod, weighted]
  rw [JobStat.recordTime, if_pos htime]
  simp only
  rw [toInt_div_pos _ (by omega), hnext, tdiv_nonneg_iff (by omega), hdividend, Int.bmod_def]
  split <;> omega

theorem avg_recordAttempt_nonneg_iff (hattempts : 0 ≤ s.totalAttempts.toInt)
    (hfits : s.totalAttempts.toInt < 2147483647) (havg : 0 ≤ s.avgExecTime.toInt) :
    0 ≤ (s.recordAttempt time).avgExecTime.toInt ↔ time ≤ 0 ∨
      weighted s time % 2 ^ 32 < 2 ^ 31 ∨
        2 ^ 32 - s.totalAttempts.toInt ≤ weighted s time % 2 ^ 32 := by
  by_cases htime : 0 < time
  · have hpos : ¬ time ≤ 0 := Int32.not_le.mpr htime
    rw [or_iff_right hpos]
    exact avg_recordTime_nonneg_iff (s := { s with attempts := s.attempts + 1 }) hattempts hfits
      htime
  · have hsame : (s.recordAttempt time).avgExecTime = s.avgExecTime := by
      simp [JobStat.recordAttempt, JobStat.recordTime, htime]
    rw [hsame]
    exact iff_of_true havg (.inl (Int32.not_lt.mp htime))

theorem avg_jobExecuted_nonneg_iff (hattempts : 0 ≤ s.totalAttempts.toInt)
    (hfits : s.totalAttempts.toInt < 2147483647) (havg : 0 ≤ s.avgExecTime.toInt) :
    0 ≤ (s.jobExecuted id time).avgExecTime.toInt ↔ AverageFits s id time := by
  rw [JobStat.jobExecuted, AverageFits]
  split
  · exact iff_of_true havg (.inl ‹_›)
  · rename_i hlookup
    rw [hlookup, or_iff_right (by simp)]
    exact avg_recordAttempt_nonneg_iff (s := s.recordFailure) hattempts hfits havg
  · rename_i hlookup
    rw [hlookup, or_iff_right (by simp)]
    exact avg_recordAttempt_nonneg_iff hattempts hfits havg

theorem avg_jobFailed {errorType : ErrorType} {now : Int} :
    (s.jobFailed id errorType now).avgExecTime = s.avgExecTime := by
  rw [JobStat.jobFailed]
  split <;> rfl

/-! ### Runs -/

/-- What the counters and averages keep in runs without a wrong average. -/
structure Regular (m : JobStatMap) : Prop where
  bounded : ∀ t, (stat m t).Bounded
  average : ∀ t, 0 ≤ (stat m t).avgExecTime.toInt

theorem regular_empty : Regular empty := ⟨fun t => JobStat.bounded_new t, fun _ => le_rfl⟩

theorem JobStat.Bounded.totalAttempts_nonneg (h : s.Bounded) : 0 ≤ s.totalAttempts.toInt := by
  have hnonneg := h.totalFailures_nonneg
  have hle := h.totalFailures_le
  omega

theorem stat_jobExecuted (t : Option String) :
    stat (call m (.jobExecuted t id time)) jobType =
      if t = some jobType then (stat m jobType).jobExecuted id time else stat m jobType :=
  stat_withStat t _

theorem Regular.perform {format : Int → String} {a : Step} (h : Regular m) (hfit : CountersFit m a)
    (hexact : Exact format m a) : Regular (perform m a) := by
  cases a with
  | toStringArray t info forHTML => exact h
  | call c =>
    refine ⟨bounded_call h.bounded hfit, fun t => ?_⟩
    have hold := h.average t
    cases c with
    | registerJob t' => rwa [JobStatistics.perform, stat_call]
    | jobExecuted t' id time =>
      by_cases ht : t' = some t
      · subst ht
        exact Int32.le_iff_toInt_le.mp hexact
      · rwa [JobStatistics.perform, stat_jobExecuted, if_neg ht]
    | jobFailed t' id errorType now =>
      rw [JobStatistics.perform, call, jobFailed, stat_withStat]
      split
      · rwa [avg_jobFailed]
      · exact hold
    | clearStats => rwa [JobStatistics.perform, stat_call]

theorem exact_iff_productsFit (format : Int → String) {a : Step} (h : Regular m)
    (hfit : CountersFit m a) : Exact format m a ↔ ProductsFit m a := by
  cases a with
  | toStringArray t info forHTML =>
    refine forall₂_congr fun s hs => ?_
    have hbounded : s.Bounded := by
      have := h.bounded t
      rwa [stat, hs, Option.getD_some] at this
    obtain ⟨hnonneg, hle, htnonneg, htle⟩ := hbounded
    exact and_congr (reportsPercent_iff rfl hnonneg (by omega))
      (reportsPercent_iff rfl htnonneg (by omega))
  | call c =>
    cases c with
    | jobExecuted t id time =>
      cases t with
      | none => exact Iff.rfl
      | some t =>
        have hroom : (stat m t).totalAttempts.toInt < 2147483647 := Int32.lt_iff_toInt_lt.mp hfit.2
        rw [Exact, ProductsFit, stat_jobExecuted, if_pos rfl, Int32.le_iff_toInt_le]
        exact avg_jobExecuted_nonneg_iff (h.bounded t).totalAttempts_nonneg hroom (h.average t)
    | registerJob t => exact Iff.rfl
    | jobFailed t id errorType now => exact Iff.rfl
    | clearStats => exact Iff.rfl

/-- Runs whose counters fit are exact iff the products that the code forms fit. -/
theorem exact_run_iff (format : Int → String) (h : List Step) (m : JobStatMap) :
    Run (total perform) (fun _ m a => CountersFit m a ∧ Exact format m a) empty h m ↔
      Run (total perform) (fun _ m a => CountersFit m a ∧ ProductsFit m a) empty h m := by
  constructor
  · refine Run.weaken_of_invariant (fun _ m => Regular m) regular_empty ?_ ?_
    · intro _ m a m' _ hreg ⟨hfit, hexact⟩ hstep
      cases hstep
      exact hreg.perform hfit hexact
    · intro _ m a _ hreg _ ⟨hfit, hexact⟩
      exact ⟨hfit, (exact_iff_productsFit format hreg hfit).mp hexact⟩
  · refine Run.weaken_of_invariant (fun _ m => Regular m) regular_empty ?_ ?_
    · intro _ m a m' _ hreg ⟨hfit, hproducts⟩ hstep
      cases hstep
      exact hreg.perform hfit ((exact_iff_productsFit format hreg hfit).mpr hproducts)
    · intro _ m a _ hreg _ ⟨hfit, hproducts⟩
      exact ⟨hfit, (exact_iff_productsFit format hreg hfit).mpr hproducts⟩

/-- Two jobs, the first as long as an int can tell. -/
def longJob : List Step :=
  [.call (.jobExecuted (some "report") 1 2147483647), .call (.jobExecuted (some "report") 2 1)]

/-- The average goes below zero in a run whose counters and times fit. -/
theorem average_negative :
    ¬ ∀ (format : Int → String) (h : List Step) (m : JobStatMap),
      Run (total perform) (fun _ m a => CountersFit m a) empty h m →
        Run (total perform) (fun _ m a => CountersFit m a ∧ Exact format m a) empty h m := by
  intro hall
  have hcheck (h : List Step) (m : JobStatMap) (a : Step) (ha : decide (CountersFit m a)) :
      CountersFit m a := of_decide_eq_true ha
  have hr : Run (total perform) (fun _ m a => CountersFit m a) empty longJob
      (longJob.foldl perform empty) := run_of_exec_checked hcheck rfl
  have hlast := (Run.snoc_iff (h := longJob.dropLast) (exec_total perform empty _) rfl).mp
    (hall (fun _ => "") longJob _ hr)
  have hexact : 0 ≤ (stat (longJob.foldl perform empty) "report").avgExecTime := hlast.2.2
  exact absurd hexact (by decide)

end InsightsAssist.JobStatistics
