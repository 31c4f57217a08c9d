import Mathlib.Data.Finmap
import InsightsAssist.Runs

/-! Statistics of the runs of each type of job, since midnight and since the start of the server.
The counters are ints, which may overflow. -/
namespace InsightsAssist.JobStatistics
open Runs

/-- The error types, which the source declares as ints from 0 to 12. -/
inductive ErrorType where
  | NATIVE_JOB_EXCEPTION
  | PREPROCESS_FAILED
  | ERROR_HTTP
  | ERROR_IO
  | ERROR_PAGE
  | ERROR_SITE
  | ERROR_NOACC
  | ERROR_PASSWORD
  | ERROR_CHPASSWORD
  | ERROR_USERACT
  | ERROR_INCOMPLETE_FILE
  | ERROR_LOAD_FAILED
  | ERROR_USERACT_2FA
  deriving DecidableEq, Repr

/-- What is recorded for an execution id; `JOB_SUCCESS` is the int -1. -/
inductive Outcome where
  | JOB_SUCCESS
  | error (errorType : ErrorType)
  deriving DecidableEq, Repr

structure JobStat where
  jobType : String
  attempts : Int32
  failures : Int32
  errorCount : ErrorType → Int32
  totalAttempts : Int32
  totalFailures : Int32
  lastPageError : Option Int
  minExecTime : Int32
  maxExecTime : Int32
  avgExecTime : Int32
  jobErrors : Finmap fun _ : Int32 => Outcome

namespace JobStat

def new (jobType : String) : JobStat :=
  ⟨jobType, 0, 0, fun _ => 0, 0, 0, none, 0, 0, 0, ∅⟩

def clearPrevDayStats (s : JobStat) : JobStat :=
  { s with errorCount := fun _ => 0, attempts := 0, failures := 0, jobErrors := ∅ }

def recordFailure (s : JobStat) : JobStat :=
  { s with failures := s.failures + 1, totalFailures := s.totalFailures + 1 }

/-- The division truncates. Its divisor could be 0 only after an overflow of the counter, where
the source throws. -/
def recordTime (timeInSecs : Int32) (s : JobStat) : JobStat :=
  if 0 < timeInSecs then
    { s with
      minExecTime :=
        if timeInSecs < s.minExecTime ∨ s.minExecTime = 0 then timeInSecs else s.minExecTime
      maxExecTime :=
        if s.maxExecTime < timeInSecs ∨ s.maxExecTime = 0 then timeInSecs else s.maxExecTime
      avgExecTime := (s.totalAttempts * s.avgExecTime + timeInSecs) / (s.totalAttempts + 1) }
  else s

/-- What `jobExecuted` does after the look-up. -/
def recordAttempt (timeInSecs : Int32) (s : JobStat) : JobStat :=
  let s := { s with attempts := s.attempts + 1 }.recordTime timeInSecs
  { s with totalAttempts := s.totalAttempts + 1 }

def jobExecuted (jobExecutionId timeInSecs : Int32) (s : JobStat) : JobStat :=
  match s.jobErrors.lookup jobExecutionId with
  | some .JOB_SUCCESS => s
  | some (.error _) => s.recordFailure.recordAttempt timeInSecs
  | none =>
    { s with jobErrors := s.jobErrors.insert jobExecutionId .JOB_SUCCESS }.recordAttempt timeInSecs

def recordError (jobExecutionId : Int32) (errorType : ErrorType) (now : Int) (s : JobStat) :
    JobStat :=
  { s with
    jobErrors := s.jobErrors.insert jobExecutionId (.error errorType)
    errorCount := Function.update s.errorCount errorType (s.errorCount errorType + 1)
    lastPageError := if errorType = .ERROR_PAGE then some now else s.lastPageError }

def jobFailed (jobExecutionId : Int32) (errorType : ErrorType) (now : Int) (s : JobStat) :
    JobStat :=
  match s.jobErrors.lookup jobExecutionId with
  | none => s.recordError jobExecutionId errorType now
  | some .JOB_SUCCESS => (s.recordError jobExecutionId errorType now).recordFailure
  | some (.error _) => s

inductive Call where
  | jobExecuted (jobExecutionId timeInSecs : Int32)
  | jobFailed (jobExecutionId : Int32) (errorType : ErrorType) (now : Int)
  | clearPrevDayStats
  deriving DecidableEq, Repr

def call (s : JobStat) : Call → JobStat
  | .jobExecuted id time => s.jobExecuted id time
  | .jobFailed id errorType now => s.jobFailed id errorType now
  | .clearPrevDayStats => s.clearPrevDayStats

end JobStat

/-- `jobStatMap`; its methods are synchronized. -/
abbrev JobStatMap := String → Option JobStat

/-- The JobStat of a type is created when it is first asked for; null is no type. -/
def withStat (jobType : Option String) (f : JobStat → JobStat) (m : JobStatMap) : JobStatMap :=
  match jobType with
  | none => m
  | some jobType => Function.update m jobType (some (f ((m jobType).getD (.new jobType))))

def registerJob (jobType : Option String) (m : JobStatMap) : JobStatMap := withStat jobType id m

def jobExecuted (jobType : Option String) (jobExecutionId timeInSecs : Int32) (m : JobStatMap) :
    JobStatMap :=
  withStat jobType (JobStat.jobExecuted jobExecutionId timeInSecs) m

def jobFailed (jobType : Option String) (jobExecutionId : Int32) (errorType : ErrorType)
    (now : Int) (m : JobStatMap) : JobStatMap :=
  withStat jobType (JobStat.jobFailed jobExecutionId errorType now) m

def clearStats (m : JobStatMap) : JobStatMap := fun jobType =>
  (m jobType).map JobStat.clearPrevDayStats

inductive Call where
  | registerJob (jobType : Option String)
  | jobExecuted (jobType : Option String) (jobExecutionId timeInSecs : Int32)
  | jobFailed (jobType : Option String) (jobExecutionId : Int32) (errorType : ErrorType) (now : Int)
  | clearStats
  deriving DecidableEq, Repr

def call (m : JobStatMap) : Call → JobStatMap
  | .registerJob jobType => registerJob jobType m
  | .jobExecuted jobType id time => jobExecuted jobType id time m
  | .jobFailed jobType id errorType now => jobFailed jobType id errorType now m
  | .clearStats => clearStats m

def empty : JobStatMap := fun _ => none

/-! ### The calls that concern one type -/

/-- The JobStat of a type, or the one that would be created. -/
def stat (m : JobStatMap) (jobType : String) : JobStat := (m jobType).getD (.new jobType)

def callOf (jobType : String) : Call → Option JobStat.Call
  | .registerJob _ => none
  | .jobExecuted t id time => if t = some jobType then some (.jobExecuted id time) else none
  | .jobFailed t id errorType now =>
    if t = some jobType then some (.jobFailed id errorType now) else none
  | .clearStats => some .clearPrevDayStats

def callsOf (jobType : String) (calls : List Call) : List JobStat.Call :=
  calls.filterMap (callOf jobType)

variable {m : JobStatMap} {s : JobStat} {jobType : String}

theorem stat_withStat (t : Option String) (f : JobStat → JobStat) :
    stat (withStat t f m) jobType =
      if t = some jobType then f (stat m jobType) else stat m jobType := by
  cases t with
  | none => simp [withStat]
  | some t =>
    by_cases h : t = jobType
    · subst h
      simp [withStat, stat]
    · simp [withStat, stat, h, Function.update_of_ne (Ne.symm h)]

theorem stat_call (c : Call) :
    stat (call m c) jobType =
      ((callOf jobType c).map (stat m jobType).call).getD (stat m jobType) := by
  cases c with
  | registerJob t =>
    rw [call, registerJob, stat_withStat]
    split <;> rfl
  | jobExecuted t id time =>
    rw [call, jobExecuted, stat_withStat, callOf]
    split <;> rfl
  | jobFailed t id errorType now =>
    rw [call, jobFailed, stat_withStat, callOf]
    split <;> rfl
  | clearStats =>
    simp only [call, clearStats, stat, callOf, Option.map_some, Option.getD_some]
    cases m jobType <;> rfl

/-- A JobStat sees the calls of its type, and the clearing at midnight. -/
theorem stat_foldl (m : JobStatMap) (calls : List Call) (jobType : String) :
    stat (calls.foldl call m) jobType =
      (callsOf jobType calls).foldl JobStat.call (stat m jobType) := by
  induction calls generalizing m with
  | nil => rfl
  | cons c calls ih =>
    rw [List.foldl_cons, ih, stat_call]
    simp only [callsOf, List.filterMap_cons]
    cases callOf jobType c <;> rfl

/-! ### Failures and attempts -/

/-- The counters of the type can take one more attempt. -/
def InRange (m : JobStatMap) : Call → Prop
  | .jobExecuted (some jobType) _ _ =>
    (stat m jobType).attempts < Int32.maxValue ∧ (stat m jobType).totalAttempts < Int32.maxValue
  | _ => True

instance (m : JobStatMap) (c : Call) : Decidable (InRange m c) := by
  unfold InRange
  split <;> infer_instance

def successes (jobErrors : Finmap fun _ : Int32 => Outcome) : Finset Int32 :=
  jobErrors.keys.filter fun id => jobErrors.lookup id = some .JOB_SUCCESS

/-- Each id recorded as successful stands for an attempt that may still fail. -/
structure JobStat.Bounded (s : JobStat) : Prop where
  failures_nonneg : 0 ≤ s.failures.toInt
  failures_le : s.failures.toInt + (successes s.jobErrors).card ≤ s.attempts.toInt
  totalFailures_nonneg : 0 ≤ s.totalFailures.toInt
  totalFailures_le : s.totalFailures.toInt + (successes s.jobErrors).card ≤ s.totalAttempts.toInt

variable {jobErrors : Finmap fun _ : Int32 => Outcome} {id time : Int32} {errorType : ErrorType}
  {now : Int}

theorem toInt_maxValue : Int32.maxValue.toInt = 2147483647 := rfl

theorem toInt_le (x : Int32) : x.toInt ≤ 2147483647 := Int.le_of_lt_add_one (Int32.toInt_lt x)

theorem toInt_add_one {x : Int32} (h : x.toInt < 2147483647) : (x + 1).toInt = x.toInt + 1 := by
  have hge := Int32.le_toInt x
  rw [Int32.toInt_add]
  exact Int.bmod_eq_of_le (by simp at hge ⊢; omega) (by simp; omega)

theorem mem_successes : id ∈ successes jobErrors ↔ jobErrors.lookup id = some .JOB_SUCCESS := by
  rw [successes, Finset.mem_filter, Finmap.mem_keys, Finmap.mem_iff]
  exact ⟨fun h => h.2, fun h => ⟨⟨_, h⟩, h⟩⟩

@[simp] theorem successes_empty : successes ∅ = ∅ := rfl

theorem successes_insert_success :
    successes (jobErrors.insert id .JOB_SUCCESS) = insert id (successes jobErrors) := by
  ext i
  rw [Finset.mem_insert, mem_successes, mem_successes]
  by_cases h : i = id
  · subst i
    simp
  · simp [h, Finmap.lookup_insert_of_ne _ h]

theorem successes_insert_error :
    successes (jobErrors.insert id (.error errorType)) = (successes jobErrors).erase id := by
  ext i
  rw [Finset.mem_erase, mem_successes, mem_successes]
  by_cases h : i = id
  · subst i
    simp
  · simp [h, Finmap.lookup_insert_of_ne _ h]

namespace JobStat

section recordAttempt
variable (s : JobStat) (time : Int32)

@[simp] theorem recordAttempt_attempts : (s.recordAttempt time).attempts = s.attempts + 1 := by
  simp only [recordAttempt, recordTime]
  split <;> rfl

@[simp] theorem recordAttempt_failures : (s.recordAttempt time).failures = s.failures := by
  simp only [recordAttempt, recordTime]
  split <;> rfl

@[simp] theorem recordAttempt_errorCount : (s.recordAttempt time).errorCount = s.errorCount := by
  simp only [recordAttempt, recordTime]
  split <;> rfl

@[simp] theorem recordAttempt_totalAttempts :
    (s.recordAttempt time).totalAttempts = s.totalAttempts + 1 := by
  simp only [recordAttempt, recordTime]
  split <;> rfl

@[simp] theorem recordAttempt_totalFailures :
    (s.recordAttempt time).totalFailures = s.totalFailures := by
  simp only [recordAttempt, recordTime]
  split <;> rfl

@[simp] theorem recordAttempt_jobErrors : (s.recordAttempt time).jobErrors = s.jobErrors := by
  simp only [recordAttempt, recordTime]
  split <;> rfl

end recordAttempt

theorem bounded_new (jobType : String) : (new jobType).Bounded := ⟨le_rfl, le_rfl, le_rfl, le_rfl⟩

theorem Bounded.clearPrevDayStats (h : s.Bounded) : s.clearPrevDayStats.Bounded := by
  have htotal := h.totalFailures_le
  refine ⟨le_rfl, le_rfl, h.totalFailures_nonneg, ?_⟩
  simp only [JobStat.clearPrevDayStats, successes_empty, Finset.card_empty]
  omega

theorem Bounded.jobExecuted (h : s.Bounded) (hattempts : s.attempts < Int32.maxValue)
    (htotal : s.totalAttempts < Int32.maxValue) : (s.jobExecuted id time).Bounded := by
  obtain ⟨hnonneg, hle, htnonneg, htle⟩ := h
  rw [Int32.lt_iff_toInt_lt, toInt_maxValue] at hattempts htotal
  have hattempts' := toInt_add_one hattempts
  have htotal' := toInt_add_one htotal
  rw [JobStat.jobExecuted]
  split
  · exact ⟨hnonneg, hle, htnonneg, htle⟩
  · have hfailures' := toInt_add_one (x := s.failures) (by omega)
    have htotalFailures' := toInt_add_one (x := s.totalFailures) (by omega)
    constructor <;> simp [recordFailure, hattempts', htotal', hfailures', htotalFailures'] <;> omega
  · rename_i hlookup
    have hnew : id ∉ successes s.jobErrors := by simp [mem_successes, hlookup]
    constructor <;>
      simp [hattempts', htotal', successes_insert_success, Finset.card_insert_of_notMem hnew] <;>
      omega

theorem Bounded.jobFailed (h : s.Bounded) : (s.jobFailed id errorType now).Bounded := by
  obtain ⟨hnonneg, hle, htnonneg, htle⟩ := h
  rw [JobStat.jobFailed]
  split
  · rename_i hlookup
    have hnew : id ∉ successes s.jobErrors := by simp [mem_successes, hlookup]
    have hsame : successes (s.recordError id errorType now).jobErrors = successes s.jobErrors :=
      successes_insert_error.trans (Finset.erase_eq_of_notMem hnew)
    exact ⟨hnonneg, hsame ▸ hle, htnonneg, hsame ▸ htle⟩
  · rename_i hlookup
    have hmem : id ∈ successes s.jobErrors := mem_successes.mpr hlookup
    have hcard := Finset.card_erase_add_one hmem
    have hattempts := toInt_le s.attempts
    have htotal := toInt_le s.totalAttempts
    have hfailures' := toInt_add_one (x := s.failures) (by omega)
    have htotalFailures' := toInt_add_one (x := s.totalFailures) (by omega)
    constructor <;>
      simp only [recordFailure, recordError, successes_insert_error, hfailures',
        htotalFailures'] <;> omega
  · exact ⟨hnonneg, hle, htnonneg, htle⟩

end JobStat

theorem bounded_call {c : Call} (h : ∀ t, (stat m t).Bounded) (hc : InRange m c) (t : String) :
    (stat (call m c) t).Bounded := by
  rw [stat_call]
  cases c with
  | registerJob t' => exact h t
  | jobExecuted t' id time =>
    rw [callOf]
    split
    · subst t'
      exact (h t).jobExecuted hc.1 hc.2
    · exact h t
  | jobFailed t' id errorType now =>
    rw [callOf]
    split
    · exact (h t).jobFailed
    · exact h t
  | clearStats => exact (h t).clearPrevDayStats

/-- In every run whose counters stay in the range of an int there are at most as many failures
as attempts, since midnight and since the start. -/
theorem failures_le_attempts {h : List Call}
    (hr : Run (total call) (fun _ m c => InRange m c) empty h m) (hs : m jobType = some s) :
    (0 ≤ s.failures ∧ s.failures ≤ s.attempts) ∧
      0 ≤ s.totalFailures ∧ s.totalFailures ≤ s.totalAttempts := by
  have hbounded : ∀ t, (stat m t).Bounded := by
    refine Run.invariant (fun _ m => ∀ t, (stat m t).Bounded) (fun t => ?_) ?_ hr
    · exact JobStat.bounded_new t
    · intro h m c m' _ hinv hc hstep
      cases hstep
      exact bounded_call hinv hc
  obtain ⟨hnonneg, hle, htnonneg, htle⟩ := hbounded jobType
  rw [stat, hs, Option.getD_some] at hnonneg hle htnonneg htle
  simp only [Int32.le_iff_toInt_le, Int32.toInt_zero]
  exact ⟨⟨hnonneg, by omega⟩, htnonneg, by omega⟩

/-- A job that fails twice, and one that fails before it is executed, with a midnight between. -/
def failing : List Call :=
  [.jobExecuted (some "refresh") 1 4, .jobFailed (some "refresh") 1 .ERROR_HTTP 10,
    .jobFailed (some "refresh") 1 ErrorType.ERROR_IO 11, .clearStats,
    .jobFailed (some "refresh") 2 .ERROR_PAGE 12, .jobExecuted (some "refresh") 2 0]

theorem failing_bounded :
    ∃ m s, Run (total call) (fun _ m c => InRange m c) empty failing m ∧
      m "refresh" = some s ∧ (0 ≤ s.failures ∧ s.failures ≤ s.attempts) ∧
        0 ≤ s.totalFailures ∧ s.totalFailures ≤ s.totalAttempts := by
  have hcheck (h : List Call) (m : JobStatMap) (c : Call) (hc : decide (InRange m c)) :
      InRange m c := of_decide_eq_true hc
  have hr : Run (total call) (fun _ m c => InRange m c) empty failing (failing.foldl call empty) :=
    run_of_exec_checked hcheck rfl
  have hs : failing.foldl call empty "refresh" = some (stat (failing.foldl call empty) "refresh") :=
    rfl
  exact ⟨_, _, hr, hs, failures_le_attempts hr hs⟩

end InsightsAssist.JobStatistics
