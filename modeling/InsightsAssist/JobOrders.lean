import InsightsAssist.Interleavings
import InsightsAssist.JobStatistics

/-! The counts of a day do not depend on the order in which the jobs make their calls. -/
namespace InsightsAssist.JobStatistics
open Interleavings

/-- What a JobStat counts, apart from times. -/
structure Counts where
  attempts : Int32
  failures : Int32
  errorCount : ErrorType → Int32
  totalAttempts : Int32
  totalFailures : Int32
  jobErrors : Finmap fun _ : Int32 => Outcome

def counts (s : JobStat) : Counts :=
  ⟨s.attempts, s.failures, s.errorCount, s.totalAttempts, s.totalFailures, s.jobErrors⟩

def executions (id : Int32) (calls : List JobStat.Call) : List Int32 :=
  calls.filterMap fun
    | .jobExecuted i time => if i = id then some time else none
    | _ => none

def errorTypes (id : Int32) (calls : List JobStat.Call) : List ErrorType :=
  calls.filterMap fun
    | .jobFailed i errorType _ => if i = id then some errorType else none
    | _ => none

/-- The same jobs: each makes the same calls, its failures in the same order. -/
structure SameJobs (calls calls' : List JobStat.Call) : Prop where
  executions : ∀ id, executions id calls = executions id calls'
  errorTypes : ∀ id, errorTypes id calls = errorTypes id calls'

inductive Key where
  | executed (id : Int32)
  | failed (id : Int32)
  | midnight
  deriving DecidableEq, Repr

def key : JobStat.Call → Key
  | .jobExecuted id _ => .executed id
  | .jobFailed id _ _ => .failed id
  | .clearPrevDayStats => .midnight

/-- The call at no particular time of day. -/
def timeless : JobStat.Call → JobStat.Call
  | .jobFailed id errorType _ => .jobFailed id errorType 0
  | c => c

variable {calls calls' : List JobStat.Call} {s s' : JobStat} {id i time time' : Int32}
  {errorType errorType' : ErrorType} {now now' : Int}

theorem part_executed : part key (.executed id) (calls.map timeless) =
    (executions id calls).map fun time => .jobExecuted id time := by
  induction calls with
  | nil => rfl
  | cons c calls ih =>
    cases c with
    | jobExecuted i time =>
      by_cases h : i = id <;> simp_all [part, key, timeless, executions]
    | jobFailed i errorType now => simp_all [part, key, timeless, executions]
    | clearPrevDayStats => simp_all [part, key, timeless, executions]

theorem part_failed : part key (.failed id) (calls.map timeless) =
    (errorTypes id calls).map fun errorType => .jobFailed id errorType 0 := by
  induction calls with
  | nil => rfl
  | cons c calls ih =>
    cases c with
    | jobExecuted i time => simp_all [part, key, timeless, errorTypes]
    | jobFailed i errorType now =>
      by_cases h : i = id <;> simp_all [part, key, timeless, errorTypes]
    | clearPrevDayStats => simp_all [part, key, timeless, errorTypes]

theorem part_midnight (h : .clearPrevDayStats ∉ calls) :
    part key .midnight (calls.map timeless) = [] := by
  rw [part_eq_nil_iff]
  intro c hc
  obtain ⟨c, hmem, rfl⟩ := List.mem_map.mp hc
  cases c with
  | jobExecuted i time => simp [timeless, key]
  | jobFailed i errorType now => simp [timeless, key]
  | clearPrevDayStats => exact absurd hmem h

theorem SameJobs.sameParts (h : SameJobs calls calls') (hday : .clearPrevDayStats ∉ calls)
    (hday' : .clearPrevDayStats ∉ calls') :
    SameParts key (calls.map timeless) (calls'.map timeless) := by
  intro k
  cases k with
  | executed id => rw [part_executed, part_executed, h.executions]
  | failed id => rw [part_failed, part_failed, h.errorTypes]
  | midnight => rw [part_midnight hday, part_midnight hday']

/-! ### The effect of a call on the counts -/

theorem counts_recordAttempt (h : counts s = counts s') :
    counts (s.recordAttempt time) = counts (s'.recordAttempt time') := by
  simp only [counts, Counts.mk.injEq] at h
  simp [counts, h]

theorem counts_call_congr (c : JobStat.Call) (h : counts s = counts s') :
    counts (s.call c) = counts (s'.call c) := by
  obtain ⟨ha, hf, he, hta, htf, hj⟩ := Counts.mk.inj h
  cases c with
  | jobExecuted id time =>
    simp only [JobStat.call, JobStat.jobExecuted, hj]
    split
    · exact h
    · exact counts_recordAttempt (by simp [counts, JobStat.recordFailure, *])
    · exact counts_recordAttempt (by simp [counts, *])
  | jobFailed id errorType now =>
    simp only [JobStat.call, JobStat.jobFailed, hj]
    split
    · simp [counts, JobStat.recordError, *]
    · simp [counts, JobStat.recordError, JobStat.recordFailure, *]
    · exact h
  | clearPrevDayStats => simp [JobStat.call, JobStat.clearPrevDayStats, counts, *]

theorem counts_timeless (c : JobStat.Call) : counts (s.call (timeless c)) = counts (s.call c) := by
  cases c with
  | jobExecuted id time => rfl
  | jobFailed id errorType now =>
    simp only [timeless, JobStat.call, JobStat.jobFailed]
    split <;> rfl
  | clearPrevDayStats => rfl

theorem counts_foldl_timeless (h : counts s = counts s') (calls : List JobStat.Call) :
    counts ((calls.map timeless).foldl JobStat.call s) = counts (calls.foldl JobStat.call s') := by
  induction calls generalizing s s' with
  | nil => exact h
  | cons c calls ih =>
    refine ih ?_
    rw [counts_timeless]
    exact counts_call_congr c h

theorem swap_executed (hne : id ≠ i) :
    counts ((s.call (.jobExecuted id time)).call (.jobExecuted i time')) =
      counts ((s.call (.jobExecuted i time')).call (.jobExecuted id time)) := by
  rcases hl : s.jobErrors.lookup id with _ | _ | e <;>
    rcases hl' : s.jobErrors.lookup i with _ | _ | e' <;>
    simp [JobStat.call, JobStat.jobExecuted, hl, hl', counts, JobStat.recordFailure,
      Finmap.lookup_insert_of_ne _ hne, Finmap.lookup_insert_of_ne _ hne.symm,
      Finmap.insert_insert_of_ne _ hne]

theorem count_comm (f : ErrorType → Int32) (a b : ErrorType) :
    let count (e : ErrorType) (f : ErrorType → Int32) := Function.update f e (f e + 1)
    count b (count a f) = count a (count b f) := by
  by_cases h : a = b
  · rw [h]
  · simp [h, Ne.symm h, Function.update_comm h]

theorem swap_failed (hne : id ≠ i) :
    counts ((s.call (.jobFailed id errorType now)).call (.jobFailed i errorType' now')) =
      counts ((s.call (.jobFailed i errorType' now')).call (.jobFailed id errorType now)) := by
  have hcount := count_comm s.errorCount errorType errorType'
  rcases hl : s.jobErrors.lookup id with _ | _ | e <;>
    rcases hl' : s.jobErrors.lookup i with _ | _ | e' <;>
    simp [JobStat.call, JobStat.jobFailed, hl, hl', counts, JobStat.recordFailure,
      JobStat.recordError, Finmap.lookup_insert_of_ne _ hne,
      Finmap.lookup_insert_of_ne _ hne.symm, Finmap.insert_insert_of_ne _ hne, hcount]

/-- An execution that has not been recorded yet is exchanged with a failure, of the same job or of
another one. -/
theorem swap_executed_failed (hnew : s.jobErrors.lookup id ≠ some .JOB_SUCCESS) :
    counts ((s.call (.jobExecuted id time)).call (.jobFailed i errorType now)) =
      counts ((s.call (.jobFailed i errorType now)).call (.jobExecuted id time)) := by
  by_cases hi : i = id
  · subst i
    rcases hl : s.jobErrors.lookup id with _ | _ | e
    · simp [JobStat.call, JobStat.jobExecuted, JobStat.jobFailed, hl, counts,
        JobStat.recordFailure, JobStat.recordError]
    · exact absurd hl hnew
    · simp [JobStat.call, JobStat.jobExecuted, JobStat.jobFailed, hl, counts,
        JobStat.recordFailure]
  · rcases hl : s.jobErrors.lookup id with _ | _ | e <;>
      rcases hl' : s.jobErrors.lookup i with _ | _ | e' <;>
      simp [JobStat.call, JobStat.jobExecuted, JobStat.jobFailed, hl, hl', counts,
        JobStat.recordFailure, JobStat.recordError, Finmap.lookup_insert_of_ne _ hi,
        Finmap.lookup_insert_of_ne _ (Ne.symm hi), Finmap.insert_insert_of_ne _ hi]

/-- Each job is executed once at most, and if it is, has not been recorded as executed before; no
midnight comes. -/
structure Pending (o : Counts) (calls : List JobStat.Call) : Prop where
  once : ∀ id, (part key (.executed id) calls).length ≤ 1
  fresh : ∀ id, part key (.executed id) calls ≠ [] → o.jobErrors.lookup id ≠ some .JOB_SUCCESS
  day : part key .midnight calls = []

theorem part_sublist (k : Key) (c : JobStat.Call) (calls : List JobStat.Call) :
    (part key k calls).Sublist (part key k (c :: calls)) :=
  (List.sublist_cons_self c calls).filter _

theorem Pending.tail {c : JobStat.Call} (h : Pending (counts s) (c :: calls)) :
    Pending (counts (s.call c)) calls where
  once id := (part_sublist _ c calls).length_le.trans (h.once id)
  fresh i hi := by
    have hsame : s.jobErrors.lookup i ≠ some .JOB_SUCCESS := h.fresh i fun hnil =>
      hi (List.sublist_nil.mp (hnil ▸ part_sublist _ c calls))
    cases c with
    | jobExecuted id time =>
      have hne : i ≠ id := by
        rintro rfl
        have hlength : (part key (.executed i) calls).length + 1 ≤ 1 := by
          have hpart : part key (.executed i) (.jobExecuted i time :: calls) =
            .jobExecuted i time :: part key (.executed i) calls := part_cons_self
          rw [← List.length_cons, ← hpart]
          exact h.once i
        exact hi (List.length_eq_zero_iff.mp (by omega))
      simp only [counts, JobStat.call, JobStat.jobExecuted]
      split <;> simp [JobStat.recordFailure, Finmap.lookup_insert_of_ne _ hne, hsame]
    | jobFailed id errorType now =>
      by_cases hid : i = id
      · subst i
        simp only [counts, JobStat.call, JobStat.jobFailed]
        split <;> simp [JobStat.recordFailure, JobStat.recordError, *]
      · simp only [counts, JobStat.call, JobStat.jobFailed]
        split <;> simp [JobStat.recordFailure, JobStat.recordError,
          Finmap.lookup_insert_of_ne _ hid, hsame]
    | clearPrevDayStats => simp [counts, JobStat.call, JobStat.clearPrevDayStats]
  day := List.sublist_nil.mp (h.day ▸ part_sublist _ c calls)

theorem commutes : Commutes JobStat.call counts key Pending where
  congr _ _ c h := counts_call_congr c h
  tail _ _ _ h := h.tail
  perm o l l' h hok := by
    refine ⟨fun id => ?_, fun id => ?_, ?_⟩
    · rw [← h]
      exact hok.once id
    · rw [← h]
      exact hok.fresh id
    · rw [← h]
      exact hok.day
  swap s a b l hne hok := by
    have hexecuted (c : JobStat.Call) (hc : c ∈ a :: b :: l) : key c ≠ .midnight :=
      part_eq_nil_iff.mp hok.day c hc
    have hfresh (id time : Int32) (hc : .jobExecuted id time ∈ a :: b :: l) :
        s.jobErrors.lookup id ≠ some .JOB_SUCCESS :=
      hok.fresh id fun hnil => part_eq_nil_iff.mp hnil _ hc rfl
    cases a with
    | jobExecuted id time =>
      cases b with
      | jobExecuted i time' => exact swap_executed fun h => hne (congrArg Key.executed h)
      | jobFailed i errorType now => exact swap_executed_failed (hfresh id time (by simp))
      | clearPrevDayStats => exact absurd rfl (hexecuted .clearPrevDayStats (by simp))
    | jobFailed id errorType now =>
      cases b with
      | jobExecuted i time => exact (swap_executed_failed (hfresh i time (by simp))).symm
      | jobFailed i errorType' now' => exact swap_failed fun h => hne (congrArg Key.failed h)
      | clearPrevDayStats => exact absurd rfl (hexecuted .clearPrevDayStats (by simp))
    | clearPrevDayStats => exact absurd rfl (hexecuted .clearPrevDayStats (by simp))

/-- Whatever the order in which the jobs of a type make their calls on a day, and whether a job's
execution is reported before, between or after its failures: the counts are the same. -/
theorem counts_eq_of_sameJobs {m : JobStatMap} {calls calls' : List Call} {jobType : String}
    (h : SameJobs (callsOf jobType calls) (callsOf jobType calls'))
    (honce : ∀ id, (executions id (callsOf jobType calls)).length ≤ 1)
    (hfresh : ∀ id, executions id (callsOf jobType calls) ≠ [] →
      (stat m jobType).jobErrors.lookup id ≠ some .JOB_SUCCESS)
    (hday : .clearStats ∉ calls) (hday' : .clearStats ∉ calls') :
    counts (stat (calls.foldl call m) jobType) = counts (stat (calls'.foldl call m) jobType) := by
  have hclear {calls : List Call} (hday : .clearStats ∉ calls) :
      .clearPrevDayStats ∉ callsOf jobType calls := by
    intro hmem
    obtain ⟨c, hc, hof⟩ := List.mem_filterMap.mp hmem
    cases c with
    | registerJob t => cases hof
    | jobExecuted t id time => cases (Option.ite_none_right_eq_some.mp hof).2
    | jobFailed t id errorType now => cases (Option.ite_none_right_eq_some.mp hof).2
    | clearStats => exact hday hc
  have hok : Pending (counts (stat m jobType)) ((callsOf jobType calls).map timeless) := by
    refine ⟨fun id => ?_, fun id hne => ?_, part_midnight (hclear hday)⟩
    · rw [part_executed, List.length_map]
      exact honce id
    · rw [part_executed] at hne
      exact hfresh id fun hnil => hne (by rw [hnil, List.map_nil])
  have htimeless (calls : List Call) : counts (stat (calls.foldl call m) jobType) =
      counts (((callsOf jobType calls).map timeless).foldl JobStat.call (stat m jobType)) := by
    rw [stat_foldl, counts_foldl_timeless rfl]
  rw [htimeless, htimeless]
  exact commutes.foldl_eq (h.sameParts (hclear hday) (hclear hday')) hok

/-- Two jobs whose executions are reported before their failures, and the other way round. -/
theorem counts_eq_two_jobs :
    let executedFirst : List Call :=
      [.jobExecuted (some "refresh") 1 4, .jobExecuted (some "refresh") 2 7,
        .jobFailed (some "refresh") 1 .ERROR_HTTP 10, .jobFailed (some "refresh") 2 .ERROR_PAGE 11,
        .jobFailed (some "refresh") 1 ErrorType.ERROR_IO 12]
    let failedFirst : List Call :=
      [.jobFailed (some "refresh") 2 .ERROR_PAGE 10, .jobFailed (some "refresh") 1 .ERROR_HTTP 10,
        .jobFailed (some "refresh") 1 ErrorType.ERROR_IO 11, .jobExecuted (some "refresh") 2 7,
        .jobExecuted (some "refresh") 1 4]
    counts (stat (executedFirst.foldl call empty) "refresh") =
      counts (stat (failedFirst.foldl call empty) "refresh") := by
  intro executedFirst failedFirst
  have hcases (id : Int32) : 1 = id ∨ 2 = id ∨ (1 ≠ id ∧ 2 ≠ id) := by
    by_cases h1 : 1 = id <;> by_cases h2 : 2 = id <;> simp [h1, h2]
  refine counts_eq_of_sameJobs ⟨fun id => ?_, fun id => ?_⟩ (fun id => ?_) (fun id _ => ?_)
    (by decide) (by decide)
  · obtain rfl | rfl | ⟨h1, h2⟩ := hcases id
    · rfl
    · rfl
    · simp [callsOf, callOf, executions, executedFirst, failedFirst, h1, h2]
  · obtain rfl | rfl | ⟨h1, h2⟩ := hcases id
    · rfl
    · rfl
    · simp [callsOf, callOf, errorTypes, executedFirst, failedFirst, h1, h2]
  · obtain rfl | rfl | ⟨h1, h2⟩ := hcases id
    · decide
    · decide
    · simp [callsOf, callOf, executions, executedFirst, h1, h2]
  · simp [stat, empty, JobStat.new]

end InsightsAssist.JobStatistics
