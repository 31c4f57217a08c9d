import Mathlib.Data.Finset.Card
import Mathlib.Data.List.DropRight
import InsightsAssist.JobStatistics

/-! The totals since the start of the server, which are kept through a map that midnight empties. -/
namespace InsightsAssist.JobStatistics

def executedIds (calls : List JobStat.Call) : List Int32 :=
  calls.filterMap fun
    | .jobExecuted id _ => some id
    | _ => none

def failedIds (calls : List JobStat.Call) : List Int32 :=
  calls.filterMap fun
    | .jobFailed id _ _ => some id
    | _ => none

/-- Each job is executed once, and fails any number of times. -/
structure OneExecution (calls : List JobStat.Call) : Prop where
  once : (executedIds calls).Nodup
  executed : ∀ id ∈ failedIds calls, id ∈ executedIds calls

structure ExactTotals (s : JobStat) (calls : List JobStat.Call) : Prop where
  totalAttempts : s.totalAttempts.toInt = (executedIds calls).length
  totalFailures : s.totalFailures.toInt =
    ((executedIds calls).filter fun id => decide (id ∈ failedIds calls)).length

/-- A `jobFailed` call of the id and its execution, with no midnight between them. -/
def SameDay (calls : List JobStat.Call) (id : Int32) : Prop :=
  ∃ day, day <:+: calls ∧ .clearPrevDayStats ∉ day ∧ id ∈ executedIds day ∧ id ∈ failedIds day

def today (calls : List JobStat.Call) : List JobStat.Call :=
  calls.rtakeWhile (· ≠ .clearPrevDayStats)

variable {calls d : List JobStat.Call} {c : JobStat.Call} {id i time : Int32}
  {errorType : ErrorType} {now : Int} {s : JobStat}

theorem today_clear : today (calls ++ [.clearPrevDayStats]) = [] := by
  simp [today]

theorem today_concat (h : c ≠ .clearPrevDayStats) : today (calls ++ [c]) = today calls ++ [c] := by
  simp [today, h]

theorem today_executed :
    today (calls ++ [.jobExecuted id time]) = today calls ++ [.jobExecuted id time] :=
  today_concat (by simp)

theorem today_failed : today (calls ++ [.jobFailed id errorType now]) =
    today calls ++ [.jobFailed id errorType now] :=
  today_concat (by simp)

theorem today_suffix : today calls <:+ calls := List.rtakeWhile_suffix _ _

theorem clear_not_mem_today : .clearPrevDayStats ∉ today calls := fun h => by
  simpa using List.mem_rtakeWhile_imp h

@[simp] theorem executedIds_concat_executed :
    executedIds (calls ++ [.jobExecuted id time]) = executedIds calls ++ [id] := by
  simp [executedIds]

@[simp] theorem executedIds_concat_failed :
    executedIds (calls ++ [.jobFailed id errorType now]) = executedIds calls := by
  simp [executedIds]

@[simp] theorem executedIds_concat_clear :
    executedIds (calls ++ [.clearPrevDayStats]) = executedIds calls := by
  simp [executedIds]

@[simp] theorem failedIds_concat_executed :
    failedIds (calls ++ [.jobExecuted id time]) = failedIds calls := by
  simp [failedIds]

@[simp] theorem failedIds_concat_failed :
    failedIds (calls ++ [.jobFailed id errorType now]) = failedIds calls ++ [id] := by
  simp [failedIds]

theorem executedIds_subset (h : d <:+: calls) (hid : id ∈ executedIds d) :
    id ∈ executedIds calls :=
  (h.sublist.filterMap _).subset hid

theorem failedIds_subset (h : d <:+: calls) (hid : id ∈ failedIds d) : id ∈ failedIds calls :=
  (h.sublist.filterMap _).subset hid

theorem suffix_today (h : d <:+ calls) (hd : .clearPrevDayStats ∉ d) : d <:+ today calls := by
  induction calls using List.reverseRecOn generalizing d with
  | nil => simpa [today] using h
  | append_singleton calls c ih =>
    obtain rfl | ⟨d, rfl, hsuffix⟩ := List.suffix_concat_iff.mp h
    · exact List.nil_suffix
    · simp only [List.mem_append, List.mem_singleton, not_or] at hd
      rw [today_concat (Ne.symm hd.2)]
      exact List.suffix_concat_iff.mpr (.inr ⟨d, rfl, ih hsuffix hd.1⟩)

theorem sameDay_concat : SameDay (calls ++ [c]) id ↔
    SameDay calls id ∨
      (id ∈ executedIds (today (calls ++ [c])) ∧ id ∈ failedIds (today (calls ++ [c]))) := by
  constructor
  · intro ⟨day, hday, hclear, hexecuted, hfailed⟩
    obtain hsuffix | hinfix := List.infix_concat_iff.mp hday
    · have htoday := (suffix_today hsuffix hclear).isInfix
      exact .inr ⟨executedIds_subset htoday hexecuted, failedIds_subset htoday hfailed⟩
    · exact .inl ⟨day, hinfix, hclear, hexecuted, hfailed⟩
  · rintro (⟨day, hday, hclear, hids⟩ | hids)
    · exact ⟨day, hday.trans (List.prefix_append _ _).isInfix, hclear, hids⟩
    · exact ⟨_, today_suffix.isInfix, clear_not_mem_today, hids⟩

theorem SameDay.of_today (hexecuted : id ∈ executedIds (today calls))
    (hfailed : id ∈ failedIds (today calls)) : SameDay calls id :=
  ⟨_, today_suffix.isInfix, clear_not_mem_today, hexecuted, hfailed⟩

theorem sameDay_concat_executed : SameDay (calls ++ [.jobExecuted id time]) i ↔
    SameDay calls i ∨ (i = id ∧ id ∈ failedIds (today calls)) := by
  rw [sameDay_concat, today_executed, executedIds_concat_executed, failedIds_concat_executed,
    List.mem_append, List.mem_singleton]
  constructor
  · intro h
    obtain hold | ⟨hi | rfl, hfailed⟩ := h
    · exact .inl hold
    · exact .inl (.of_today hi hfailed)
    · exact .inr ⟨rfl, hfailed⟩
  · intro h
    obtain hold | ⟨rfl, hfailed⟩ := h
    · exact .inl hold
    · exact .inr ⟨.inr rfl, hfailed⟩

theorem sameDay_concat_failed : SameDay (calls ++ [.jobFailed id errorType now]) i ↔
    SameDay calls i ∨ (i = id ∧ id ∈ executedIds (today calls)) := by
  rw [sameDay_concat, today_failed, executedIds_concat_failed, failedIds_concat_failed,
    List.mem_append, List.mem_singleton]
  constructor
  · intro h
    obtain hold | ⟨hexecuted, hi | rfl⟩ := h
    · exact .inl hold
    · exact .inl (.of_today hexecuted hi)
    · exact .inr ⟨rfl, hexecuted⟩
  · intro h
    obtain hold | ⟨rfl, hexecuted⟩ := h
    · exact .inl hold
    · exact .inr ⟨hexecuted, .inr rfl⟩

theorem SameDay.executed (h : SameDay calls id) : id ∈ executedIds calls := by
  obtain ⟨day, hday, _, hexecuted, _⟩ := h
  exact executedIds_subset hday hexecuted

theorem SameDay.failed (h : SameDay calls id) : id ∈ failedIds calls := by
  obtain ⟨day, hday, _, _, hfailed⟩ := h
  exact failedIds_subset hday hfailed

theorem SameDay.failed_today (h : SameDay calls id) (honce : (executedIds calls).Nodup)
    (htoday : id ∈ executedIds (today calls)) : id ∈ failedIds (today calls) := by
  induction calls using List.reverseRecOn with
  | nil => simp [today, executedIds] at htoday
  | append_singleton calls c ih =>
    obtain hold | ⟨_, hfailed⟩ := sameDay_concat.mp h
    · cases c with
      | jobExecuted i time =>
        rw [executedIds_concat_executed, List.nodup_append] at honce
        rw [today_executed, failedIds_concat_executed]
        rw [today_executed, executedIds_concat_executed, List.mem_append,
          List.mem_singleton] at htoday
        obtain htoday | rfl := htoday
        · exact ih hold honce.1 htoday
        · exact absurd rfl (honce.2.2 id hold.executed id (by simp))
      | jobFailed i errorType now =>
        rw [executedIds_concat_failed] at honce
        rw [today_failed, executedIds_concat_failed] at htoday
        rw [today_failed, failedIds_concat_failed]
        exact List.mem_append_left _ (ih hold honce htoday)
      | clearPrevDayStats =>
        rw [today_clear] at htoday
        cases htoday
    · exact hfailed

structure Shows (jobErrors : Finmap fun _ : Int32 => Outcome) (day : List JobStat.Call) : Prop where
  unknown : ∀ id, jobErrors.lookup id = none ↔ id ∉ executedIds day ∧ id ∉ failedIds day
  success : ∀ id, jobErrors.lookup id = some .JOB_SUCCESS ↔
    id ∈ executedIds day ∧ id ∉ failedIds day

namespace Shows
variable {jobErrors : Finmap fun _ : Int32 => Outcome} {day : List JobStat.Call}

theorem failed_of_error (h : Shows jobErrors day)
    (hlookup : jobErrors.lookup id = some (.error errorType)) : id ∈ failedIds day := by
  by_contra hno
  by_cases hexecuted : id ∈ executedIds day
  · simpa [hlookup] using (h.success id).mpr ⟨hexecuted, hno⟩
  · simpa [hlookup] using (h.unknown id).mpr ⟨hexecuted, hno⟩

theorem executed (h : Shows jobErrors day) (hfailed : id ∈ failedIds day) :
    Shows jobErrors (day ++ [.jobExecuted id time]) where
  unknown i := by
    rw [h.unknown, executedIds_concat_executed, failedIds_concat_executed, List.mem_append,
      List.mem_singleton, not_or, and_assoc]
    refine and_congr_right fun _ => ⟨fun hf => ⟨?_, hf⟩, And.right⟩
    rintro rfl
    exact hf hfailed
  success i := by
    rw [h.success, executedIds_concat_executed, failedIds_concat_executed, List.mem_append,
      List.mem_singleton]
    refine and_congr_left fun hf => ⟨.inl, fun he => he.resolve_right ?_⟩
    rintro rfl
    exact hf hfailed

theorem insert_success (h : Shows jobErrors day) (hlookup : jobErrors.lookup id = none) :
    Shows (jobErrors.insert id .JOB_SUCCESS) (day ++ [.jobExecuted id time]) := by
  have hno : id ∉ failedIds day := ((h.unknown id).mp hlookup).2
  constructor <;> intro i <;> by_cases hi : i = id
  · subst i
    simp
  · simp [hi, Finmap.lookup_insert_of_ne _ hi, h.unknown]
  · subst i
    simp [hno]
  · simp [hi, Finmap.lookup_insert_of_ne _ hi, h.success]

theorem failed (h : Shows jobErrors day) (hfailed : id ∈ failedIds day) :
    Shows jobErrors (day ++ [.jobFailed id errorType now]) := by
  have hsame (i : Int32) : i ∈ failedIds day ++ [id] ↔ i ∈ failedIds day := by
    rw [List.mem_append, List.mem_singleton, or_iff_left_iff_imp]
    rintro rfl
    exact hfailed
  constructor <;> intro i
  · rw [h.unknown, executedIds_concat_failed, failedIds_concat_failed, hsame]
  · rw [h.success, executedIds_concat_failed, failedIds_concat_failed, hsame]

theorem insert_error (h : Shows jobErrors day) :
    Shows (jobErrors.insert id (.error errorType)) (day ++ [.jobFailed id errorType now]) := by
  constructor <;> intro i <;> by_cases hi : i = id
  · subst i
    simp
  · simp [hi, Finmap.lookup_insert_of_ne _ hi, h.unknown]
  · subst i
    simp
  · simp [hi, Finmap.lookup_insert_of_ne _ hi, h.success]

end Shows

/-- What a JobStat holds after the calls: in its map those of today, and in the totals the jobs
that have been counted. -/
structure Recorded (s : JobStat) (calls : List JobStat.Call) : Prop where
  shows : Shows s.jobErrors (today calls)
  totalAttempts : s.totalAttempts = Int32.ofNat (executedIds calls).length
  totalFailures : ∃ counted : Finset Int32, (∀ id, id ∈ counted ↔ SameDay calls id) ∧
    s.totalFailures = Int32.ofNat counted.card

namespace Recorded

theorem new {jobType : String} : Recorded (.new jobType) [] where
  shows := ⟨fun id => by simp [JobStat.new, today, executedIds, failedIds],
    fun id => by simp [JobStat.new, today, executedIds]⟩
  totalAttempts := rfl
  totalFailures := by
    refine ⟨∅, fun id => ?_, rfl⟩
    rw [iff_false_left (Finset.notMem_empty id)]
    intro h
    simpa [executedIds] using h.executed

theorem clearPrevDayStats (h : Recorded s calls) :
    Recorded s.clearPrevDayStats (calls ++ [.clearPrevDayStats]) where
  shows := by
    rw [today_clear]
    exact ⟨fun id => by simp [JobStat.clearPrevDayStats, executedIds, failedIds],
      fun id => by simp [JobStat.clearPrevDayStats, executedIds]⟩
  totalAttempts := by
    rw [executedIds_concat_clear]
    exact h.totalAttempts
  totalFailures := by
    obtain ⟨counted, hcounted, htotal⟩ := h.totalFailures
    refine ⟨counted, fun id => ?_, htotal⟩
    rw [sameDay_concat, today_clear, hcounted]
    simp [executedIds]

theorem count (h : Recorded s calls) (id : Int32)
    (hids : ∀ i, SameDay (calls ++ [c]) i ↔ SameDay calls i ∨ i = id)
    (hnew : ¬ SameDay calls id) : ∃ counted : Finset Int32,
      (∀ i, i ∈ counted ↔ SameDay (calls ++ [c]) i) ∧
        s.totalFailures + 1 = Int32.ofNat counted.card := by
  obtain ⟨counted, hcounted, htotal⟩ := h.totalFailures
  refine ⟨insert id counted, fun i => ?_, ?_⟩
  · rw [Finset.mem_insert, hcounted, hids, or_comm]
  · rw [Finset.card_insert_of_notMem (by rwa [hcounted]), htotal]
    exact (Int32.ofNat_add _ _).symm

theorem same (h : Recorded s calls) (hids : ∀ i, SameDay (calls ++ [c]) i ↔ SameDay calls i) :
    ∃ counted : Finset Int32, (∀ i, i ∈ counted ↔ SameDay (calls ++ [c]) i) ∧
      s.totalFailures = Int32.ofNat counted.card := by
  obtain ⟨counted, hcounted, htotal⟩ := h.totalFailures
  exact ⟨counted, fun i => by rw [hcounted, hids], htotal⟩

theorem jobExecuted (h : Recorded s calls) (hnew : id ∉ executedIds calls) :
    Recorded (s.jobExecuted id time) (calls ++ [.jobExecuted id time]) := by
  have hnotToday : id ∉ executedIds (today calls) := fun hid =>
    hnew (executedIds_subset today_suffix.isInfix hid)
  have hcount : s.totalAttempts + 1 =
      Int32.ofNat (executedIds (calls ++ [.jobExecuted id time])).length := by
    rw [h.totalAttempts, executedIds_concat_executed, List.length_append, List.length_singleton]
    exact (Int32.ofNat_add _ _).symm
  rw [JobStat.jobExecuted]
  split
  · rename_i hlookup
    exact absurd ((h.shows.success id).mp hlookup).1 hnotToday
  · rename_i errorType hlookup
    have hfailed := h.shows.failed_of_error hlookup
    refine ⟨?_, ?_, ?_⟩
    · rw [today_executed, JobStat.recordAttempt_jobErrors]
      exact h.shows.executed hfailed
    · rw [JobStat.recordAttempt_totalAttempts]
      exact hcount
    · rw [JobStat.recordAttempt_totalFailures]
      refine h.count id (fun i => ?_) fun hold => hnew hold.executed
      rw [sameDay_concat_executed, and_iff_left hfailed]
  · rename_i hlookup
    have hnotFailed : id ∉ failedIds (today calls) := ((h.shows.unknown id).mp hlookup).2
    refine ⟨?_, ?_, ?_⟩
    · rw [today_executed, JobStat.recordAttempt_jobErrors]
      exact h.shows.insert_success hlookup
    · rw [JobStat.recordAttempt_totalAttempts]
      exact hcount
    · rw [JobStat.recordAttempt_totalFailures]
      refine h.same fun i => ?_
      rw [sameDay_concat_executed, or_iff_left_iff_imp]
      exact fun hi => absurd hi.2 hnotFailed

theorem jobFailed (h : Recorded s calls) (honce : (executedIds calls).Nodup) :
    Recorded (s.jobFailed id errorType now) (calls ++ [.jobFailed id errorType now]) := by
  have hattempts : s.totalAttempts =
      Int32.ofNat (executedIds (calls ++ [.jobFailed id errorType now])).length := by
    rw [executedIds_concat_failed]
    exact h.totalAttempts
  rw [JobStat.jobFailed]
  split
  · rename_i hlookup
    refine ⟨today_failed ▸ h.shows.insert_error, hattempts, h.same fun i => ?_⟩
    rw [sameDay_concat_failed, or_iff_left_iff_imp]
    exact fun hi => absurd hi.2 ((h.shows.unknown id).mp hlookup).1
  · rename_i hlookup
    obtain ⟨hexecuted, hnotFailed⟩ := (h.shows.success id).mp hlookup
    refine ⟨today_failed ▸ h.shows.insert_error, hattempts, h.count id (fun i => ?_) fun hold => ?_⟩
    · rw [sameDay_concat_failed, and_iff_left hexecuted]
    · exact hnotFailed (hold.failed_today honce hexecuted)
  · rename_i other hlookup
    have hfailed := h.shows.failed_of_error hlookup
    refine ⟨today_failed ▸ h.shows.failed hfailed, hattempts, h.same fun i => ?_⟩
    rw [sameDay_concat_failed, or_iff_left_iff_imp]
    rintro ⟨rfl, hexecuted⟩
    exact .of_today hexecuted hfailed

end Recorded

theorem recorded_foldl {jobType : String} (honce : (executedIds calls).Nodup) :
    Recorded (calls.foldl JobStat.call (.new jobType)) calls := by
  induction calls using List.reverseRecOn with
  | nil => exact .new
  | append_singleton calls c ih =>
    rw [List.foldl_append, List.foldl_cons, List.foldl_nil]
    cases c with
    | jobExecuted id time =>
      rw [executedIds_concat_executed, List.nodup_append] at honce
      exact (ih honce.1).jobExecuted fun hid => honce.2.2 id hid id (by simp) rfl
    | jobFailed id errorType now =>
      rw [executedIds_concat_failed] at honce
      exact (ih honce).jobFailed honce
    | clearPrevDayStats =>
      rw [executedIds_concat_clear] at honce
      exact (ih honce).clearPrevDayStats

theorem totalAttempts_iff (h : Recorded s calls) :
    s.totalAttempts.toInt = (executedIds calls).length ↔ (executedIds calls).length < 2 ^ 31 := by
  have hlt := Int32.toInt_lt s.totalAttempts
  constructor
  · intro heq
    omega
  · intro hlt
    rw [h.totalAttempts]
    exact Int32.toInt_ofNat_of_lt hlt

theorem totalFailures_iff (h : Recorded s calls) (hone : OneExecution calls)
    (hlt : (executedIds calls).length < 2 ^ 31) :
    s.totalFailures.toInt =
        ((executedIds calls).filter fun id => decide (id ∈ failedIds calls)).length ↔
      ∀ id ∈ failedIds calls, SameDay calls id := by
  obtain ⟨counted, hcounted, htotal⟩ := h.totalFailures
  set failing := (executedIds calls).filter fun id => decide (id ∈ failedIds calls)
  have hmem (id : Int32) : id ∈ failing.toFinset ↔ id ∈ failedIds calls := by
    simp only [failing, List.mem_toFinset, List.mem_filter, decide_eq_true_eq,
      and_iff_right_iff_imp]
    exact hone.executed id
  have hcard : failing.toFinset.card = failing.length :=
    List.toFinset_card_of_nodup (hone.once.filter _)
  have hsubset : counted ⊆ failing.toFinset := fun id hid =>
    (hmem id).mpr ((hcounted id).mp hid).failed
  have hle : counted.card ≤ failing.length := hcard ▸ Finset.card_le_card hsubset
  have hlength : failing.length ≤ (executedIds calls).length := List.length_filter_le _ _
  rw [htotal, Int32.toInt_ofNat_of_lt (by omega), Int.natCast_inj, ← hcard]
  constructor
  · intro heq id hid
    rw [← hcounted, Finset.eq_of_subset_of_card_le hsubset heq.ge, hmem]
    exact hid
  · intro hall
    congr 1
    exact hsubset.antisymm fun id hid => (hcounted id).mpr (hall id ((hmem id).mp hid))

/-- However many midnights come between the calls of a type: if each job is executed once, then the
totals count the executions and the jobs that failed exactly if each job that failed did so on the
day of its execution, and the number of executions is an int. -/
theorem exactTotals_iff {calls : List Call} {jobType : String}
    (h : OneExecution (callsOf jobType calls)) :
    ExactTotals (stat (calls.foldl call empty) jobType) (callsOf jobType calls) ↔
      (executedIds (callsOf jobType calls)).length < 2 ^ 31 ∧
        ∀ id ∈ failedIds (callsOf jobType calls), SameDay (callsOf jobType calls) id := by
  have hrecorded : Recorded (stat (calls.foldl call empty) jobType) (callsOf jobType calls) := by
    rw [stat_foldl]
    exact recorded_foldl h.once
  constructor
  · intro ⟨hattempts, hfailures⟩
    have hlt := (totalAttempts_iff hrecorded).mp hattempts
    exact ⟨hlt, (totalFailures_iff hrecorded h hlt).mp hfailures⟩
  · intro ⟨hlt, hall⟩
    exact ⟨(totalAttempts_iff hrecorded).mpr hlt, (totalFailures_iff hrecorded h hlt).mpr hall⟩

/-- A failure before the execution, one after it, and midnights around both. -/
def dayByDay : List Call :=
  [.jobFailed (some "refresh") 1 .ERROR_HTTP 10, .jobExecuted (some "refresh") 1 4, .clearStats,
    .jobExecuted (some "refresh") 2 0, .jobFailed (some "refresh") 2 .ERROR_PAGE 12,
    .jobExecuted (some "refresh") 3 7, .clearStats,
    .jobFailed (some "refresh") 2 ErrorType.ERROR_IO 13]

theorem dayByDay_exact :
    ExactTotals (stat (dayByDay.foldl call empty) "refresh") (callsOf "refresh" dayByDay) := by
  have hids : failedIds (callsOf "refresh" dayByDay) = [1, 2, 2] := by decide
  have hexecuted : executedIds (callsOf "refresh" dayByDay) = [1, 2, 3] := by decide
  have hone : OneExecution (callsOf "refresh" dayByDay) :=
    ⟨by rw [hexecuted]; decide, by simp [hids, hexecuted]⟩
  refine (exactTotals_iff hone).mpr ⟨by decide, ?_⟩
  have hfirst : SameDay (callsOf "refresh" dayByDay) 1 :=
    ⟨_, (List.take_prefix 2 _).isInfix, by decide, by decide, by decide⟩
  have hsecond : SameDay (callsOf "refresh" dayByDay) 2 :=
    ⟨_, (List.take_prefix 2 _).isInfix.trans (List.drop_suffix 3 _).isInfix, by decide, by decide,
      by decide⟩
  simp [hids, hfirst, hsecond]

def overnight : List Call :=
  [.jobExecuted (some "refresh") 1 4, .clearStats, .jobFailed (some "refresh") 1 .ERROR_HTTP 10]

theorem overnight_failure_not_counted : OneExecution (callsOf "refresh" overnight) ∧
    ¬ ExactTotals (stat (overnight.foldl call empty) "refresh") (callsOf "refresh" overnight) := by
  have hids : failedIds (callsOf "refresh" overnight) = [1] := by decide
  have hexecuted : executedIds (callsOf "refresh" overnight) = [1] := by decide
  refine ⟨⟨by rw [hexecuted]; decide, by simp [hids, hexecuted]⟩, fun h => ?_⟩
  have hfailures := h.totalFailures
  revert hfailures
  decide

/-! ### Ids that are executed again -/

def OncePerDay (calls : List JobStat.Call) : Prop :=
  ∀ day, day <:+: calls → .clearPrevDayStats ∉ day → (executedIds day).Nodup

theorem oncePerDay_nil : OncePerDay [] := by
  intro day hday _
  rw [List.infix_nil.mp hday]
  exact List.nodup_nil

theorem OncePerDay.of_nodup (h : (executedIds calls).Nodup) : OncePerDay calls :=
  fun _ hday _ => h.sublist (hday.sublist.filterMap _)

theorem oncePerDay_concat : OncePerDay (calls ++ [c]) ↔
    OncePerDay calls ∧ (executedIds (today (calls ++ [c]))).Nodup := by
  constructor
  · intro h
    exact ⟨fun day hday => h day (hday.trans (List.prefix_append _ _).isInfix),
      h _ today_suffix.isInfix clear_not_mem_today⟩
  · intro ⟨hold, htoday⟩ day hday hclear
    obtain hsuffix | hinfix := List.infix_concat_iff.mp hday
    · exact htoday.sublist ((suffix_today hsuffix hclear).sublist.filterMap _)
    · exact hold day hinfix hclear

theorem Shows.again {jobErrors : Finmap fun _ : Int32 => Outcome} {day : List JobStat.Call}
    (h : Shows jobErrors day) (hid : id ∈ executedIds day) :
    Shows jobErrors (day ++ [.jobExecuted id time]) := by
  have hmem (i : Int32) : i ∈ executedIds (day ++ [.jobExecuted id time]) ↔
      i ∈ executedIds day := by
    rw [executedIds_concat_executed, List.mem_append, List.mem_singleton, or_iff_left_iff_imp]
    rintro rfl
    exact hid
  exact ⟨fun i => by rw [h.unknown, hmem, failedIds_concat_executed],
    fun i => by rw [h.success, hmem, failedIds_concat_executed]⟩

/-- What a JobStat holds after calls without failures: an execution whose id is known today is not
counted. -/
structure Attempted (s : JobStat) (calls : List JobStat.Call) : Prop where
  shows : Shows s.jobErrors (today calls)
  count : ∃ k ≤ (executedIds calls).length, s.totalAttempts = Int32.ofNat k ∧
    (k = (executedIds calls).length ↔ OncePerDay calls)

theorem Attempted.jobExecuted (h : Attempted s calls) (hfailed : failedIds calls = []) :
    Attempted (s.jobExecuted id time) (calls ++ [.jobExecuted id time]) := by
  obtain ⟨k, hk, htotal, hexact⟩ := h.count
  have hnone (i : Int32) : i ∉ failedIds (today calls) := by
    intro hi
    simpa [hfailed] using failedIds_subset today_suffix.isInfix hi
  have hlength : (executedIds (calls ++ [.jobExecuted id time])).length =
      (executedIds calls).length + 1 := by
    rw [executedIds_concat_executed, List.length_append, List.length_singleton]
  have honce : OncePerDay (calls ++ [.jobExecuted id time]) ↔
      OncePerDay calls ∧ id ∉ executedIds (today calls) := by
    rw [oncePerDay_concat, today_executed, executedIds_concat_executed]
    refine and_congr_right fun hold => ?_
    have htoday := hold _ today_suffix.isInfix clear_not_mem_today
    rw [List.nodup_append]
    simp only [htoday, List.nodup_singleton, List.mem_singleton, true_and, forall_eq, ne_eq]
    exact ⟨fun hall hid => hall id hid rfl, fun hid i hi heq => hid (heq ▸ hi)⟩
  rw [JobStat.jobExecuted]
  split
  · rename_i hlookup
    -- the id is known today: this attempt is lost
    have hid := ((h.shows.success id).mp hlookup).1
    refine ⟨?_, k, by omega, htotal, ?_⟩
    · rw [today_executed]
      exact h.shows.again hid
    · rw [honce]
      exact iff_of_false (by omega) fun hall => hall.2 hid
  · rename_i errorType hlookup
    exact absurd (h.shows.failed_of_error hlookup) (hnone id)
  · rename_i hlookup
    have hid : id ∉ executedIds (today calls) := ((h.shows.unknown id).mp hlookup).1
    refine ⟨?_, k + 1, by omega, ?_, ?_⟩
    · rw [today_executed, JobStat.recordAttempt_jobErrors]
      exact h.shows.insert_success hlookup
    · rw [JobStat.recordAttempt_totalAttempts, htotal]
      exact (Int32.ofNat_add _ _).symm
    · rw [honce, and_iff_left hid, ← hexact]
      omega

theorem Attempted.clearPrevDayStats (h : Attempted s calls) :
    Attempted s.clearPrevDayStats (calls ++ [.clearPrevDayStats]) := by
  obtain ⟨k, hk, htotal, hexact⟩ := h.count
  refine ⟨?_, k, ?_, htotal, ?_⟩
  · rw [today_clear]
    exact ⟨fun id => by simp [JobStat.clearPrevDayStats, executedIds, failedIds],
      fun id => by simp [JobStat.clearPrevDayStats, executedIds]⟩
  · rwa [executedIds_concat_clear]
  · rw [executedIds_concat_clear, oncePerDay_concat, today_clear]
    simpa [executedIds] using hexact

theorem attempted_foldl {jobType : String} (hfailed : failedIds calls = []) :
    Attempted (calls.foldl JobStat.call (.new jobType)) calls := by
  induction calls using List.reverseRecOn with
  | nil =>
    exact ⟨Recorded.new.shows, 0, le_rfl, rfl, iff_of_true rfl oncePerDay_nil⟩
  | append_singleton calls c ih =>
    rw [List.foldl_append, List.foldl_cons, List.foldl_nil]
    cases c with
    | jobExecuted id time =>
      rw [failedIds_concat_executed] at hfailed
      exact (ih hfailed).jobExecuted hfailed
    | jobFailed id errorType now => simp at hfailed
    | clearPrevDayStats =>
      have hfailed : failedIds calls = [] := by simpa [failedIds] using hfailed
      exact (ih hfailed).clearPrevDayStats

end InsightsAssist.JobStatistics
