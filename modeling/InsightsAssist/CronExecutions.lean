import InsightsAssist.Counters
import InsightsAssist.JobTotals

/-! The executions of cron jobs that run Java code. Each ends with a report to the statistics, which
the first that asks for them makes, under an id that it has drawn from the counter of its class.
Neither of the static fields is synchronized. -/
namespace InsightsAssist.CronExecutions
open Runs JobStatistics
variable {ι : Type*} [DecidableEq ι]

inductive Role where
  | execution (jobType : String)
  | midnight
  deriving DecidableEq

/-- How far a thread has come in `getJobStatistics`. -/
inductive Lookup (ι : Type*) where
  | idle
  | isNull
  | notNull
  | got (object : ι)
  deriving DecidableEq

/-- A JobStatistics is known by the thread that makes it, and `theInstance` is the field `instance`.
Each execution has an instance of the job of its own, which keeps the id. -/
structure State (ι : Type*) where
  theInstance : Option ι
  lookup : ι → Lookup ι
  jobStatMap : ι → JobStatMap
  jobExecutionIdCounter : Counters.State ι Int32
  reported : List ι

def start : State ι := ⟨none, fun _ => .idle, fun _ => empty, Counters.start 1000000, []⟩

/-- The end of `runCronJob`: `getJobStatistics` reads the field, writes it if that was null, and
reads it again, then `getJobExecutionId` reads and writes the counter. -/
inductive Step (ι : Type*) where
  | readInstance (e : ι)
  | writeInstance (e : ι)
  | getInstance (e : ι)
  | readCounter (e : ι)
  | writeCounter (e : ι)
  | jobExecuted (e : ι) (timeInSecs : Int32)
  | clearStats (e : ι)
  deriving DecidableEq

def State.look (s : State ι) (e : ι) (l : Lookup ι) : State ι :=
  { s with lookup := Function.update s.lookup e l }

def State.draw (s : State ι) (c : Counters.Step ι) : Option (State ι) :=
  (Counters.step (· + 1) s.jobExecutionIdCounter c).map fun counter =>
    { s with jobExecutionIdCounter := counter }

def State.call (s : State ι) (object : ι) (c : JobStatistics.Call) : State ι :=
  { s with
    jobStatMap := Function.update s.jobStatMap object (JobStatistics.call (s.jobStatMap object) c) }

def State.jobExecutionId (s : State ι) (e : ι) : Option Int32 :=
  match s.jobExecutionIdCounter.phase e with
  | .has id => some id
  | .idle | .read _ => none

/-- `runCronJob` ends once. -/
def step (role : ι → Role) (s : State ι) : Step ι → Option (State ι)
  | .readInstance e =>
    if s.lookup e = .idle then
      some (s.look e (if s.theInstance.isNone then .isNull else .notNull))
    else none
  | .writeInstance e =>
    if s.lookup e = .isNull then some { s.look e .notNull with theInstance := some e } else none
  | .getInstance e =>
    if s.lookup e = .notNull then s.theInstance.map fun object => s.look e (.got object) else none
  | .readCounter e =>
    match role e, s.lookup e with
    | .execution _, .got _ => s.draw (.read e)
    | _, _ => none
  | .writeCounter e => s.draw (.write e)
  | .jobExecuted e timeInSecs =>
    match role e, s.lookup e, s.jobExecutionId e with
    | .execution jobType, .got object, some id =>
      if e ∈ s.reported then none
      else some { s.call object (.jobExecuted (some jobType) id timeInSecs) with
        reported := s.reported ++ [e] }
    | _, _, _ => none
  | .clearStats e =>
    match role e, s.lookup e with
    | .midnight, .got object => some (s.call object .clearStats)
    | _, _ => none

def counterStep : Step ι → Option (Counters.Step ι)
  | .readCounter e => some (.read e)
  | .writeCounter e => some (.write e)
  | .readInstance _ | .writeInstance _ | .getInstance _ | .jobExecuted _ _ | .clearStats _ => none

/-- The static fields are written as they were read. -/
def Fresh (s : State ι) : Step ι → Prop
  | .writeInstance _ => s.theInstance = none
  | .writeCounter e => Counters.Fresh s.jobExecutionIdCounter (.write e)
  | .readInstance _ | .getInstance _ | .readCounter _ | .jobExecuted _ _ | .clearStats _ => True

instance (s : State ι) (a : Step ι) : Decidable (Fresh s a) :=
  match a with
  | .writeInstance _ => inferInstanceAs (Decidable (s.theInstance = none))
  | .writeCounter e => inferInstanceAs
      (Decidable (s.jobExecutionIdCounter.phase e = .read s.jobExecutionIdCounter.value))
  | .readInstance _ | .getInstance _ | .readCounter _ | .jobExecuted _ _ | .clearStats _ =>
    .isTrue trivial

/-- The statistics that are asked for from now on. -/
def State.statistics (s : State ι) : JobStatMap := (s.theInstance.map s.jobStatMap).getD empty

def ended (role : ι → Role) (jobType : String) (s : State ι) : List ι :=
  s.reported.filter fun e => role e = .execution jobType

def endedIn (role : ι → Role) (jobType : String) (object : ι) (s : State ι) : List ι :=
  (ended role jobType s).filter fun e => s.lookup e = .got object

def observe (role : ι → Role) (object : ι) (s : State ι) (calls : List JobStatistics.Call) :
    Step ι → List JobStatistics.Call
  | .jobExecuted e timeInSecs =>
    match role e, s.jobExecutionId e with
    | .execution jobType, some id =>
      if s.lookup e = .got object then calls ++ [.jobExecuted (some jobType) id timeInSecs]
      else calls
    | _, _ => calls
  | .clearStats e => if s.lookup e = .got object then calls ++ [.clearStats] else calls
  | .readInstance _ | .writeInstance _ | .getInstance _ | .readCounter _ | .writeCounter _ => calls

def callsIn (role : ι → Role) (object : ι) (h : List (Step ι)) : List JobStatistics.Call :=
  observation (step role) (observe role object) start [] h

/-- All executions of the type have reported to the object that is still the instance, and it has
no id of them twice on one day. -/
structure Kept (role : ι → Role) (jobType : String) (h : List (Step ι)) (s : State ι) : Prop where
  theInstance : ∀ e ∈ ended role jobType s, ∃ object, s.theInstance = some object ∧
    s.lookup e = .got object
  once : ∀ object, s.theInstance = some object →
    OncePerDay (callsOf jobType (callsIn role object h))

variable {role : ι → Role} {s s' : State ι} {a : Step ι} {h : List (Step ι)} {e object : ι}
  {id : Int32} {jobType : String} {cond : List (Step ι) → State ι → Step ι → Prop}

/-! ### The steps -/

omit [DecidableEq ι] in
theorem jobExecutionId_eq_some :
    s.jobExecutionId e = some id ↔ s.jobExecutionIdCounter.phase e = .has id := by
  rw [State.jobExecutionId]
  cases s.jobExecutionIdCounter.phase e <;> simp

theorem draw_eq_some {c : Counters.Step ι} : s.draw c = some s' ↔
    ∃ counter, Counters.step (· + 1) s.jobExecutionIdCounter c = some counter ∧
      s' = { s with jobExecutionIdCounter := counter } := by
  rw [State.draw, Option.map_eq_some_iff]
  exact exists_congr fun counter => and_congr_right fun _ => eq_comm

/-- A step in `getJobStatistics`, by a thread that does not have the statistics yet. -/
structure Looks (s : State ι) (a : Step ι) (s' : State ι) : Prop where
  moved : ∃ e l, (∀ object, s.lookup e ≠ .got object) ∧ s'.lookup = Function.update s.lookup e l ∧
    ∀ object, l = .got object → s.theInstance = some object
  jobStatMap : s'.jobStatMap = s.jobStatMap
  counter : s'.jobExecutionIdCounter = s.jobExecutionIdCounter
  reported : s'.reported = s.reported
  theInstance : Fresh s a → s.theInstance = none ∨ s'.theInstance = s.theInstance
  label : counterStep a = none
  observe : ∀ role object calls, observe role object s calls a = calls

theorem step_cases (hs : step role s a = some s') :
    Looks s a s' ∨
    (∃ c counter, counterStep a = some c ∧ (∀ u, c ≠ .done u) ∧
      Counters.step (· + 1) s.jobExecutionIdCounter c = some counter ∧
      s' = { s with jobExecutionIdCounter := counter } ∧
      ∀ object calls, observe role object s calls a = calls) ∨
    (∃ e time jobType object id, a = .jobExecuted e time ∧ role e = .execution jobType ∧
      s.lookup e = .got object ∧ s.jobExecutionId e = some id ∧ e ∉ s.reported ∧
      s' = { s.call object (.jobExecuted (some jobType) id time) with
        reported := s.reported ++ [e] }) ∨
    ∃ e object, a = .clearStats e ∧ s.lookup e = .got object ∧ s' = s.call object .clearStats := by
  cases a with
  | readInstance e =>
    rw [step, Option.ite_none_right_eq_some, Option.some.injEq] at hs
    obtain ⟨hidle, rfl⟩ := hs
    refine .inl ⟨⟨e, _, by simp [hidle], rfl, ?_⟩, rfl, rfl, rfl, fun _ => .inr rfl, rfl,
      fun _ _ _ => rfl⟩
    intro object hl
    split at hl <;> cases hl
  | writeInstance e =>
    rw [step, Option.ite_none_right_eq_some, Option.some.injEq] at hs
    obtain ⟨hnull, rfl⟩ := hs
    exact .inl ⟨⟨e, .notNull, by simp [hnull], rfl, nofun⟩, rfl, rfl, rfl, .inl, rfl,
      fun _ _ _ => rfl⟩
  | getInstance e =>
    rw [step, Option.ite_none_right_eq_some, Option.map_eq_some_iff] at hs
    obtain ⟨hnull, object, hobject, rfl⟩ := hs
    refine .inl ⟨⟨e, .got object, by simp [hnull], rfl, ?_⟩, rfl, rfl, rfl, fun _ => .inr rfl, rfl,
      fun _ _ _ => rfl⟩
    rintro _ ⟨⟩
    exact hobject
  | readCounter e =>
    simp only [step] at hs
    split at hs
    · obtain ⟨counter, hc, rfl⟩ := draw_eq_some.mp hs
      exact .inr (.inl ⟨_, counter, rfl, fun _ => nofun, hc, rfl, fun _ _ => rfl⟩)
    · cases hs
  | writeCounter e =>
    obtain ⟨counter, hc, rfl⟩ := draw_eq_some.mp hs
    exact .inr (.inl ⟨_, counter, rfl, fun _ => nofun, hc, rfl, fun _ _ => rfl⟩)
  | jobExecuted e time =>
    simp only [step] at hs
    split at hs
    · rename_i jobType object id hrole hobject hid
      rw [Option.ite_none_left_eq_some, Option.some.injEq] at hs
      exact .inr (.inr (.inl ⟨e, time, jobType, object, id, rfl, hrole, hobject, hid, hs.1,
        hs.2.symm⟩))
    · cases hs
  | clearStats e =>
    simp only [step] at hs
    split at hs
    · rename_i object _ hobject
      rw [Option.some.injEq] at hs
      exact .inr (.inr (.inr ⟨e, object, rfl, hobject, hs.symm⟩))
    · cases hs

theorem got_step (h : s.lookup e = .got object) (hs : step role s a = some s') :
    s'.lookup e = .got object := by
  rcases step_cases hs with hlooks | ⟨_, _, -, -, -, rfl, -⟩ | ⟨_, _, _, _, _, -, -, -, -, -, rfl⟩ |
    ⟨_, _, -, -, rfl⟩
  · obtain ⟨u, l, hu, hlookup, -⟩ := hlooks.moved
    have hne : e ≠ u := by
      rintro rfl
      exact hu object h
    rwa [hlookup, Function.update_of_ne hne]
  · exact h
  · exact h
  · exact h

theorem jobExecutionId_step (h : s.jobExecutionId e = some id) (hs : step role s a = some s') :
    s'.jobExecutionId e = some id := by
  rcases step_cases hs with hlooks | ⟨_, _, -, hdone, hc, rfl, -⟩ |
    ⟨_, _, _, _, _, -, -, -, -, -, rfl⟩ | ⟨_, _, -, -, rfl⟩
  · rwa [State.jobExecutionId, hlooks.counter]
  · rw [jobExecutionId_eq_some] at h ⊢
    exact Counters.has_step hc hdone h
  · exact h
  · exact h

/-- An execution has reported once, with the statistics and the id that it has. -/
structure Reporters (s : State ι) : Prop where
  nodup : s.reported.Nodup
  got : ∀ e ∈ s.reported, ∃ object, s.lookup e = .got object
  has : ∀ e ∈ s.reported, ∃ id, s.jobExecutionId e = some id

omit [DecidableEq ι] in
theorem reporters_start : Reporters (start : State ι) where
  nodup := List.nodup_nil
  got e he := by cases he
  has e he := by cases he

theorem Reporters.same (h : Reporters s) (hs : step role s a = some s') :
    ∀ e ∈ s.reported, s'.lookup e = s.lookup e ∧ s'.jobExecutionId e = s.jobExecutionId e := by
  intro e he
  obtain ⟨object, hobject⟩ := h.got e he
  obtain ⟨id, hid⟩ := h.has e he
  rw [hobject, hid]
  exact ⟨got_step hobject hs, jobExecutionId_step hid hs⟩

theorem Reporters.step (h : Reporters s) (hs : CronExecutions.step role s a = some s') :
    Reporters s' := by
  have hold (hreported : s'.reported = s.reported) : Reporters s' := by
    refine ⟨hreported ▸ h.nodup, fun e he => ?_, fun e he => ?_⟩
    · rw [(h.same hs e (hreported ▸ he)).1]
      exact h.got e (hreported ▸ he)
    · rw [(h.same hs e (hreported ▸ he)).2]
      exact h.has e (hreported ▸ he)
  rcases step_cases hs with hlooks | ⟨_, _, -, -, -, rfl, -⟩ |
    ⟨u, _, _, object, id, -, -, hobject, hid, hnew, rfl⟩ | ⟨_, _, -, -, rfl⟩
  · exact hold hlooks.reported
  · exact hold rfl
  · refine ⟨?_, fun e he => ?_, fun e he => ?_⟩
    · refine List.nodup_append.mpr ⟨h.nodup, List.nodup_singleton u, fun v hv w hw => ?_⟩
      rw [List.mem_singleton.mp hw]
      rintro rfl
      exact hnew hv
    · rcases List.mem_append.mp he with he | he
      · exact h.got e he
      · exact ⟨object, List.mem_singleton.mp he ▸ hobject⟩
    · rcases List.mem_append.mp he with he | he
      · exact h.has e he
      · exact ⟨id, List.mem_singleton.mp he ▸ hid⟩
  · exact hold rfl

theorem reporters_run (hr : Run (step role) cond start h s) : Reporters s :=
  Run.invariant (fun _ s => Reporters s) reporters_start
    (fun _ _ _ _ _ hinv _ hs => hinv.step hs) hr

/-! ### The objects -/

/-- An object holds what its calls make of it, which are the reports of the executions that have
it, and midnights. -/
structure Reports (role : ι → Role) (object : ι) (s : State ι)
    (calls : List JobStatistics.Call) : Prop where
  jobStatMap : s.jobStatMap object = calls.foldl JobStatistics.call empty
  executed : ∀ jobType, (executedIds (callsOf jobType calls)).map some =
    (endedIn role jobType object s).map s.jobExecutionId
  failed : ∀ jobType, failedIds (callsOf jobType calls) = []

theorem mem_endedIn : e ∈ endedIn role jobType object s ↔
    e ∈ s.reported ∧ role e = .execution jobType ∧ s.lookup e = .got object := by
  simp only [endedIn, ended, List.mem_filter, decide_eq_true_eq, and_assoc]

theorem endedIn_same (hrep : Reporters s) (hs : step role s a = some s')
    (hreported : s'.reported = s.reported) :
    (endedIn role jobType object s').map s'.jobExecutionId =
      (endedIn role jobType object s).map s.jobExecutionId := by
  have hended : endedIn role jobType object s' = endedIn role jobType object s := by
    rw [endedIn, endedIn, ended, ended, hreported]
    refine List.filter_congr fun e he => ?_
    rw [(hrep.same hs e (List.mem_of_mem_filter he)).1]
  rw [hended]
  exact List.map_congr_left fun e he => (hrep.same hs e (mem_endedIn.mp he).1).2

theorem endedIn_report (u : ι) (c : JobStatistics.Call) :
    endedIn role jobType object { s.call u c with reported := s.reported ++ [e] } =
      endedIn role jobType object s ++
        if role e = .execution jobType ∧ s.lookup e = .got object then [e] else [] := by
  rw [endedIn, endedIn, ended, ended, List.filter_append, List.filter_append]
  congr 1
  by_cases hrole : role e = .execution jobType
  · by_cases hobject : s.lookup e = .got object <;> simp [State.call, hrole, hobject]
  · simp [hrole]

theorem callsOf_concat (calls : List JobStatistics.Call) (c : JobStatistics.Call) :
    callsOf jobType (calls ++ [c]) = callsOf jobType calls ++ (callOf jobType c).toList := by
  rw [callsOf, callsOf, List.filterMap_append]
  cases hc : callOf jobType c <;> simp [hc]

variable {calls : List JobStatistics.Call}

theorem Reports.same (h : Reports role object s calls) (hrep : Reporters s)
    (hs : step role s a = some s') (hreported : s'.reported = s.reported)
    (hmap : s'.jobStatMap = s.jobStatMap) : Reports role object s' calls where
  jobStatMap := hmap ▸ h.jobStatMap
  executed jobType := by
    rw [endedIn_same hrep hs hreported]
    exact h.executed jobType
  failed := h.failed

theorem Reports.jobStatMap_call {u : ι} (h : Reports role object s calls)
    (c : JobStatistics.Call) : (s.call u c).jobStatMap object =
      (if u = object then calls ++ [c] else calls).foldl JobStatistics.call empty := by
  by_cases hu : u = object
  · subst hu
    rw [if_pos rfl, List.foldl_append, ← h.jobStatMap]
    exact Function.update_self ..
  · rw [if_neg hu, ← h.jobStatMap]
    exact Function.update_of_ne (Ne.symm hu) ..

theorem Reports.jobExecuted {time : Int32} {u : ι} (h : Reports role object s calls)
    (hrole : role e = .execution jobType) (hobject : s.lookup e = .got u)
    (hid : s.jobExecutionId e = some id) :
    Reports role object
      { s.call u (.jobExecuted (some jobType) id time) with reported := s.reported ++ [e] }
      (observe role object s calls (.jobExecuted e time)) := by
  have hcalls : observe role object s calls (.jobExecuted e time) = if u = object then
      calls ++ [.jobExecuted (some jobType) id time] else calls := by
    simp [observe, hrole, hid, hobject]
  rw [hcalls]
  refine ⟨h.jobStatMap_call _, fun t => ?_, fun t => ?_⟩
  · rw [endedIn_report, hobject, hrole]
    by_cases hu : u = object
    · rw [if_pos hu, callsOf_concat, callOf, List.map_append]
      change _ = (endedIn role t object s).map s.jobExecutionId ++ _
      rw [← h.executed t]
      by_cases ht : jobType = t
      · simp [ht, hu, ← hid, State.jobExecutionId, State.call]
      · simp [ht]
    · rw [if_neg hu, if_neg (by simp [hu]), List.append_nil]
      exact h.executed t
  · split
    · rw [callsOf_concat, callOf]
      by_cases ht : jobType = t <;> simpa [ht] using h.failed t
    · exact h.failed t

theorem Reports.clearStats {u : ι} (h : Reports role object s calls)
    (hobject : s.lookup e = .got u) :
    Reports role object (s.call u .clearStats) (observe role object s calls (.clearStats e)) := by
  have hcalls : observe role object s calls (.clearStats e) = if u = object then
      calls ++ [.clearStats] else calls := by
    simp [observe, hobject]
  rw [hcalls]
  refine ⟨h.jobStatMap_call _, fun t => ?_, fun t => ?_⟩
  · split
    · rw [callsOf_concat, callOf, Option.toList_some, executedIds_concat_clear]
      exact h.executed t
    · exact h.executed t
  · split
    · rw [callsOf_concat]
      simpa [callOf, failedIds] using h.failed t
    · exact h.failed t

theorem reports_run (hr : Run (step role) cond start h s) (object : ι) :
    Reports role object s (callsIn role object h) := by
  have hboth : Reporters s ∧ Reports role object s (callsIn role object h) := by
    refine Run.observed (fun _ s calls => Reporters s ∧ Reports role object s calls)
      ⟨reporters_start, rfl, fun _ => rfl, fun _ => rfl⟩ ?_ hr
    intro h s calls a s' ⟨hrep, hreports⟩ _ hs
    refine ⟨hrep.step hs, ?_⟩
    rcases step_cases hs with hlooks | ⟨_, _, -, -, -, rfl, hobserve⟩ |
      ⟨u, time, jobType, _, id, rfl, hrole, hobject, hid, -, rfl⟩ | ⟨u, _, rfl, hobject, rfl⟩
    · rw [hlooks.observe]
      exact hreports.same hrep hs hlooks.reported hlooks.jobStatMap
    · rw [hobserve]
      exact hreports.same hrep hs rfl rfl
    · exact hreports.jobExecuted hrole hobject hid
    · exact hreports.clearStats hobject
  exact hboth.2

/-! ### The totals -/

theorem length_endedIn (role : ι → Role) (jobType : String) (object : ι) (s : State ι) :
    (endedIn role jobType object s).length ≤ (ended role jobType s).length ∧
      ((endedIn role jobType object s).length = (ended role jobType s).length ↔
        ∀ e ∈ ended role jobType s, s.lookup e = .got object) := by
  refine ⟨List.length_filter_le _ _, ?_⟩
  rw [endedIn, List.length_filter_eq_length_iff]
  simp

/-- The total is that of the executions that have ended, less those that have reported elsewhere or
under an id that was known. -/
theorem counted (hr : Run (step role) cond start h s) (jobType : String) :
    ∃ k ≤ (ended role jobType s).length,
      (stat s.statistics jobType).totalAttempts = Int32.ofNat k ∧
        (k = (ended role jobType s).length ↔ Kept role jobType h s) := by
  cases hinstance : s.theInstance with
  | none =>
    refine ⟨0, Nat.zero_le _, by rw [State.statistics, hinstance]; rfl, ?_⟩
    constructor
    · intro hzero
      have hempty : ended role jobType s = [] := List.length_eq_zero_iff.mp hzero.symm
      exact ⟨by simp [hempty], by simp [hinstance]⟩
    · intro hkept
      rw [eq_comm, List.length_eq_zero_iff, List.eq_nil_iff_forall_not_mem]
      intro e he
      obtain ⟨object, hobject, -⟩ := hkept.theInstance e he
      cases hinstance.symm.trans hobject
  | some object =>
    have hreports := reports_run hr object
    have hstat : stat s.statistics jobType = (callsOf jobType (callsIn role object h)).foldl
        JobStat.call (.new jobType) := by
      rw [State.statistics, hinstance, Option.map_some, Option.getD_some, hreports.jobStatMap,
        stat_foldl]
      rfl
    have hlength := congrArg List.length (hreports.executed jobType)
    rw [List.length_map, List.length_map] at hlength
    obtain ⟨k, hk, htotal, hexact⟩ := (attempted_foldl (hreports.failed jobType)).count
    obtain ⟨hle, hall⟩ := length_endedIn role jobType object s
    refine ⟨k, by omega, by rw [hstat, htotal], ?_⟩
    constructor
    · intro heq
      refine ⟨fun e he => ⟨object, hinstance, hall.mp (by omega) e he⟩, fun other hother => ?_⟩
      obtain rfl : object = other := Option.some.inj (hinstance.symm.trans hother)
      exact hexact.mp (by omega)
    · intro hkept
      rw [hexact.mpr (hkept.once object hinstance), hlength, hall]
      intro e he
      obtain ⟨other, hother, hgot⟩ := hkept.theInstance e he
      obtain rfl : object = other := Option.some.inj (hinstance.symm.trans hother)
      exact hgot

/-- In every run the total of a type counts all its executions that have ended exactly if they are
fewer than 2^31, all of them have reported to the object that is still the instance, and no two of
them under one id on one day. -/
theorem allCounted_iff (hr : Run (step role) AnyStep start h s) (jobType : String) :
    (stat s.statistics jobType).totalAttempts.toInt = (ended role jobType s).length ↔
      (ended role jobType s).length < 2 ^ 31 ∧ Kept role jobType h s := by
  obtain ⟨k, hk, htotal, hexact⟩ := counted hr jobType
  rw [htotal, ← hexact]
  have hlt := Int32.toInt_lt (Int32.ofNat k)
  constructor
  · intro heq
    have hbound : (ended role jobType s).length < 2 ^ 31 := by omega
    rw [Int32.toInt_ofNat_of_lt (by omega)] at heq
    exact ⟨hbound, by omega⟩
  · intro ⟨hbound, heq⟩
    rw [Int32.toInt_ofNat_of_lt (by omega), heq]

/-- Two executions that read both fields before either of them writes them. -/
def racing : List (Step Bool) :=
  [.readInstance false, .readInstance true, .writeInstance false, .getInstance false,
    .writeInstance true, .getInstance true, .readCounter false, .readCounter true,
    .writeCounter false, .writeCounter true, .jobExecuted false 4, .jobExecuted true 7]

def refresh : Bool → Role := fun _ => .execution "refresh"

theorem racing_counted : ∃ s, Run (step refresh) AnyStep start racing s ∧
    ((stat s.statistics "refresh").totalAttempts.toInt = (ended refresh "refresh" s).length ↔
      (ended refresh "refresh" s).length < 2 ^ 31 ∧ Kept refresh "refresh" racing s) := by
  obtain ⟨s, hs⟩ : ∃ s, exec (step refresh) start racing = some s := ⟨_, rfl⟩
  exact ⟨s, run_anyStep_iff.mpr hs, allCounted_iff (run_anyStep_iff.mpr hs) "refresh"⟩

/-- One of them has reported to an object that nobody asks any more. -/
example : (exec (step refresh) start racing).map (fun s =>
    ((stat s.statistics "refresh").totalAttempts, (ended refresh "refresh" s).length)) =
      some (1, 2) := by
  decide

/-! ### Without races -/

theorem counter_run (hr : Run (step role) (fun _ => Fresh) start h s) :
    Run (Counters.step (· + 1)) (fun _ => Counters.Fresh) (Counters.start 1000000)
      (h.filterMap counterStep) s.jobExecutionIdCounter := by
  refine Run.project State.jobExecutionIdCounter counterStep ?_ hr
  intro h s a s' hfresh hs
  rcases step_cases hs with hlooks | ⟨c, _, hlabel, -, hc, rfl, -⟩ |
    ⟨_, _, _, _, _, rfl, -, -, -, -, rfl⟩ | ⟨_, _, rfl, -, rfl⟩
  · exact .inl ⟨hlooks.label, hlooks.counter⟩
  · refine .inr ⟨c, hlabel, ?_, hc⟩
    cases a with
    | readCounter e =>
      cases hlabel
      trivial
    | writeCounter e =>
      cases hlabel
      exact hfresh
    | readInstance e => cases hlabel
    | writeInstance e => cases hlabel
    | getInstance e => cases hlabel
    | jobExecuted e time => cases hlabel
    | clearStats e => cases hlabel
  · exact .inl ⟨rfl, rfl⟩
  · exact .inl ⟨rfl, rfl⟩

theorem theInstance_run (hr : Run (step role) (fun _ => Fresh) start h s) :
    ∀ e object, s.lookup e = .got object → s.theInstance = some object := by
  refine Run.invariant
    (fun _ s => ∀ e object, s.lookup e = .got object → s.theInstance = some object)
    (by rintro e object ⟨⟩) ?_ hr
  intro h s a s' _ hinv hfresh hs e object hgot
  rcases step_cases hs with hlooks | ⟨_, _, -, -, -, rfl, -⟩ |
    ⟨_, _, _, _, _, -, -, -, -, -, rfl⟩ | ⟨_, _, -, -, rfl⟩
  · obtain ⟨u, l, -, hlookup, hl⟩ := hlooks.moved
    have hknown : s.theInstance = some object := by
      rw [hlookup] at hgot
      by_cases hu : e = u
      · rw [hu, Function.update_self] at hgot
        exact hl object hgot
      · rw [Function.update_of_ne hu] at hgot
        exact hinv e object hgot
    rw [(hlooks.theInstance hfresh).resolve_left (by simp [hknown]), hknown]
  · exact hinv e object hgot
  · exact hinv e object hgot
  · exact hinv e object hgot

theorem kept_of_fresh (hr : Run (step role) (fun _ => Fresh) start h s)
    (hdraws : s.jobExecutionIdCounter.drawn.length < 2 ^ 32) (jobType : String) :
    Kept role jobType h s := by
  have hrep := reporters_run hr
  have howned := Counters.owned_of_fresh (counter_run hr) hdraws
  refine ⟨fun e he => ?_, fun object _ => ?_⟩
  · obtain ⟨object, hgot⟩ := hrep.got e (List.mem_of_mem_filter he)
    exact ⟨object, theInstance_run hr e object hgot, hgot⟩
  · refine .of_nodup (List.Nodup.of_map some ?_)
    rw [(reports_run hr object).executed jobType]
    refine List.Nodup.map_on ?_ ((hrep.nodup.filter _).filter _)
    intro e he u hu heq
    obtain ⟨id, hid⟩ := hrep.has e (mem_endedIn.mp he).1
    rw [hid, eq_comm] at heq
    exact howned.unique e u id (jobExecutionId_eq_some.mp hid) (jobExecutionId_eq_some.mp heq)

/-- As long as the fields are written as they were read and the counter has not come round, every
execution that has ended is counted. -/
theorem fresh_counted (hr : Run (step role) (fun _ => Fresh) start h s)
    (hdraws : s.jobExecutionIdCounter.drawn.length < 2 ^ 32) (jobType : String) :
    (stat s.statistics jobType).totalAttempts = Int32.ofNat (ended role jobType s).length := by
  obtain ⟨k, -, htotal, hexact⟩ := counted hr jobType
  rw [htotal, hexact.mpr (kept_of_fresh hr hdraws jobType)]

def nightly : Option Bool → Role
  | none => .midnight
  | some _ => .execution "refresh"

def undisturbed : List (Step (Option Bool)) :=
  [.readInstance (some false), .writeInstance (some false), .getInstance (some false),
    .readCounter (some false), .readInstance none, .writeCounter (some false),
    .jobExecuted (some false) 4, .getInstance none, .readInstance (some true),
    .getInstance (some true), .clearStats none, .readCounter (some true),
    .writeCounter (some true), .jobExecuted (some true) 7]

theorem undisturbed_counted : ∃ s, Run (step nightly) (fun _ => Fresh) start undisturbed s ∧
    (stat s.statistics "refresh").totalAttempts =
      Int32.ofNat (ended nightly "refresh" s).length := by
  have hcheck (h : List (Step (Option Bool))) (s : State (Option Bool)) (a : Step (Option Bool))
      (hc : decide (Fresh s a)) : Fresh s a := of_decide_eq_true hc
  obtain ⟨s, hs, hdraws⟩ : ∃ s, exec (fun s a =>
      if decide (Fresh s a) then step nightly s a else none) start undisturbed = some s ∧
        s.jobExecutionIdCounter.drawn.length < 2 ^ 32 :=
    ⟨_, rfl, by decide⟩
  have hr : Run (step nightly) (fun _ => Fresh) start undisturbed s := run_of_exec_checked hcheck hs
  exact ⟨s, hr, fresh_counted hr hdraws "refresh"⟩

end InsightsAssist.CronExecutions
