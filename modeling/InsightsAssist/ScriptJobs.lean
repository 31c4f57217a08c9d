import InsightsAssist.Counters
import InsightsAssist.CronJobs
import InsightsAssist.SchedulerStates

/-! The jobs that run a script: `scheduleJob` over the store of a scheduler of their own. A job is
named after a counter that is not synchronized, and lost if its name is taken. -/
namespace InsightsAssist.ScriptJobs
open Java Runs JobStates
open CronJobs (Quartz StoredJob JobStore Thrown check newJobDetail Sound)

/-- The arguments of `scheduleJob` that the scheduler looks at, and the time of the call. -/
structure ScriptJob where
  scriptName : Option String
  handlerClass : Option String
  startTime : Int
  deriving DecidableEq, Repr

def DEFAULT_GROUP : String := "DEFAULT"

/-- `setGroup` of triggers and of job details. -/
def setGroup : Option String → Prog Thrown JobStore String
  | none => return DEFAULT_GROUP
  | some group => do
    check (trim group ≠ "") .illegalArgument
    return group

def jobName (counter : Int32) : String := "job#" ++ toString counter.toInt

def newSimpleTrigger (q : Quartz) (name : String) (group : Option String) (startTime : Int) :
    Prog Thrown JobStore Trigger := do
  let group ← setGroup group
  return ⟨name, group, .SimpleTrigger (some (q.format startTime)) (some (q.format startTime)) 0 0⟩

/-- `false` where what the scheduler throws is logged. What the constructors throw is not caught. -/
def scheduleJob (q : Quartz) (job : ScriptJob) (counter : Int32) : Prog Thrown JobStore Bool := do
  let t ← newSimpleTrigger q (jobName counter) job.scriptName job.startTime
  let group ← setGroup job.scriptName
  let jobDetail ← newJobDetail q (jobName counter) group job.handlerClass
  tryCatch
    (do
      let _ ← CronJobs.scheduleJob ⟨jobDetail, job.scriptName, none⟩ t (some job.startTime)
      return true)
    fun _ => return false

/-! ### One call -/

def ScriptJob.group (job : ScriptJob) : String := job.scriptName.getD DEFAULT_GROUP

/-- Quartz makes a trigger and a job of it. -/
def constructible (q : Quartz) (job : ScriptJob) : Bool :=
  job.scriptName.all (trim · ≠ "") && job.handlerClass.any q.isJob

def trigger (q : Quartz) (job : ScriptJob) (counter : Int32) : Trigger where
  name := jobName counter
  group := job.group
  schedule := .SimpleTrigger (some (q.format job.startTime)) (some (q.format job.startTime)) 0 0

def storedJob (job : ScriptJob) (counter : Int32) : StoredJob where
  detail := ⟨jobName counter, job.group, job.handlerClass.getD ""⟩
  script := job.scriptName
  nextFireTime := none

section Call
variable {q : Quartz} {job : ScriptJob} {counter : Int32} {store : JobStore}

theorem run_setGroup : (setGroup job.scriptName).run store =
    if job.scriptName.all (trim · ≠ "") then (.ok job.group, store)
    else (.error .illegalArgument, store) := by
  cases hname : job.scriptName with
  | none => simp [setGroup, ScriptJob.group, hname]
  | some group =>
    by_cases hblank : trim group = "" <;>
      simp [setGroup, ScriptJob.group, hname, hblank, Prog.run_bind]

theorem toList_jobName (counter : Int32) :
    (jobName counter).toList = prefix1 ++ (toString counter.toInt).toList := by
  rw [jobName, String.toList_append]
  rfl

theorem trim_jobName (counter : Int32) : trim (jobName counter) ≠ "" := by
  rw [Ne, trim_eq_empty_iff]
  intro h
  have hj := h 'j' (by simp [toList_jobName, prefix1])
  exact absurd hj (by decide)

theorem run_newJobDetail (group : String) :
    (newJobDetail q (jobName counter) group job.handlerClass).run store =
      if job.handlerClass.any q.isJob then
        (.ok ⟨jobName counter, group, job.handlerClass.getD ""⟩, store)
      else (.error .illegalArgument, store) := by
  cases hhandler : job.handlerClass with
  | none => simp [newJobDetail, Prog.run_bind, trim_jobName]
  | some jobClass =>
    cases hjob : q.isJob jobClass <;>
      simp [newJobDetail, Prog.run_bind, trim_jobName, hjob]

theorem run_scheduleJob (h : Sound store) : (scheduleJob q job counter).run store =
    if constructible q job then
      if store.hasJob (jobName counter) job.group then (.ok false, store)
      else (.ok true, store.add [(storedJob job counter, trigger q job counter)])
    else (.error .illegalArgument, store) := by
  have hstore := CronJobs.run_scheduleJob (storedJob job counter) (trigger q job counter) h rfl rfl
    job.startTime
  rw [scheduleJob, newSimpleTrigger, Prog.run_bind, Prog.run_bind, run_setGroup, constructible]
  cases hgroup : job.scriptName.all (trim · ≠ "") with
  | false => rfl
  | true =>
    simp only [if_true, Prog.run_pure, Prog.run_bind, run_setGroup, hgroup, run_newJobDetail,
      Bool.true_and]
    cases hclass : job.handlerClass.any q.isJob with
    | false => rfl
    | true =>
      simp only [if_true, Prog.run_tryCatch]
      rw [storedJob, trigger] at hstore
      by_cases hjob : store.hasJob (jobName counter) job.group
      · rw [Prog.run_bind_error (hstore.trans (if_pos hjob)), if_pos hjob]
        rfl
      · rw [Prog.run_bind_ok (hstore.trans (if_neg hjob)), if_neg hjob]
        rfl

theorem hasJob_scheduleJob (h : Sound store) {name group : String} :
    ((scheduleJob q job counter).run store).2.hasJob name group ↔ store.hasJob name group ∨
      (constructible q job ∧ jobName counter = name ∧ job.group = group) := by
  rw [run_scheduleJob h]
  cases hmade : constructible q job with
  | false => simp
  | true =>
    by_cases hjob : store.hasJob (jobName counter) job.group
    · rw [if_pos rfl, if_pos hjob]
      refine ⟨.inl, ?_⟩
      rintro (hold | ⟨-, rfl, rfl⟩)
      · exact hold
      · exact hjob
    · rw [if_pos rfl, if_neg hjob, CronJobs.hasJob_add]
      simp [storedJob]

theorem sound_scheduleJob (h : Sound store) : Sound ((scheduleJob q job counter).run store).2 := by
  rw [run_scheduleJob h]
  split
  · split
    · exact h
    · rename_i hjob
      exact h.add (Bool.eq_false_iff.mpr hjob) rfl rfl rfl
  · exact h

theorem refused_iff (h : Sound store) : ((scheduleJob q job counter).run store).1 = .ok false ↔
    constructible q job ∧ store.hasJob (jobName counter) job.group := by
  rw [run_scheduleJob h]
  cases constructible q job with
  | false => simp
  | true => cases store.hasJob (jobName counter) job.group <;> simp

end Call

/-! ### Runs -/

variable {ι : Type*} [DecidableEq ι]

/-- `called` are the calls that have ended, `lost` those whose job was refused. -/
structure State (ι : Type*) where
  counter : Counters.State ι Int32
  sched : JobStore
  called : List ι
  lost : List ι

def start : State ι := ⟨Counters.start 0, .empty, [], []⟩

/-- A call reads and writes the counter, and then schedules its job under the number it has. Its
trigger fires, and a job that is done is taken out of the store with its trigger. -/
inductive Step (ι : Type*) where
  | readCounter (e : ι)
  | writeCounter (e : ι)
  | scheduleJob (e : ι) (counter : Int32)
  | fire (name group : String) (nextFireTime : Option Int)
  | complete (name group : String)
  deriving DecidableEq

def State.draw (s : State ι) (c : Counters.Step ι) : Option (State ι) :=
  (Counters.step (· + 1) s.counter c).map fun counter => { s with counter := counter }

def step (q : Quartz) (jobs : ι → ScriptJob) (s : State ι) : Step ι → Option (State ι)
  | .readCounter e => s.draw (.read e)
  | .writeCounter e => s.draw (.write e)
  | .scheduleJob e counter =>
    if s.counter.phase e = .has counter ∧ e ∉ s.called then
      let ran := (scheduleJob q (jobs e) counter).run s.sched
      some { s with
        sched := ran.2
        called := s.called ++ [e]
        lost := match ran.1 with
          | .ok false => s.lost ++ [e]
          | .ok true | .error _ => s.lost }
    else none
  | .fire name group nextFireTime =>
    some { s with sched := CronJobs.step q s.sched (.fire name group nextFireTime) }
  | .complete name group =>
    some { s with sched := CronJobs.step q s.sched (.complete name group) }

def Fresh (s : State ι) : Step ι → Prop
  | .writeCounter e => Counters.Fresh s.counter (.write e)
  | .readCounter _ | .scheduleJob _ _ | .fire _ _ _ | .complete _ _ => True

instance (s : State ι) (a : Step ι) : Decidable (Fresh s a) :=
  match a with
  | .writeCounter e => inferInstanceAs (Decidable (s.counter.phase e = .read s.counter.value))
  | .readCounter _ | .scheduleJob _ _ | .fire _ _ _ | .complete _ _ => .isTrue trivial

def counterStep : Step ι → Option (Counters.Step ι)
  | .readCounter e => some (.read e)
  | .writeCounter e => some (.write e)
  | .scheduleJob _ _ | .fire _ _ _ | .complete _ _ => none

/-- The call has scheduled a job under the number, and no job of its name is done since. -/
def Waiting (q : Quartz) (jobs : ι → ScriptJob) (h : List (Step ι)) (e : ι) (counter : Int32) :
    Prop :=
  constructible q (jobs e) ∧
    Since (· = .scheduleJob e counter) (· = .complete (jobName counter) (jobs e).group) h

/-- The call drew the number of another call for the same script, whose job was still waiting. -/
def Clashes (q : Quartz) (jobs : ι → ScriptJob) (h : List (Step ι)) (e : ι) : Prop :=
  Happened (fun pre a => ∃ counter e', a = .scheduleJob e counter ∧ constructible q (jobs e) ∧
    e' ≠ e ∧ (jobs e').group = (jobs e).group ∧ Waiting q jobs pre e' counter) h

section Runs
variable {q : Quartz} {jobs : ι → ScriptJob} {s s' : State ι} {a : Step ι} {h : List (Step ι)}
  {e : ι} {counter : Int32} {cond : List (Step ι) → State ι → Step ι → Prop}

theorem draw_eq_some {c : Counters.Step ι} : s.draw c = some s' ↔
    ∃ counter, Counters.step (· + 1) s.counter c = some counter ∧
      s' = { s with counter := counter } := by
  rw [State.draw, Option.map_eq_some_iff]
  exact exists_congr fun counter => and_congr_right fun _ => eq_comm

theorem step_cases (hs : step q jobs s a = some s') :
    (∃ c counter, counterStep a = some c ∧ (∀ u, c ≠ .done u) ∧
      Counters.step (· + 1) s.counter c = some counter ∧ s' = { s with counter := counter }) ∨
    (∃ e counter, a = .scheduleJob e counter ∧ s.counter.phase e = .has counter ∧ e ∉ s.called ∧
      s'.counter = s.counter ∧ s'.sched = ((scheduleJob q (jobs e) counter).run s.sched).2 ∧
      s'.called = s.called ++ [e] ∧
      s'.lost = if ((scheduleJob q (jobs e) counter).run s.sched).1 = .ok false then s.lost ++ [e]
        else s.lost) ∨
    (∃ name group next, a = .fire name group next ∧
      s' = { s with sched := CronJobs.step q s.sched (.fire name group next) }) ∨
    ∃ name group, a = .complete name group ∧
      s' = { s with sched := CronJobs.step q s.sched (.complete name group) } := by
  cases a with
  | readCounter e =>
    obtain ⟨counter, hc, rfl⟩ := draw_eq_some.mp hs
    exact .inl ⟨_, counter, rfl, fun _ => nofun, hc, rfl⟩
  | writeCounter e =>
    obtain ⟨counter, hc, rfl⟩ := draw_eq_some.mp hs
    exact .inl ⟨_, counter, rfl, fun _ => nofun, hc, rfl⟩
  | scheduleJob e counter =>
    simp only [step, Option.ite_none_right_eq_some, Option.some.injEq] at hs
    obtain ⟨⟨hphase, hnew⟩, rfl⟩ := hs
    refine .inr (.inl ⟨e, counter, rfl, hphase, hnew, rfl, rfl, rfl, ?_⟩)
    generalize ((scheduleJob q (jobs e) counter).run s.sched).1 = scheduled
    rcases scheduled with _ | _ | _ <;> simp
  | fire name group next =>
    rw [step, Option.some.injEq] at hs
    exact .inr (.inr (.inl ⟨name, group, next, rfl, hs.symm⟩))
  | complete name group =>
    rw [step, Option.some.injEq] at hs
    exact .inr (.inr (.inr ⟨name, group, rfl, hs.symm⟩))

theorem sound_run (hr : Run (step q jobs) cond start h s) : Sound s.sched := by
  induction hr with
  | nil => exact CronJobs.sound_empty
  | snoc _ _ hs ih =>
    rcases step_cases hs with ⟨_, _, -, -, -, rfl⟩ | ⟨e, counter, -, -, -, -, hsched, -, -⟩ |
      ⟨name, group, next, -, rfl⟩ | ⟨name, group, -, rfl⟩
    · exact ih
    · rw [hsched]
      exact sound_scheduleJob ih
    · exact ih.fire name group next
    · exact ih.complete (q := q) name group

omit [DecidableEq ι] in
theorem waiting_snoc : Waiting q jobs (h ++ [a]) e counter ↔
    (constructible q (jobs e) ∧ a = .scheduleJob e counter) ∨
      (a ≠ .complete (jobName counter) (jobs e).group ∧ Waiting q jobs h e counter) := by
  rw [Waiting, since_snoc, Waiting]
  tauto

theorem mem_called (hr : Run (step q jobs) cond start h s) :
    ∀ e counter, .scheduleJob e counter ∈ h → e ∈ s.called := by
  induction hr with
  | nil => exact nofun
  | snoc _ _ hs ih =>
    intro e counter he
    rcases step_cases hs with ⟨c, _, hc, -, -, rfl⟩ | ⟨e', counter', rfl, -, -, -, -, hcalled, -⟩ |
      ⟨_, _, _, rfl, rfl⟩ | ⟨_, _, rfl, rfl⟩
    · rcases List.mem_append.mp he with he | he
      · exact ih e counter he
      · rw [← List.mem_singleton.mp he] at hc
        cases hc
    · rw [hcalled, List.mem_append, List.mem_singleton]
      rcases List.mem_append.mp he with he | he
      · exact .inl (ih e counter he)
      · cases List.mem_singleton.mp he
        exact .inr rfl
    · exact ih e counter (by simpa using he)
    · exact ih e counter (by simpa using he)

omit [DecidableEq ι] in
theorem Waiting.mem (hw : Waiting q jobs h e counter) : .scheduleJob e counter ∈ h := by
  obtain ⟨a, hmem, rfl⟩ := hw.2.exists_mem
  exact hmem

theorem hasJob_complete {store : JobStore} {name group name' group' : String} :
    (CronJobs.step q store (.complete name group)).hasJob name' group' ↔
      store.hasJob name' group' ∧ ¬(name' = name ∧ group' = group) := by
  simp only [CronJobs.step, JobStore.hasJob, List.any_eq_true, List.mem_filter, decide_eq_true_eq]
  constructor
  · rintro ⟨job, ⟨hjob, hnot⟩, rfl, rfl⟩
    exact ⟨⟨job, hjob, rfl, rfl⟩, by simpa using hnot⟩
  · rintro ⟨⟨job, hjob, rfl, rfl⟩, hnot⟩
    exact ⟨job, ⟨hjob, by simpa using hnot⟩, rfl, rfl⟩

theorem hasJob_iff (hr : Run (step q jobs) cond start h s) (name group : String) :
    s.sched.hasJob name group ↔ ∃ e counter, Waiting q jobs h e counter ∧
      jobName counter = name ∧ (jobs e).group = group := by
  induction hr with
  | nil =>
    refine ⟨nofun, ?_⟩
    rintro ⟨e, counter, ⟨-, hsince⟩, -, -⟩
    exact (not_since_nil hsince).elim
  | @snoc h s s' a hr _ hs ih =>
    rcases step_cases hs with ⟨c, _, hc, -, -, rfl⟩ |
      ⟨e, counter, rfl, -, -, -, hsched, -, -⟩ | ⟨_, _, _, rfl, rfl⟩ | ⟨name', group', rfl, rfl⟩
    · rw [ih]
      refine exists_congr fun e => exists_congr fun counter => and_congr_left fun _ => ?_
      rw [waiting_snoc]
      cases a <;> simp [counterStep] at hc ⊢
    · rw [hsched, hasJob_scheduleJob (sound_run hr), ih]
      simp only [waiting_snoc]
      constructor
      · rintro (⟨e', counter', hw, hname⟩ | ⟨hmade, hname⟩)
        · exact ⟨e', counter', .inr ⟨nofun, hw⟩, hname⟩
        · exact ⟨e, counter, .inl ⟨hmade, rfl⟩, hname⟩
      · rintro ⟨e', counter', ⟨hmade, hlast⟩ | ⟨-, hw⟩, hname⟩
        · cases hlast
          exact .inr ⟨hmade, hname⟩
        · exact .inl ⟨e', counter', hw, hname⟩
    · refine Iff.trans ih (exists_congr fun e => exists_congr fun counter => ?_)
      rw [waiting_snoc]
      simp
    · rw [hasJob_complete, ih]
      simp only [waiting_snoc]
      constructor
      · rintro ⟨⟨e, counter, hw, rfl, rfl⟩, hnot⟩
        refine ⟨e, counter, .inr ⟨?_, hw⟩, rfl, rfl⟩
        rintro heq
        cases heq
        exact hnot ⟨rfl, rfl⟩
      · rintro ⟨e, counter, ⟨-, hlast⟩ | ⟨hne, hw⟩, rfl, rfl⟩
        · cases hlast
        · refine ⟨⟨e, counter, hw, rfl, rfl⟩, ?_⟩
          rintro ⟨hname, hgroup⟩
          exact hne (by rw [hname, hgroup])

theorem jobName_injective {counter' : Int32} (h : jobName counter = jobName counter') :
    counter = counter' := by
  have htext : toString counter.toInt = toString counter'.toInt := by
    rw [← String.toList_inj]
    have hlist := congrArg String.toList h
    rwa [toList_jobName, toList_jobName, List.append_cancel_left_eq] at hlist
  have hparse (x : Int32) : parseInt (toString x.toInt) = some x.toInt :=
    parseInt_toString x.le_toInt (Int.le_of_lt_add_one x.toInt_lt)
  have hint := (hparse counter).symm.trans ((congrArg parseInt htext).trans (hparse counter'))
  exact Int32.toInt_inj.mp (Option.some.inj hint)

/-- A call's job is lost exactly if the call has drawn the number of another call for its script
whose job was still waiting. -/
theorem lost_iff (hr : Run (step q jobs) cond start h s) (e : ι) :
    e ∈ s.lost ↔ Clashes q jobs h e := by
  induction hr with
  | nil => exact ⟨nofun, fun hclash => (not_happened_nil hclash).elim⟩
  | @snoc h s s' a hr _ hs ih =>
    rw [Clashes, happened_snoc, ← Clashes, ← ih]
    rcases step_cases hs with ⟨c, _, hc, -, -, rfl⟩ |
      ⟨e', counter, rfl, -, hnew, -, -, -, hlost⟩ | ⟨_, _, _, rfl, rfl⟩ | ⟨name, group, rfl, rfl⟩
    · rw [or_iff_left]
      rintro ⟨counter, e', rfl, -⟩
      cases hc
    · have hsame : (∃ n u, Step.scheduleJob e' counter = .scheduleJob e n ∧
          constructible q (jobs e) ∧ u ≠ e ∧ (jobs u).group = (jobs e).group ∧
            Waiting q jobs h u n) ↔
          e = e' ∧ ((scheduleJob q (jobs e') counter).run s.sched).1 = .ok false := by
        rw [refused_iff (sound_run hr), hasJob_iff hr]
        constructor
        · rintro ⟨n, u, hlast, hmade, -, hgroup, hw⟩
          cases hlast
          exact ⟨rfl, hmade, u, counter, hw, rfl, hgroup⟩
        · rintro ⟨rfl, hmade, u, n, hw, hname, hgroup⟩
          cases jobName_injective hname
          refine ⟨counter, u, rfl, hmade, ?_, hgroup, hw⟩
          rintro rfl
          exact hnew (mem_called hr u counter hw.mem)
      rw [hlost, hsame]
      split
      · rename_i hrefused
        simp [hrefused]
      · rename_i hrefused
        simp [hrefused]
    · rw [or_iff_left]
      rintro ⟨counter, e', hlast, -⟩
      cases hlast
    · rw [or_iff_left]
      rintro ⟨counter, e', hlast, -⟩
      cases hlast

/-- Two calls for one script that read the counter before either of them writes it. -/
def sameScript : List (Step Bool) :=
  [.readCounter false, .readCounter true, .writeCounter false, .writeCounter true,
    .scheduleJob false 1, .fire "job#1" "fetch.py" none, .scheduleJob true 1]

def epochQuartz : Quartz where
  isJob := (· == "NativeCronJob")
  parses := fun _ => false
  firstFireTime := fun _ _ => none
  format := fun _ => "1970-01-01 00:00:00"

def nativeJob (scriptName : String) : ScriptJob := ⟨scriptName, "NativeCronJob", 0⟩

theorem sameScript_lost : ∃ s,
    Run (step epochQuartz fun _ => nativeJob "fetch.py") AnyStep start sameScript s ∧
      ∀ e, e ∈ s.lost ↔ Clashes epochQuartz (fun _ => nativeJob "fetch.py") sameScript e := by
  obtain ⟨s, hs⟩ : ∃ s, exec (step epochQuartz fun _ => nativeJob "fetch.py") start sameScript =
      some s := ⟨_, rfl⟩
  exact ⟨s, run_anyStep_iff.mpr hs, lost_iff (run_anyStep_iff.mpr hs)⟩

/-- The first of them is still running, so the job of the second is lost. -/
example : (exec (step epochQuartz fun _ => nativeJob "fetch.py") start sameScript).map
    State.lost = some [true] := by
  decide

/-! ### The snapshot -/

theorem colon_not_mem (counter : Int32) : ':' ∉ (jobName counter).toList := by
  have hdigits (n : Nat) : ':' ∉ Nat.toDigits 10 n := by
    intro h
    exact absurd (Nat.isDigit_of_mem_toDigits (by decide) (by decide) h) (by decide)
  rw [toList_jobName, List.mem_append, not_or]
  refine ⟨by decide, ?_⟩
  cases counter.toInt with
  | ofNat m =>
    have hlist : (toString (Int.ofNat m)).toList = Nat.toDigits 10 m := Nat.toList_repr
    rw [hlist]
    exact hdigits m
  | negSucc m =>
    have hlist : (toString (Int.negSucc m)).toList = '-' :: Nat.toDigits 10 (m + 1) := by
      change ("-" ++ Nat.repr (m + 1)).toList = _
      rw [String.toList_append, Nat.toList_repr]
      rfl
    rw [hlist, List.mem_cons, not_or]
    exact ⟨by decide, hdigits (m + 1)⟩

/-- The snapshot takes the name of a script job for that of a cron job. -/
theorem stateKey_jobName (counter : Int32) :
    stateKey (jobName counter) = .inr (jobName counter) := by
  refine stateKey_of_none ?_
  simp [parseJobUID, indexOf, colon_not_mem]

theorem listed_iff (hr : Run (step q jobs) cond start h s) (listing : CronJobs.Listing s.sched)
    (name group : String) : (∃ job ∈ listing.scheduler.jobs, job.name = name ∧ job.group = group) ↔
      ∃ e counter, Waiting q jobs h e counter ∧ jobName counter = name ∧
        (jobs e).group = group := by
  rw [← hasJob_iff hr, JobStore.hasJob, List.any_eq_true]
  simp only [decide_eq_true_eq, listing.jobs.mem_iff, List.mem_map, exists_exists_and_eq_and]

theorem keys_nodup_iff (hr : Run (step q jobs) cond start h s) :
    (s.sched.jobs.map fun job => stateKey job.detail.name).Nodup ↔
      ∀ e e' counter, Waiting q jobs h e counter → Waiting q jobs h e' counter →
        (jobs e).group = (jobs e').group := by
  have hwaits {job : StoredJob} (hjob : job ∈ s.sched.jobs) : ∃ e counter,
      Waiting q jobs h e counter ∧ jobName counter = job.detail.name ∧
        (jobs e).group = job.detail.group :=
    (hasJob_iff hr _ _).mp (List.any_eq_true.mpr ⟨job, hjob, by simp⟩)
  have hunique {a b : StoredJob} (ha : a ∈ s.sched.jobs) (hb : b ∈ s.sched.jobs)
      (hname : a.detail.name = b.detail.name) (hgroup : a.detail.group = b.detail.group) : a = b :=
    List.inj_on_of_nodup_map (sound_run hr).jobs_nodup ha hb (by rw [hname, hgroup])
  constructor
  · intro hnodup e e' counter hw hw'
    obtain ⟨a, ha, hakey⟩ := List.any_eq_true.mp
      ((hasJob_iff hr (jobName counter) _).mpr ⟨e, counter, hw, rfl, rfl⟩)
    obtain ⟨b, hb, hbkey⟩ := List.any_eq_true.mp
      ((hasJob_iff hr (jobName counter) _).mpr ⟨e', counter, hw', rfl, rfl⟩)
    obtain ⟨haname, hagroup⟩ := of_decide_eq_true hakey
    obtain ⟨hbname, hbgroup⟩ := of_decide_eq_true hbkey
    have heq : a = b := List.inj_on_of_nodup_map hnodup ha hb (by rw [haname, hbname])
    rw [← hagroup, ← hbgroup, heq]
  · intro hgroups
    refine List.Nodup.map_on ?_ (List.Nodup.of_map _ (sound_run hr).jobs_nodup)
    intro a ha b hb hkey
    obtain ⟨e, n, hw, hname, hgroup⟩ := hwaits ha
    obtain ⟨e', n', hw', hname', hgroup'⟩ := hwaits hb
    rw [← hname, ← hname', stateKey_jobName, stateKey_jobName, Sum.inr.injEq] at hkey
    cases jobName_injective hkey
    refine hunique ha hb (hname.symm.trans hname') ?_
    rw [← hgroup, ← hgroup', hgroups e e' n hw hw']

/-- After any calls and ends of jobs, and any starts and ends of cron jobs, the snapshot of the two
schedulers is right exactly if no two calls for different scripts wait under one number, and no two
cron jobs in the store are looked up under one key. -/
theorem both_shown_iff (hr : Run (step q jobs) cond start h s) (listing : CronJobs.Listing s.sched)
    (events : List CronJobs.Event)
    (cronListing : CronJobs.Listing (events.foldl (CronJobs.step q) .empty)) :
    ShowsBoth listing.scheduler cronListing.scheduler
        (getSchedulerState listing.scheduler cronListing.scheduler).states ↔
      (∀ e e' counter, Waiting q jobs h e counter → Waiting q jobs h e' counter →
        (jobs e).group = (jobs e').group) ∧
      ((events.foldl (CronJobs.step q) .empty).jobs.map
        fun job => stateKey job.detail.name).Nodup := by
  have hapart : NumbersApart listing.scheduler cronListing.scheduler := by
    intro a ha b hb hkey
    obtain ⟨e, counter, -, hname, -⟩ :=
      (listed_iff hr listing a.name a.group).mp ⟨a, ha, rfl, rfl⟩
    rw [← hname, stateKey_jobName] at hkey
    cases hUID : parseJobUID b.name with
    | none => rfl
    | some jobUID =>
      rw [stateKey_of_some hUID] at hkey
      cases hkey
  rw [showsBoth_iff, ← snapshot_shows_iff, ← snapshot_shows_iff, (sound_run hr).shows_iff listing,
    (CronJobs.sound_reached q events).shows_iff cronListing, keys_nodup_iff hr,
    and_iff_left hapart]

def twoScripts : List (Step Bool) :=
  [.readCounter false, .readCounter true, .writeCounter true, .writeCounter false,
    .scheduleJob false 1, .scheduleJob true 1]

def fetchOrParse (e : Bool) : ScriptJob := nativeJob (if e then "parse.py" else "fetch.py")

theorem twoScripts_shown : ∃ s, Run (step epochQuartz fetchOrParse) AnyStep start twoScripts s ∧
    ∃ (listing : CronJobs.Listing s.sched) (cronListing : CronJobs.Listing .empty),
      (ShowsBoth listing.scheduler cronListing.scheduler
          (getSchedulerState listing.scheduler cronListing.scheduler).states ↔
        (∀ e e' counter, Waiting epochQuartz fetchOrParse twoScripts e counter →
          Waiting epochQuartz fetchOrParse twoScripts e' counter →
            (fetchOrParse e).group = (fetchOrParse e').group) ∧
        (JobStore.empty.jobs.map fun job => stateKey job.detail.name).Nodup) := by
  obtain ⟨s, hs⟩ : ∃ s, exec (step epochQuartz fetchOrParse) start twoScripts = some s :=
    ⟨_, rfl⟩
  have hr := run_anyStep_iff.mpr hs
  have listing := (sound_run hr).listing
  have cronListing := CronJobs.sound_empty.listing
  exact ⟨s, hr, listing, cronListing, both_shown_iff hr listing [] cronListing⟩

/-! ### Calls that do not disturb each other -/

theorem counter_run (hr : Run (step q jobs) (fun _ => Fresh) start h s) :
    Run (Counters.step (· + 1)) (fun _ => Counters.Fresh) (Counters.start 0)
      (h.filterMap counterStep) s.counter := by
  refine Run.project State.counter counterStep ?_ hr
  intro h s a s' hfresh hs
  rcases step_cases hs with ⟨c, _, hlabel, -, hc, rfl⟩ |
    ⟨_, _, rfl, -, -, hcounter, -, -, -⟩ | ⟨_, _, _, rfl, rfl⟩ | ⟨_, _, rfl, rfl⟩
  · refine .inr ⟨c, hlabel, ?_, hc⟩
    cases a with
    | readCounter e =>
      cases hlabel
      trivial
    | writeCounter e =>
      cases hlabel
      exact hfresh
    | scheduleJob e counter => cases hlabel
    | fire name group next => cases hlabel
    | complete name group => cases hlabel
  · exact .inl ⟨rfl, hcounter⟩
  · exact .inl ⟨rfl, rfl⟩
  · exact .inl ⟨rfl, rfl⟩

theorem has_of_mem (hr : Run (step q jobs) cond start h s) :
    ∀ e counter, .scheduleJob e counter ∈ h → s.counter.phase e = .has counter := by
  induction hr with
  | nil => exact nofun
  | snoc _ _ hs ih =>
    intro e counter he
    rcases step_cases hs with ⟨c, _, hlabel, hdone, hc, rfl⟩ |
      ⟨e', counter', rfl, hphase, -, hcounter, -, -, -⟩ | ⟨_, _, _, rfl, rfl⟩ | ⟨_, _, rfl, rfl⟩
    · rcases List.mem_append.mp he with he | he
      · exact Counters.has_step hc hdone (ih e counter he)
      · rw [← List.mem_singleton.mp he] at hlabel
        cases hlabel
    · rw [hcounter]
      rcases List.mem_append.mp he with he | he
      · exact ih e counter he
      · cases List.mem_singleton.mp he
        exact hphase
    · exact ih e counter (by simpa using he)
    · exact ih e counter (by simpa using he)

/-- As long as the counter is written as it was read and has not come round, no job is lost, and the
snapshot shows each, with its own trigger, until it is done. -/
theorem fresh_shown (hr : Run (step q jobs) (fun _ => Fresh) start h s)
    (hdraws : s.counter.drawn.length < 2 ^ 32) (listing : CronJobs.Listing s.sched) :
    s.lost = [] ∧ Shows listing.scheduler
        (getSchedulerStateForAScheduler newStates listing.scheduler).states ∧
      ∀ e counter, Waiting q jobs h e counter →
        ∃ state ∈ (getSchedulerStateForAScheduler newStates listing.scheduler).states,
          state.jobName = some (jobName counter) ∧ state.jobGroup = some (jobs e).group := by
  have howned := Counters.owned_of_fresh (counter_run hr) hdraws
  have hshows : Shows listing.scheduler
      (getSchedulerStateForAScheduler newStates listing.scheduler).states := by
    rw [(sound_run hr).shows_iff listing, keys_nodup_iff hr]
    intro e e' counter hw hw'
    rw [howned.unique e e' counter (has_of_mem hr e counter hw.mem)
      (has_of_mem hr e' counter hw'.mem)]
  refine ⟨?_, hshows, fun e counter hw => ?_⟩
  · rw [List.eq_nil_iff_forall_not_mem]
    intro e he
    obtain ⟨pre, a, post, rfl, counter, e', rfl, -, hne, -, hw⟩ := (lost_iff hr e).mp he
    refine hne (howned.unique e' e counter (has_of_mem hr e' counter ?_)
      (has_of_mem hr e counter (by simp)))
    exact List.mem_append_left _ hw.mem
  · obtain ⟨job, hjob, hname, hgroup⟩ :=
      (listed_iff hr listing _ _).mpr ⟨e, counter, hw, rfl, rfl⟩
    have hmem := hshows.one_each.mem_iff.mpr (List.mem_map_of_mem hjob)
    obtain ⟨state, hstate, heq⟩ := List.mem_map.mp hmem
    rw [hname, hgroup] at heq
    exact ⟨state, hstate, (Prod.mk.inj heq).1, (Prod.mk.inj heq).2⟩

def oneByOne : List (Step Bool) :=
  [.readCounter false, .writeCounter false, .readCounter true, .scheduleJob false 1,
    .writeCounter true, .fire "job#1" "fetch.py" none, .scheduleJob true 2]

theorem oneByOne_shown : ∃ s,
    Run (step epochQuartz fetchOrParse) (fun _ => Fresh) start oneByOne s ∧
      ∃ listing : CronJobs.Listing s.sched, s.lost = [] ∧
        Shows listing.scheduler
          (getSchedulerStateForAScheduler newStates listing.scheduler).states ∧
        ∀ e counter, Waiting epochQuartz fetchOrParse oneByOne e counter →
          ∃ state ∈ (getSchedulerStateForAScheduler newStates listing.scheduler).states,
            state.jobName = some (jobName counter) ∧
              state.jobGroup = some (fetchOrParse e).group := by
  have hcheck (h : List (Step Bool)) (s : State Bool) (a : Step Bool) (hc : decide (Fresh s a)) :
      Fresh s a := of_decide_eq_true hc
  obtain ⟨s, hs, hdraws⟩ : ∃ s, exec (fun s a =>
      if decide (Fresh s a) then step epochQuartz fetchOrParse s a else none) start oneByOne =
        some s ∧ s.counter.drawn.length < 2 ^ 32 :=
    ⟨_, rfl, by decide⟩
  have hr : Run (step epochQuartz fetchOrParse) (fun _ => Fresh) start oneByOne s :=
    run_of_exec_checked hcheck hs
  have listing := (sound_run hr).listing
  exact ⟨s, hr, listing, fresh_shown hr hdraws listing⟩

end Runs

end InsightsAssist.ScriptJobs
