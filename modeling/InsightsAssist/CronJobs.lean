import InsightsAssist.JobReports
import InsightsAssist.JobStates

/-! The cron jobs that the scheduler starts with: `startCronJobs` over the job store of Quartz, what
it adds to the store, and what the snapshot of the store then shows. -/
namespace InsightsAssist.CronJobs
open Java JobStates

/-- `ParseException` and the exceptions of the scheduler are caught, others are not. -/
inductive Thrown where
  | parseException | schedulerException | illegalArgument
  deriving DecidableEq, Repr

/-- A job with what its data map is given: the script, and where the job is fired once for a time
that was missed, the next time of its cron trigger. -/
structure StoredJob where
  detail : JobDetail
  script : Option String
  nextFireTime : Option Int
  deriving DecidableEq, Repr

/-- `RAMJobStore`, in the order of storing. -/
structure JobStore where
  jobs : List StoredJob
  triggers : List Trigger
  deriving DecidableEq, Repr

def JobStore.empty : JobStore := ⟨[], []⟩

def JobStore.hasJob (store : JobStore) (name group : String) : Bool :=
  store.jobs.any fun job => job.detail.name = name ∧ job.detail.group = group

def JobStore.hasTrigger (store : JobStore) (name group : String) : Bool :=
  store.triggers.any fun t => t.name = name ∧ t.group = group

def check (holds : Bool) (e : Thrown) : Prog Thrown JobStore Unit :=
  if holds then pure () else throw e

def storeJob (job : StoredJob) : Prog Thrown JobStore Unit := do
  let store ← get
  check (!store.hasJob job.detail.name job.detail.group) .schedulerException
  set { store with jobs := store.jobs ++ [job] }

/-- A trigger must be new and fire a job that is there. -/
def storeTrigger (t : Trigger) : Prog Thrown JobStore Unit := do
  let store ← get
  check (!store.hasTrigger t.name t.group) .schedulerException
  check (store.hasJob t.name t.group) .schedulerException
  set { store with triggers := store.triggers ++ [t] }

/-- `Scheduler.scheduleJob` with a trigger of the job's own name and group; one that will never
fire is refused. -/
def scheduleJob (job : StoredJob) (t : Trigger) (firstFireTime : Option Int) :
    Prog Thrown JobStore Int :=
  match firstFireTime with
  | none => throw .schedulerException
  | some ft => do
    storeJob job
    storeTrigger t
    return ft

/-- The fields of IAJobInfo that are read when cron jobs are started. -/
structure JobInfo extends JobStatistics.IAJobInfo where
  jobType : String
  handler : Option String
  script : Option String
  cronExp : Option String
  scheduleType : Option String
  nextFireTime : Int
  deriving DecidableEq, Repr

def JobInfo.isBlocked (ji : JobInfo) : Bool := JobStatistics.JOB_NOT_BLOCKED < ji.blocked

/-- Which classes are jobs, which texts are cron expressions, when one fires first after a start,
and how times are written. -/
structure Quartz where
  isJob : String → Bool
  parses : String → Bool
  firstFireTime : String → Int → Option Int
  format : Int → String

/-- What the clock says while a job is scheduled: at the making of its trigger, at the look for a
missed time, and the even minute that `getNextGivenMinuteDate` gives. -/
structure Clock where
  started : Int
  curTime : Int
  minute : Int

def SYSTEM_JOB_GROUP : String := "ia"

def MISFIRED_JOB_GROUP : String := SYSTEM_JOB_GROUP ++ "_"

variable (q : Quartz) (clock : String → Clock)

def newJobDetail (name group : String) (jobClass : Option String) :
    Prog Thrown JobStore JobDetail := do
  check (trim name ≠ "") .illegalArgument
  match jobClass with
  | none => throw .illegalArgument
  | some jobClass =>
    check (q.isJob jobClass) .illegalArgument
    return ⟨name, group, jobClass⟩

def newCronTrigger (cronExp : Option String) : Prog Thrown JobStore String :=
  match cronExp with
  | none => throw .illegalArgument
  | some cronExp => do
    check (q.parses cronExp) .parseException
    return cronExp

def cronTrigger (ji : JobInfo) (cronExp : String) (ft : Option Int) : Trigger where
  name := ji.jobType
  group := SYSTEM_JOB_GROUP
  schedule := .CronTrigger (some (q.format (clock ji.jobType).started)) (ft.map q.format)
    (some cronExp)

def simpleTrigger (ji : JobInfo) : Trigger where
  name := ji.jobType
  group := MISFIRED_JOB_GROUP
  schedule := .SimpleTrigger (some (q.format (clock ji.jobType).minute))
    (some (q.format (clock ji.jobType).minute)) 0 0

def scheduleCron (ji : JobInfo) : Prog Thrown JobStore Int := do
  let jobDetail ← newJobDetail q ji.jobType SYSTEM_JOB_GROUP ji.handler
  let cronExp ← newCronTrigger q ji.cronExp
  let ft := q.firstFireTime cronExp (clock ji.jobType).started
  scheduleJob ⟨jobDetail, ji.script, none⟩ (cronTrigger q clock ji cronExp ft) ft

/-- The job once more in another group, to be fired once. -/
def scheduleMisfired (ji : JobInfo) (cronNextFireTime : Int) : Prog Thrown JobStore Unit := do
  let jobDetail ← newJobDetail q ji.jobType MISFIRED_JOB_GROUP ji.handler
  let _ ← scheduleJob ⟨jobDetail, ji.script, some cronNextFireTime⟩ (simpleTrigger q clock ji)
    (some (clock ji.jobType).minute)

/-- The time the job should have been fired at has passed; 1 stands for a fresh start. -/
def missed (ji : JobInfo) (nextFireTime : Int) : Bool :=
  nextFireTime ≠ 1 && decide (nextFireTime < (clock ji.jobType).curTime)

def scheduleSystemCronJob (ji : JobInfo) (nextFireTime : Int) : Prog Thrown JobStore Unit :=
  tryCatch
    (do
      let ft ← scheduleCron q clock ji
      if missed clock ji nextFireTime then scheduleMisfired q clock ji ft else pure ())
    fun e => match e with
      | .parseException | .schedulerException => pure ()
      | .illegalArgument => throw .illegalArgument

/-- A cron job that is neither blocked nor expired, on a production system. -/
def eligible (productionSystem : Bool) (ji : JobInfo) : Bool :=
  ji.scheduleType = some "cron" && !ji.isBlocked && ji.nextFireTime ≠ 0 && productionSystem

/-- Over the job infos in the order of the map. -/
def startCronJobs (productionSystem : Bool) : List JobInfo → Prog Thrown JobStore Unit
  | [] => pure ()
  | ji :: jobInfos => do
    if eligible productionSystem ji then scheduleSystemCronJob q clock ji ji.nextFireTime
    else pure ()
    startCronJobs productionSystem jobInfos

/-! ### What is added -/

def JobStore.add (store : JobStore) (added : List (StoredJob × Trigger)) : JobStore :=
  ⟨store.jobs ++ added.map Prod.fst, store.triggers ++ added.map Prod.snd⟩

/-- Quartz makes a job and a trigger of it. -/
def constructible (ji : JobInfo) : Bool :=
  trim ji.jobType ≠ "" && ji.handler.any q.isJob && ji.cronExp.isSome

def detail (ji : JobInfo) (group : String) : JobDetail := ⟨ji.jobType, group, ji.handler.getD ""⟩

def firstFireTime (ji : JobInfo) : Option Int :=
  (ji.cronExp.filter q.parses).bind (q.firstFireTime · (clock ji.jobType).started)

def cronJob (ji : JobInfo) (ft : Int) : StoredJob × Trigger :=
  (⟨detail ji SYSTEM_JOB_GROUP, ji.script, none⟩,
    cronTrigger q clock ji (ji.cronExp.getD "") (some ft))

def misfiredJob (ji : JobInfo) (ft : Int) : StoredJob × Trigger :=
  (⟨detail ji MISFIRED_JOB_GROUP, ji.script, some ft⟩, simpleTrigger q clock ji)

def added (store : JobStore) (ji : JobInfo) : List (StoredJob × Trigger) :=
  match firstFireTime q clock ji with
  | none => []
  | some ft =>
    if store.hasJob ji.jobType SYSTEM_JOB_GROUP then []
    else
      cronJob q clock ji ft ::
        if missed clock ji ji.nextFireTime && !store.hasJob ji.jobType MISFIRED_JOB_GROUP then
          [misfiredJob q clock ji ft]
        else []

/-- No two jobs and no two triggers have one name and group, a trigger has those of a job and a job
those of a trigger, and the triggers are of the two classes that are shown. -/
structure Sound (store : JobStore) : Prop where
  jobs_nodup : (store.jobs.map fun job => (job.detail.name, job.detail.group)).Nodup
  triggers_nodup : (store.triggers.map fun t => (t.name, t.group)).Nodup
  fires : ∀ t ∈ store.triggers, store.hasJob t.name t.group
  fired : ∀ job ∈ store.jobs, store.hasTrigger job.detail.name job.detail.group
  shown : ∀ t ∈ store.triggers, t.schedule.shown.isSome

section Store
variable {store : JobStore} {job : StoredJob} {t : Trigger} {name group : String}

@[simp] theorem run_check_true (e : Thrown) (store : JobStore) :
    (check true e).run store = (.ok (), store) := rfl

@[simp] theorem run_check_false (e : Thrown) (store : JobStore) :
    (check false e).run store = (.error e, store) := rfl

theorem hasJob_iff : store.hasJob name group ↔
    (name, group) ∈ store.jobs.map fun job => (job.detail.name, job.detail.group) := by
  simp only [JobStore.hasJob, List.any_eq_true, decide_eq_true_eq, List.mem_map, Prod.mk.injEq]

theorem hasTrigger_iff : store.hasTrigger name group ↔
    (name, group) ∈ store.triggers.map fun t => (t.name, t.group) := by
  simp only [JobStore.hasTrigger, List.any_eq_true, decide_eq_true_eq, List.mem_map,
    Prod.mk.injEq]

theorem sound_empty : Sound .empty :=
  ⟨List.nodup_nil, List.nodup_nil, nofun, nofun, nofun⟩

theorem Sound.hasJob_of_hasTrigger (h : Sound store) (ht : store.hasTrigger name group) :
    store.hasJob name group := by
  obtain ⟨t, hmem, heq⟩ := List.mem_map.mp (hasTrigger_iff.mp ht)
  obtain ⟨rfl, rfl⟩ := Prod.mk.inj heq
  exact h.fires t hmem

theorem hasJob_add {added : List (StoredJob × Trigger)} : (store.add added).hasJob name group ↔
    store.hasJob name group ∨
      ∃ entry ∈ added, entry.1.detail.name = name ∧ entry.1.detail.group = group := by
  simp only [JobStore.hasJob, JobStore.add, List.any_append, Bool.or_eq_true]
  refine or_congr_right ?_
  simp only [List.any_eq_true, decide_eq_true_eq, List.mem_map]
  constructor
  · rintro ⟨_, ⟨entry, hmem, rfl⟩, h⟩
    exact ⟨entry, hmem, h⟩
  · rintro ⟨entry, hmem, h⟩
    exact ⟨entry.1, ⟨entry, hmem, rfl⟩, h⟩

theorem Sound.add (h : Sound store) (hnew : store.hasJob job.detail.name job.detail.group = false)
    (hname : t.name = job.detail.name) (hgroup : t.group = job.detail.group)
    (hshown : t.schedule.shown.isSome) : Sound (store.add [(job, t)]) := by
  have hjob : (job.detail.name, job.detail.group) ∉
      store.jobs.map fun job => (job.detail.name, job.detail.group) := by
    rw [← hasJob_iff, hnew]
    exact Bool.false_ne_true
  have htrigger : (t.name, t.group) ∉ store.triggers.map fun t => (t.name, t.group) := by
    intro hmem
    rw [← hasTrigger_iff] at hmem
    have hfound := h.hasJob_of_hasTrigger hmem
    rw [hname, hgroup, hnew] at hfound
    cases hfound
  refine ⟨?_, ?_, ?_, ?_, ?_⟩
  · simpa [JobStore.add, List.nodup_append] using ⟨h.jobs_nodup, fun a ha hn hg =>
      hjob (List.mem_map.mpr ⟨a, ha, by rw [hn, hg]⟩)⟩
  · simpa [JobStore.add, List.nodup_append] using ⟨h.triggers_nodup, fun a ha hn hg =>
      htrigger (List.mem_map.mpr ⟨a, ha, by rw [hn, hg]⟩)⟩
  · intro t' ht'
    rw [hasJob_add]
    rcases List.mem_append.mp ht' with hold | hnew
    · exact .inl (h.fires t' hold)
    · rw [List.mem_singleton.mp hnew]
      exact .inr ⟨_, List.mem_singleton_self _, hname.symm, hgroup.symm⟩
  · intro job' hjob'
    rw [JobStore.hasTrigger, JobStore.add, List.any_append, Bool.or_eq_true]
    rcases List.mem_append.mp hjob' with hold | hnew
    · exact .inl (h.fired job' hold)
    · rw [List.mem_singleton.mp hnew]
      exact .inr (by simp [hname, hgroup])
  · intro t' ht'
    rcases List.mem_append.mp ht' with hold | hnew
    · exact h.shown t' hold
    · rwa [List.mem_singleton.mp hnew]

/-- A job is stored with its trigger, or neither is: the check of the trigger finds nothing that the
check of the job has not found. -/
theorem run_scheduleJob (job : StoredJob) (t : Trigger) (h : Sound store)
    (hname : t.name = job.detail.name)
    (hgroup : t.group = job.detail.group) (ft : Int) :
    (scheduleJob job t (some ft)).run store =
      if store.hasJob job.detail.name job.detail.group then (.error .schedulerException, store)
      else (.ok ft, store.add [(job, t)]) := by
  cases hjob : store.hasJob job.detail.name job.detail.group with
  | true => simp [scheduleJob, storeJob, Prog.run_bind, hjob]
  | false =>
    have hadded : (⟨store.jobs ++ [job], store.triggers⟩ : JobStore).hasJob t.name t.group := by
      simp [JobStore.hasJob, hname, hgroup]
    have htrigger : (⟨store.jobs ++ [job], store.triggers⟩ : JobStore).hasTrigger t.name t.group =
        false := by
      rw [Bool.eq_false_iff]
      intro hfound
      have hfound := h.hasJob_of_hasTrigger hfound
      rw [hname, hgroup, hjob] at hfound
      cases hfound
    simp [scheduleJob, storeJob, storeTrigger, Prog.run_bind, hjob, hadded, htrigger,
      JobStore.add]

end Store

section System
variable {q clock} {store : JobStore} {ji : JobInfo}

theorem run_newJobDetail (group : String) : (newJobDetail q ji.jobType group ji.handler).run store =
    if trim ji.jobType ≠ "" ∧ ji.handler.any q.isJob then (.ok (detail ji group), store)
    else (.error .illegalArgument, store) := by
  by_cases hname : trim ji.jobType ≠ ""
  · cases hhandler : ji.handler with
    | none => simp [newJobDetail, Prog.run_bind, hname]
    | some jobClass =>
      cases hjob : q.isJob jobClass <;>
        simp [newJobDetail, Prog.run_bind, hname, hjob, detail, hhandler]
  · simp [newJobDetail, Prog.run_bind, hname]

theorem add_nil (store : JobStore) : store.add [] = store := by
  simp [JobStore.add]

theorem add_add (store : JobStore) (u v : List (StoredJob × Trigger)) :
    (store.add u).add v = store.add (u ++ v) := by
  simp [JobStore.add]

theorem hasJob_add_cronJob (ft : Int) :
    (store.add [cronJob q clock ji ft]).hasJob ji.jobType MISFIRED_JOB_GROUP =
      store.hasJob ji.jobType MISFIRED_JOB_GROUP := by
  have hgroups : SYSTEM_JOB_GROUP ≠ MISFIRED_JOB_GROUP := by decide
  rw [Bool.eq_iff_iff, hasJob_add, or_iff_left]
  rintro ⟨entry, hmem, -, hgroup⟩
  rw [List.mem_singleton.mp hmem] at hgroup
  exact hgroups hgroup

theorem run_scheduleMisfired (clock : String → Clock) (h : Sound store)
    (hmade : trim ji.jobType ≠ "" ∧ ji.handler.any q.isJob) (ft : Int) :
    (scheduleMisfired q clock ji ft).run store =
      if store.hasJob ji.jobType MISFIRED_JOB_GROUP then (.error .schedulerException, store)
      else (.ok (), store.add [misfiredJob q clock ji ft]) := by
  have hdetail : (newJobDetail q ji.jobType MISFIRED_JOB_GROUP ji.handler).run store =
      (.ok (detail ji MISFIRED_JOB_GROUP), store) := by rw [run_newJobDetail, if_pos hmade]
  have hrun := run_scheduleJob (misfiredJob q clock ji ft).1 (simpleTrigger q clock ji) h rfl rfl
    (clock ji.jobType).minute
  rw [scheduleMisfired, Prog.run_bind_ok hdetail]
  by_cases hjob : store.hasJob ji.jobType MISFIRED_JOB_GROUP
  · rw [if_pos hjob]
    exact Prog.run_bind_error (hrun.trans (if_pos hjob)) _
  · rw [if_neg hjob]
    exact Prog.run_bind_ok (hrun.trans (if_neg hjob)) _

theorem run_scheduleCron_of_not (hmade : constructible q ji = false) :
    (scheduleCron q clock ji).run store = (.error .illegalArgument, store) := by
  rw [scheduleCron, Prog.run_bind, run_newJobDetail]
  by_cases hdetail : trim ji.jobType ≠ "" ∧ ji.handler.any q.isJob
  · have hexp : ji.cronExp = none := by simpa [constructible, hdetail] using hmade
    rw [if_pos hdetail, hexp]
    rfl
  · rw [if_neg hdetail]

theorem constructible_iff : constructible q ji ↔
    (trim ji.jobType ≠ "" ∧ ji.handler.any q.isJob) ∧ ∃ cronExp, ji.cronExp = some cronExp := by
  simp [constructible, Option.isSome_iff_exists]

theorem run_scheduleCron (clock : String → Clock) (h : Sound store) (hmade : constructible q ji) :
    (firstFireTime q clock ji = none ∧
      ∃ e, e ≠ .illegalArgument ∧ (scheduleCron q clock ji).run store = (.error e, store)) ∨
    ∃ ft, firstFireTime q clock ji = some ft ∧ (scheduleCron q clock ji).run store =
      if store.hasJob ji.jobType SYSTEM_JOB_GROUP then (.error .schedulerException, store)
      else (.ok ft, store.add [cronJob q clock ji ft]) := by
  obtain ⟨hnamed, cronExp, hexp⟩ := constructible_iff.mp hmade
  have hdetail : (newJobDetail q ji.jobType SYSTEM_JOB_GROUP ji.handler).run store =
      (.ok (detail ji SYSTEM_JOB_GROUP), store) := by rw [run_newJobDetail, if_pos hnamed]
  rw [scheduleCron, Prog.run_bind_ok hdetail, firstFireTime, hexp]
  cases hparses : q.parses cronExp with
  | false =>
    refine .inl ⟨by simp [Option.filter, hparses], .parseException, nofun, ?_⟩
    simp [newCronTrigger, Prog.run_bind, hparses]
  | true =>
    have htrigger : (newCronTrigger q (some cronExp)).run store = (.ok cronExp, store) := by
      simp [newCronTrigger, Prog.run_bind, hparses]
    have hfilter : (some cronExp).filter q.parses = some cronExp := by simp [Option.filter, hparses]
    rw [Prog.run_bind_ok htrigger, hfilter, Option.bind_some]
    cases hft : q.firstFireTime cronExp (clock ji.jobType).started with
    | none => exact .inl ⟨rfl, .schedulerException, nofun, rfl⟩
    | some ft =>
      have hrun := run_scheduleJob (cronJob q clock ji ft).1 (cronJob q clock ji ft).2 h rfl rfl ft
      refine .inr ⟨ft, rfl, ?_⟩
      simp only [cronJob, hexp, Option.getD_some] at hrun ⊢
      exact hrun

theorem run_scheduleSystemCronJob (h : Sound store) :
    (scheduleSystemCronJob q clock ji ji.nextFireTime).run store =
      if constructible q ji then (.ok (), store.add (added q clock store ji))
      else (.error .illegalArgument, store) := by
  rw [scheduleSystemCronJob, Prog.run_tryCatch]
  cases hmade : constructible q ji with
  | false => rw [Prog.run_bind_error (run_scheduleCron_of_not hmade)]; rfl
  | true =>
    rw [if_pos rfl, added]
    rcases run_scheduleCron clock h hmade with ⟨hft, e, he, hcron⟩ | ⟨ft, hft, hcron⟩
    · rw [Prog.run_bind_error hcron, hft, add_nil]
      cases e with
      | parseException => rfl
      | schedulerException => rfl
      | illegalArgument => exact absurd rfl he
    · rw [hft]
      by_cases hjob : store.hasJob ji.jobType SYSTEM_JOB_GROUP
      · rw [Prog.run_bind_error (hcron.trans (if_pos hjob))]
        simp only [hjob, if_true, add_nil]
        rfl
      · rw [Prog.run_bind_ok (hcron.trans (if_neg hjob))]
        simp only [hjob, Bool.false_eq_true, if_false]
        cases hmissed : missed clock ji ji.nextFireTime with
        | false => simp
        | true =>
          have hsound : Sound (store.add [cronJob q clock ji ft]) :=
            h.add (Bool.eq_false_iff.mpr hjob) rfl rfl rfl
          have hrun := run_scheduleMisfired clock hsound (constructible_iff.mp hmade).1 ft
          rw [hasJob_add_cronJob] at hrun
          rw [if_pos rfl, hrun]
          cases store.hasJob ji.jobType MISFIRED_JOB_GROUP with
          | true => rfl
          | false => rw [if_neg Bool.false_ne_true, add_add]; rfl

theorem Sound.add_added (h : Sound store) : Sound (store.add (added q clock store ji)) := by
  unfold added
  split
  · rwa [add_nil]
  · rename_i ft _
    split
    · rwa [add_nil]
    · rename_i hjob
      have hcron : Sound (store.add [cronJob q clock ji ft]) :=
        h.add (Bool.eq_false_iff.mpr hjob) rfl rfl rfl
      split
      · rename_i hmissed
        have hnew : (store.add [cronJob q clock ji ft]).hasJob ji.jobType MISFIRED_JOB_GROUP =
            store.hasJob ji.jobType MISFIRED_JOB_GROUP := hasJob_add_cronJob ft
        rw [← List.singleton_append, ← add_add]
        refine hcron.add ?_ rfl rfl rfl
        exact hnew.trans (by simpa using (Bool.and_eq_true_iff.mp hmissed).2)
      · exact hcron

def goesOn (q : Quartz) (productionSystem : Bool) (ji : JobInfo) : Bool :=
  !eligible productionSystem ji || constructible q ji

end System

/-- The map of job infos, in its order. -/
structure JobInfos where
  values : List JobInfo
  keyed : (values.map JobInfo.jobType).Nodup

/-- What happens to the store: the jobs are started, the trigger of one of them fires and has its
next fire time, if there is one, or a job is done and taken out with its trigger. -/
inductive Event where
  | start (productionSystem : Bool) (jobInfos : JobInfos) (clock : String → Clock)
  | fire (name group : String) (nextFireTime : Option Int)
  | complete (name group : String)

def refire (nextFireTime : Option String) : Schedule → Schedule
  | .SimpleTrigger startTime _ repeatCount repeatInterval =>
    .SimpleTrigger startTime nextFireTime repeatCount repeatInterval
  | .CronTrigger startTime _ cronExpression => .CronTrigger startTime nextFireTime cronExpression
  | .other => .other

def step (q : Quartz) (store : JobStore) : Event → JobStore
  | .start productionSystem jobInfos clock =>
    ((startCronJobs q clock productionSystem jobInfos.values).run store).2
  | .fire name group nextFireTime =>
    { store with triggers := store.triggers.map fun t =>
        if t.name = name ∧ t.group = group then
          { t with schedule := refire (nextFireTime.map q.format) t.schedule }
        else t }
  | .complete name group =>
    ⟨store.jobs.filter fun job => ¬(job.detail.name = name ∧ job.detail.group = group),
      store.triggers.filter fun t => ¬(t.name = name ∧ t.group = group)⟩

section Runs
variable {q : Quartz} {store : JobStore}

theorem keeps_startCronJobs (clock : String → Clock) (productionSystem : Bool)
    (jobInfos : List JobInfo) :
    Prog.Keeps Sound (startCronJobs q clock productionSystem jobInfos) := by
  have hone : ∀ ji : JobInfo, Prog.Keeps Sound
      (scheduleSystemCronJob q clock ji ji.nextFireTime) := by
    intro ji store h
    rw [run_scheduleSystemCronJob h]
    split
    · exact h.add_added
    · exact h
  induction jobInfos with
  | nil => exact .pure ()
  | cons ji jobInfos ih => exact .ite (.bind (hone ji) fun _ => ih) ih

theorem Sound.fire (h : Sound store) (name group : String) (nextFireTime : Option Int) :
    Sound (step q store (.fire name group nextFireTime)) := by
  have hkeys : (step q store (.fire name group nextFireTime)).triggers.map
      (fun t => (t.name, t.group)) = store.triggers.map fun t => (t.name, t.group) := by
    rw [step, List.map_map]
    refine List.map_congr_left fun t _ => ?_
    rw [Function.comp_apply]
    split <;> rfl
  have hshown (next : Option String) (schedule : Schedule) :
      (refire next schedule).shown.isSome = schedule.shown.isSome := by
    cases schedule <;> rfl
  refine ⟨h.jobs_nodup, hkeys ▸ h.triggers_nodup, ?_, ?_, ?_⟩
  · intro t ht
    refine h.hasJob_of_hasTrigger (hasTrigger_iff.mpr ?_)
    rw [← hkeys]
    exact List.mem_map_of_mem ht
  · intro job hjob
    rw [hasTrigger_iff, hkeys]
    exact hasTrigger_iff.mp (h.fired job hjob)
  · intro t ht
    obtain ⟨u, hu, rfl⟩ := List.mem_map.mp ht
    split
    · rw [hshown]
      exact h.shown u hu
    · exact h.shown u hu

theorem Sound.complete (h : Sound store) (name group : String) :
    Sound (step q store (.complete name group)) := by
  refine ⟨(List.filter_sublist.map _).nodup h.jobs_nodup,
    (List.filter_sublist.map _).nodup h.triggers_nodup, ?_, ?_,
    fun t ht => h.shown t (List.mem_filter.mp ht).1⟩
  · intro t ht
    obtain ⟨hmem, hkept⟩ := List.mem_filter.mp ht
    obtain ⟨job, hjob, hkey⟩ := List.any_eq_true.mp (h.fires t hmem)
    obtain ⟨hname, hgroup⟩ := of_decide_eq_true hkey
    refine List.any_eq_true.mpr ⟨job, List.mem_filter.mpr ⟨hjob, ?_⟩, hkey⟩
    rwa [hname, hgroup]
  · intro job hjob
    obtain ⟨hmem, hkept⟩ := List.mem_filter.mp hjob
    obtain ⟨t, ht, hkey⟩ := List.any_eq_true.mp (h.fired job hmem)
    obtain ⟨hname, hgroup⟩ := of_decide_eq_true hkey
    refine List.any_eq_true.mpr ⟨t, List.mem_filter.mpr ⟨ht, ?_⟩, hkey⟩
    rwa [hname, hgroup]

theorem sound_reached (q : Quartz) (h : List Event) : Sound (h.foldl (step q) .empty) := by
  induction h using List.reverseRecOn with
  | nil => exact sound_empty
  | append_singleton h e ih =>
    rw [List.foldl_append, List.foldl_cons, List.foldl_nil]
    cases e with
    | start productionSystem jobInfos clock =>
      exact keeps_startCronJobs clock productionSystem jobInfos.values _ ih
    | fire name group nextFireTime => exact ih.fire name group nextFireTime
    | complete name group => exact ih.complete name group

def jobInfo (jobType : String) (nextFireTime : Int) : JobInfo where
  blocked := JobStatistics.JOB_NOT_BLOCKED
  blockedItypes := []
  lastBlocked := none
  lastRefreshed := 0
  jobType := jobType
  handler := some "com.ia.scheduler.jobs.CleanJob"
  script := none
  cronExp := some "0 0 1 * * ?"
  scheduleType := some "cron"
  nextFireTime := nextFireTime

def jobInfos : JobInfos := ⟨[jobInfo "clean" 1, jobInfo "check" 50], by decide⟩

/-- The jobs and triggers of a store by group, in whatever order the scheduler lists them. -/
structure Listing (store : JobStore) where
  scheduler : Scheduler
  jobs : scheduler.jobs.Perm (store.jobs.map StoredJob.detail)
  triggers : scheduler.triggers.Perm store.triggers

def Sound.listing (h : Sound store) : Listing store :=
  have hjobs : jobDetails (store.jobs.map fun job =>
      (job.detail.group, [(job.detail.name, job.detail.jobClass)])) =
      store.jobs.map StoredJob.detail := by
    rw [jobDetails, List.flatMap_map]
    exact (List.map_eq_flatMap ..).symm
  have htriggers : triggerList (store.triggers.map fun t => (t.group, [(t.name, t.schedule)])) =
      store.triggers := by
    simp [triggerList, List.flatMap_map]
  { scheduler := {
      jobGroups := store.jobs.map fun job =>
        (job.detail.group, [(job.detail.name, job.detail.jobClass)])
      triggerGroups := store.triggers.map fun t => (t.group, [(t.name, t.schedule)])
      jobs_nodup := by
        rw [hjobs, List.map_map]
        exact h.jobs_nodup
      triggers_nodup := by
        rw [htriggers]
        exact h.triggers_nodup
      fires := by
        rw [hjobs, htriggers]
        intro t ht
        obtain ⟨job, hjob, hkey⟩ := List.any_eq_true.mp (h.fires t ht)
        exact ⟨job.detail, List.mem_map_of_mem hjob, of_decide_eq_true hkey⟩ }
    jobs := List.Perm.of_eq hjobs
    triggers := List.Perm.of_eq htriggers }

theorem Sound.triggerOf_isSome (h : Sound store) (listing : Listing store) {job : JobDetail}
    (hjob : job ∈ listing.scheduler.jobs) : listing.scheduler.triggerOf job ≠ none := by
  obtain ⟨stored, hstored, rfl⟩ := List.mem_map.mp (listing.jobs.mem_iff.mp hjob)
  obtain ⟨t, ht, hkey⟩ := List.any_eq_true.mp (h.fired stored hstored)
  intro hnone
  exact List.find?_eq_none.mp hnone t (listing.triggers.mem_iff.mpr ht) (by simpa using hkey)

theorem Sound.shows_iff (h : Sound store) (listing : Listing store) :
    Shows listing.scheduler
        (getSchedulerStateForAScheduler newStates listing.scheduler).states ↔
      (store.jobs.map fun job => stateKey job.detail.name).Nodup := by
  have hseparate : Separate listing.scheduler ↔
      (listing.scheduler.jobs.map fun job => stateKey job.name).Nodup := by
    rw [List.Nodup, List.pairwise_map]
    constructor
    · refine fun hs => hs.apart.imp_of_mem fun {a b} ha _ hab hkey => ?_
      exact h.triggerOf_isSome listing ha (hab hkey).2
    · intro hpairs
      refine ⟨hpairs.imp fun hne hkey => absurd hkey hne, fun t ht => ?_⟩
      exact h.shown t (listing.triggers.mem_iff.mp ht)
  have hkeys := (listing.jobs.map fun job => stateKey job.name).nodup_iff
  rw [List.map_map] at hkeys
  exact ⟨fun hshows => hkeys.mp (hseparate.mp (separate_of_shows hshows)),
    fun hnodup => shows_of_separate (hseparate.mpr (hkeys.mpr hnodup))⟩

def started (q : Quartz) (clock : String → Clock) (productionSystem : Bool) (jobInfos : JobInfos) :
    List JobInfo :=
  ((jobInfos.values.takeWhile (goesOn q productionSystem)).filter
    (eligible productionSystem)).filter fun ji => (firstFireTime q clock ji).isSome

end Runs

end InsightsAssist.CronJobs
