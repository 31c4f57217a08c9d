import Mathlib.Data.List.Nodup
import InsightsAssist.JavaStrings

/-! The snapshot of a scheduler that the admin pages show: `IAJobStates`, filled from the jobs and
then from the triggers that the scheduler lists. -/
namespace InsightsAssist.JobStates
open Java

/-- The fields that jobs and triggers fill in. -/
structure IAJobState where
  jobName : Option String
  jobType : Option String
  jobHandler : Option String
  jobGroup : Option String
  triggerType : Option String
  triggerGroup : Option String
  triggerDetails : Option String
  deriving DecidableEq, Repr

def newState : IAJobState := ⟨none, none, none, none, none, none, none⟩

/-- The maps lead to indices of `states`, which stand for references. -/
structure IAJobStates where
  states : List IAJobState
  jobUIDtoStateMap : Int → Option Nat
  cronJobTypetoStateMap : String → Option Nat

def newStates : IAJobStates := ⟨[], fun _ => none, fun _ => none⟩

def prefix1 : List Char := "job#".toList

/-- The number of a name such as job#98299:6. None also where it does not parse: the exception is
logged and the name taken for that of a cron job. -/
def parseJobUID (jobName : String) : Option Int :=
  let name := jobName.toList
  let colonIndex := indexOf name ':'
  let idIndex : Int := if prefix1.isPrefixOf name then prefix1.length else 0
  if colonIndex ≠ -1 ∧ 0 < idIndex then
    match substring name idIndex colonIndex with
    | .ok id => parseInt (.ofList id)
    | .error _ => none
  else none

/-- What follows the last dot. -/
def simpleName (jobHandler : String) : String :=
  .ofList (jobHandler.toList.rtakeWhile (· ≠ '.'))

def IAJobStates.update (s : IAJobStates) (i : Nat) (f : IAJobState → IAJobState) : IAJobStates :=
  { s with states := s.states.modify i f }

def IAJobStates.addUID (s : IAJobStates) (jobUID : Int) (state : IAJobState) : IAJobStates :=
  { s with
    states := s.states ++ [state]
    jobUIDtoStateMap := Function.update s.jobUIDtoStateMap jobUID (some s.states.length) }

def IAJobStates.addCron (s : IAJobStates) (jobType : String) (state : IAJobState) : IAJobStates :=
  { s with
    states := s.states ++ [state]
    cronJobTypetoStateMap :=
      Function.update s.cronJobTypetoStateMap jobType (some s.states.length) }

def IAJobStates.populateJobDetail (s : IAJobStates) (jobName jobGroup jobHandler : String) :
    IAJobStates :=
  let fill (state : IAJobState) := { state with
    jobName := some jobName
    jobGroup := some jobGroup
    jobHandler := some (simpleName jobHandler) }
  match parseJobUID jobName with
  | some jobUID =>
    match s.jobUIDtoStateMap jobUID with
    | some i => s.update i fill
    | none => s.addUID jobUID (fill newState)
  | none => s.addCron jobName { fill newState with jobType := some jobName }

def IAJobStates.populateJobTrigger (s : IAJobStates)
    (triggerType triggerName triggerGroup triggerDetails : String) : IAJobStates :=
  let fill (state : IAJobState) := { state with
    triggerType := some triggerType
    triggerGroup := some triggerGroup
    triggerDetails := some triggerDetails }
  let unknown : IAJobState :=
    { newState with jobName := some triggerName, jobType := some triggerName }
  match parseJobUID triggerName with
  | some jobUID =>
    match s.jobUIDtoStateMap jobUID with
    | some i => s.update i fill
    | none => s.addUID jobUID (fill unknown)
  | none =>
    match s.cronJobTypetoStateMap triggerName with
    | some i => s.update i fill
    | none =>
      if triggerType = "Cron" then s.addCron triggerName (fill unknown)
      else { s with states := s.states ++ [fill unknown] }

structure JobDetail where
  name : String
  group : String
  jobClass : String
  deriving DecidableEq, Repr

/-- Times as `MYSQL_TIMESTAMP_FORMAT` writes them. -/
inductive Schedule where
  | SimpleTrigger (startTime nextFireTime : Option String) (repeatCount repeatInterval : Int)
  | CronTrigger (startTime nextFireTime cronExpression : Option String)
  | other
  deriving DecidableEq, Repr

structure Trigger where
  name : String
  group : String
  schedule : Schedule
  deriving DecidableEq, Repr

/-- The type and the details that are shown; a trigger of another class is skipped. -/
def Schedule.shown : Schedule → Option (String × String)
  | .SimpleTrigger startTime nextFireTime repeatCount repeatInterval =>
    let startTimeStr := startTime.getD ""
    let nextFireTimeStr := nextFireTime.getD ""
    let triggerDetails := if nextFireTimeStr = "" then "startTime=" ++ startTimeStr ++ ", " else ""
    let triggerDetails := triggerDetails ++ "repeatCount=" ++ toString repeatCount ++
      ", repeatInterval=" ++ toString repeatInterval
    let triggerDetails := if nextFireTimeStr = "" then triggerDetails
      else triggerDetails ++ ", nextFireTime=" ++ nextFireTimeStr
    some ("Simple", triggerDetails)
  | .CronTrigger startTime nextFireTime cronExpression =>
    some ("Cron", "startTime=" ++ startTime.getD "" ++ ", cronExpr=" ++
      cronExpression.getD "null" ++ ", nextFireTime=" ++ nextFireTime.getD "")
  | .other => none

def jobDetails (jobGroups : List (String × List (String × String))) : List JobDetail :=
  jobGroups.flatMap fun (group, jobs) => jobs.map fun (name, jobClass) => ⟨name, group, jobClass⟩

def triggerList (triggerGroups : List (String × List (String × Schedule))) : List Trigger :=
  triggerGroups.flatMap fun (group, triggers) =>
    triggers.map fun (name, schedule) => ⟨name, group, schedule⟩

/-- Jobs and triggers by group, in the order the scheduler lists them. No two have the same name in
one group, and a trigger has the name and the group of the job that it fires. -/
structure Scheduler where
  jobGroups : List (String × List (String × String))
  triggerGroups : List (String × List (String × Schedule))
  jobs_nodup : ((jobDetails jobGroups).map fun job => (job.name, job.group)).Nodup
  triggers_nodup : ((triggerList triggerGroups).map fun t => (t.name, t.group)).Nodup
  fires : ∀ t ∈ triggerList triggerGroups,
    ∃ job ∈ jobDetails jobGroups, job.name = t.name ∧ job.group = t.group

def Scheduler.jobs (scheduler : Scheduler) : List JobDetail := jobDetails scheduler.jobGroups

def Scheduler.triggers (scheduler : Scheduler) : List Trigger :=
  triggerList scheduler.triggerGroups

def Scheduler.triggerOf (scheduler : Scheduler) (job : JobDetail) : Option Trigger :=
  scheduler.triggers.find? fun t => t.name = job.name ∧ t.group = job.group

def populateTrigger (states : IAJobStates) (t : Trigger) : IAJobStates :=
  match t.schedule.shown with
  | some (triggerType, triggerDetails) =>
    states.populateJobTrigger triggerType t.name t.group triggerDetails
  | none => states

def getSchedulerStateForAScheduler (states : IAJobStates) (scheduler : Scheduler) : IAJobStates :=
  let states := scheduler.jobGroups.foldl (fun states (jobGroupName, jobs) =>
    jobs.foldl (fun states (jobName, jobClass) =>
      states.populateJobDetail jobName jobGroupName jobClass) states) states
  scheduler.triggerGroups.foldl (fun states (triggerGroupName, triggers) =>
    triggers.foldl (fun states (triggerName, schedule) =>
      populateTrigger states ⟨triggerName, triggerGroupName, schedule⟩) states) states

structure Shows (scheduler : Scheduler) (states : List IAJobState) : Prop where
  one_each : (states.map fun state => (state.jobName, state.jobGroup)).Perm
    (scheduler.jobs.map fun job => (some job.name, some job.group))
  trigger : ∀ state ∈ states, ∀ job ∈ scheduler.jobs,
    state.jobName = some job.name → state.jobGroup = some job.group →
      state.triggerGroup = (scheduler.triggerOf job).map Trigger.group ∧
      state.triggerDetails = (scheduler.triggerOf job).bind fun t => t.schedule.shown.map Prod.snd

/-- What the maps are read at for a name. -/
def stateKey (name : String) : Int ⊕ String :=
  match parseJobUID name with
  | some jobUID => .inl jobUID
  | none => .inr name

/-- No two jobs have the same number, of two jobs with the same other name the one listed first has
no trigger, and each trigger is of one of the two classes. -/
structure Separate (scheduler : Scheduler) : Prop where
  apart : scheduler.jobs.Pairwise fun a b => stateKey a.name = stateKey b.name →
    parseJobUID a.name = none ∧ scheduler.triggerOf a = none
  shown : ∀ t ∈ scheduler.triggers, t.schedule.shown.isSome

def IAJobStates.find (s : IAJobStates) : Int ⊕ String → Option Nat
  | .inl jobUID => s.jobUIDtoStateMap jobUID
  | .inr name => s.cronJobTypetoStateMap name

def numbersDiffer (jobs : List JobDetail) : Prop :=
  jobs.Pairwise fun a b => stateKey a.name = stateKey b.name → parseJobUID a.name = none

/-- The entry of a job before triggers are looked at. -/
def entry (job : JobDetail) : IAJobState := { newState with
  jobName := some job.name
  jobType := if parseJobUID job.name = none then some job.name else none
  jobHandler := some (simpleName job.jobClass)
  jobGroup := some job.group }

def populateDetail (s : IAJobStates) (job : JobDetail) : IAJobStates :=
  s.populateJobDetail job.name job.group job.jobClass

def IsLast (jobs : List JobDetail) (key : Int ⊕ String) (i : Nat) : Prop :=
  (∃ job, jobs[i]? = some job ∧ stateKey job.name = key) ∧
    ∀ j job, i < j → jobs[j]? = some job → stateKey job.name ≠ key

structure Populated (jobs : List JobDetail) (s : IAJobStates) : Prop where
  found : ∀ job ∈ jobs, (s.find (stateKey job.name)).isSome
  known : ∀ key i, s.find key = some i → ∃ job ∈ jobs, stateKey job.name = key
  length_le : s.states.length ≤ jobs.length
  length_lt : ¬numbersDiffer jobs → s.states.length < jobs.length
  states : numbersDiffer jobs → s.states = jobs.map entry
  last : numbersDiffer jobs → ∀ key i, s.find key = some i → IsLast jobs key i

section Jobs
variable {jobs : List JobDetail} {job : JobDetail} {s : IAJobStates} {key : Int ⊕ String} {i : Nat}

theorem populated_newStates : Populated [] newStates where
  found := by simp
  known := by rintro (_ | _) _ h <;> cases h
  length_le := le_refl 0
  length_lt h := absurd List.Pairwise.nil h
  states _ := rfl
  last _ := by rintro (_ | _) _ h <;> cases h

theorem numbersDiffer_concat : numbersDiffer (jobs ++ [job]) ↔ numbersDiffer jobs ∧
    ∀ a ∈ jobs, stateKey a.name = stateKey job.name → parseJobUID a.name = none := by
  simp [numbersDiffer, List.pairwise_append]

theorem stateKey_of_some {name : String} {jobUID : Int} (h : parseJobUID name = some jobUID) :
    stateKey name = .inl jobUID := by
  rw [stateKey, h]

theorem stateKey_of_none {name : String} (h : parseJobUID name = none) :
    stateKey name = .inr name := by
  rw [stateKey, h]

theorem populateDetail_found (h : s.find (stateKey job.name) = some i)
    (hUID : (parseJobUID job.name).isSome) :
    (populateDetail s job).find = s.find ∧
      (populateDetail s job).states.length = s.states.length := by
  obtain ⟨jobUID, hUID⟩ := Option.isSome_iff_exists.mp hUID
  rw [stateKey_of_some hUID] at h
  have h : s.jobUIDtoStateMap jobUID = some i := h
  simp only [populateDetail, IAJobStates.populateJobDetail, hUID, h]
  refine ⟨?_, List.length_modify ..⟩
  funext key
  cases key <;> rfl

theorem populateDetail_added
    (h : s.find (stateKey job.name) = none ∨ parseJobUID job.name = none) :
    (populateDetail s job).find =
        Function.update s.find (stateKey job.name) (some s.states.length) ∧
      (populateDetail s job).states = s.states ++ [entry job] := by
  cases hUID : parseJobUID job.name with
  | some jobUID =>
    rw [stateKey_of_some hUID] at h ⊢
    have hfind : s.jobUIDtoStateMap jobUID = none := h.resolve_right (by simp [hUID])
    simp only [populateDetail, IAJobStates.populateJobDetail, hUID, hfind]
    constructor
    · funext key
      rcases key with n | name
      · by_cases hn : n = jobUID
        · subst hn
          simp [IAJobStates.find, IAJobStates.addUID]
        · simp [IAJobStates.find, IAJobStates.addUID, hn]
      · simp [IAJobStates.find, IAJobStates.addUID]
    · simp [IAJobStates.addUID, entry, hUID, newState]
  | none =>
    rw [stateKey_of_none hUID]
    simp only [populateDetail, IAJobStates.populateJobDetail, hUID]
    constructor
    · funext key
      rcases key with n | name
      · simp [IAJobStates.find, IAJobStates.addCron]
      · by_cases hname : name = job.name
        · subst hname
          simp [IAJobStates.find, IAJobStates.addCron]
        · simp [IAJobStates.find, IAJobStates.addCron, hname]
    · simp [IAJobStates.addCron, entry, hUID, newState]

theorem isLast_concat_of_ne (h : IsLast jobs key i) (hne : stateKey job.name ≠ key) :
    IsLast (jobs ++ [job]) key i := by
  obtain ⟨⟨a, ha, hkey⟩, hlast⟩ := h
  have hi : i < jobs.length := (List.getElem?_eq_some_iff.mp ha).1
  refine ⟨⟨a, by rw [List.getElem?_append_left hi, ha], hkey⟩, ?_⟩
  intro j b hij hb
  rw [List.getElem?_append] at hb
  split at hb
  · exact hlast j b hij hb
  · rw [List.getElem?_singleton] at hb
    split at hb
    · cases hb
      exact hne
    · cases hb

theorem isLast_concat_self : IsLast (jobs ++ [job]) (stateKey job.name) jobs.length := by
  refine ⟨⟨job, List.getElem?_concat_length, rfl⟩, ?_⟩
  intro j b hj hb
  rw [List.getElem?_eq_none (by simp; omega)] at hb
  cases hb

theorem populated_found (h : Populated jobs s) (hfind : s.find (stateKey job.name) = some i)
    (hUID : (parseJobUID job.name).isSome) :
    Populated (jobs ++ [job]) (populateDetail s job) := by
  obtain ⟨hfind', hlength⟩ := populateDetail_found hfind hUID
  obtain ⟨a, ha, hkey⟩ := h.known _ _ hfind
  have hnot : ¬numbersDiffer (jobs ++ [job]) := by
    intro hdiffer
    have hnone := (numbersDiffer_concat.mp hdiffer).2 a ha hkey
    obtain ⟨jobUID, hjobUID⟩ := Option.isSome_iff_exists.mp hUID
    rw [stateKey_of_none hnone, stateKey_of_some hjobUID] at hkey
    cases hkey
  refine ⟨?_, ?_, ?_, ?_, fun hdiffer => absurd hdiffer hnot, fun hdiffer => absurd hdiffer hnot⟩
  · intro b hb
    rw [hfind']
    rcases List.mem_append.mp hb with hb | hb
    · exact h.found b hb
    · rw [List.mem_singleton.mp hb, hfind]
      rfl
  · intro key j hj
    rw [hfind'] at hj
    obtain ⟨b, hb, hkey⟩ := h.known key j hj
    exact ⟨b, List.mem_append_left _ hb, hkey⟩
  · rw [hlength, List.length_append]
    exact le_trans h.length_le (Nat.le_add_right ..)
  · intro _
    rw [hlength, List.length_append]
    exact Nat.lt_succ_of_le h.length_le

theorem populated_added (h : Populated jobs s)
    (hnew : s.find (stateKey job.name) = none ∨ parseJobUID job.name = none) :
    Populated (jobs ++ [job]) (populateDetail s job) := by
  obtain ⟨hfind, hstates⟩ := populateDetail_added hnew
  have hdiffer : numbersDiffer (jobs ++ [job]) ↔ numbersDiffer jobs := by
    rw [numbersDiffer_concat, and_iff_left_iff_imp]
    intro _ a ha hkey
    rcases hnew with hnew | hnew
    · have hfound := h.found a ha
      rw [hkey, hnew] at hfound
      cases hfound
    · rw [stateKey_of_none hnew] at hkey
      cases ha : parseJobUID a.name with
      | none => rfl
      | some jobUID =>
        rw [stateKey_of_some ha] at hkey
        cases hkey
  refine ⟨?_, ?_, ?_, ?_, ?_, ?_⟩
  · intro b hb
    rw [hfind, Function.update_apply]
    split
    · rfl
    · rename_i hne
      rcases List.mem_append.mp hb with hb | hb
      · exact h.found b hb
      · rw [List.mem_singleton.mp hb] at hne
        exact absurd rfl hne
  · intro key j hj
    rw [hfind, Function.update_apply] at hj
    split at hj
    · rename_i hkey
      exact ⟨job, by simp, hkey.symm⟩
    · obtain ⟨b, hb, hkey⟩ := h.known key j hj
      exact ⟨b, List.mem_append_left _ hb, hkey⟩
  · simpa [hstates] using h.length_le
  · intro hnot
    rw [hdiffer] at hnot
    simpa [hstates] using h.length_lt hnot
  · intro hd
    rw [hstates, h.states (hdiffer.mp hd)]
    simp
  · intro hd key j hj
    rw [hfind, Function.update_apply] at hj
    split at hj
    · rename_i hkey
      cases hj
      rw [hkey, h.states (hdiffer.mp hd), List.length_map]
      exact isLast_concat_self
    · rename_i hne
      exact isLast_concat_of_ne (h.last (hdiffer.mp hd) key j hj) (Ne.symm hne)

theorem populated_concat (h : Populated jobs s) :
    Populated (jobs ++ [job]) (populateDetail s job) := by
  cases hfind : s.find (stateKey job.name) with
  | none => exact populated_added h (.inl hfind)
  | some i =>
    by_cases hUID : (parseJobUID job.name).isSome
    · exact populated_found h hfind hUID
    · exact populated_added h (.inr (by simpa using hUID))

theorem populated_jobs (jobs : List JobDetail) :
    Populated jobs (jobs.foldl populateDetail newStates) := by
  induction jobs using List.reverseRecOn with
  | nil => exact populated_newStates
  | append_singleton jobs job ih =>
    rw [List.foldl_append]
    exact populated_concat ih

end Jobs

/-- What the triggers read so far leave of the entries: each shows a trigger that leads to it, if
there is one. -/
structure Triggered (ts : List Trigger) (s₀ s : IAJobStates) : Prop where
  find : s.find = s₀.find
  entries : List.Forall₂ (fun a b => b.jobName = a.jobName ∧ b.jobGroup = a.jobGroup)
    s₀.states s.states
  trigger : ∀ i state, s.states[i]? = some state →
    (∃ t ∈ ts, s₀.find (stateKey t.name) = some i ∧ t.schedule.shown.isSome ∧
      state.triggerGroup = some t.group ∧
      state.triggerDetails = t.schedule.shown.map Prod.snd) ∨
    ((∀ t ∈ ts, t.schedule.shown.isSome → s₀.find (stateKey t.name) ≠ some i) ∧
      state.triggerGroup = none ∧ state.triggerDetails = none)

section Triggers
variable {ts : List Trigger} {t : Trigger} {s₀ s : IAJobStates} {i : Nat}

theorem populateTrigger_found {triggerType triggerDetails : String}
    (hshown : t.schedule.shown = some (triggerType, triggerDetails))
    (hfind : s.find (stateKey t.name) = some i) :
    populateTrigger s t = s.update i fun state => { state with
      triggerType := some triggerType
      triggerGroup := some t.group
      triggerDetails := some triggerDetails } := by
  simp only [populateTrigger, hshown, IAJobStates.populateJobTrigger]
  cases hUID : parseJobUID t.name with
  | some jobUID =>
    rw [stateKey_of_some hUID] at hfind
    have hfind : s.jobUIDtoStateMap jobUID = some i := hfind
    simp only [hfind]
  | none =>
    rw [stateKey_of_none hUID] at hfind
    have hfind : s.cronJobTypetoStateMap t.name = some i := hfind
    simp only [hfind]

theorem Triggered.trigger_concat (h : Triggered ts s₀ s) {state : IAJobState}
    (hstate : s.states[i]? = some state)
    (hother : t.schedule.shown.isSome → s₀.find (stateKey t.name) ≠ some i) :
    (∃ t' ∈ ts ++ [t], s₀.find (stateKey t'.name) = some i ∧ t'.schedule.shown.isSome ∧
      state.triggerGroup = some t'.group ∧
      state.triggerDetails = t'.schedule.shown.map Prod.snd) ∨
    ((∀ t' ∈ ts ++ [t], t'.schedule.shown.isSome → s₀.find (stateKey t'.name) ≠ some i) ∧
      state.triggerGroup = none ∧ state.triggerDetails = none) := by
  rcases h.trigger i state hstate with ⟨t', ht', hshows⟩ | ⟨hnone, hfields⟩
  · exact .inl ⟨t', List.mem_append_left _ ht', hshows⟩
  · refine .inr ⟨?_, hfields⟩
    intro t' ht'
    rcases List.mem_append.mp ht' with ht' | ht'
    · exact hnone t' ht'
    · rwa [List.mem_singleton.mp ht']

theorem triggered_skipped (h : Triggered ts s₀ s) (hshown : t.schedule.shown = none) :
    Triggered (ts ++ [t]) s₀ (populateTrigger s t) := by
  have hsame : populateTrigger s t = s := by simp only [populateTrigger, hshown]
  rw [hsame]
  refine ⟨h.find, h.entries, ?_⟩
  intro i state hstate
  refine h.trigger_concat hstate ?_
  simp [hshown]

theorem triggered_shown (h : Triggered ts s₀ s) {shown : String × String}
    (hshown : t.schedule.shown = some shown) (hfind : s₀.find (stateKey t.name) = some i) :
    Triggered (ts ++ [t]) s₀ (populateTrigger s t) := by
  rw [← h.find] at hfind
  rw [populateTrigger_found hshown hfind]
  rw [h.find] at hfind
  refine ⟨h.find, ?_, ?_⟩
  · rw [List.forall₂_iff_get]
    have hentries := List.forall₂_iff_get.mp h.entries
    refine ⟨by simpa [IAJobStates.update] using hentries.1, ?_⟩
    intro j h₁ h₂
    have hj : j < s.states.length := hentries.1 ▸ h₁
    have hpair := hentries.2 j h₁ hj
    simp only [List.get_eq_getElem] at hpair ⊢
    simp only [IAJobStates.update, List.getElem_modify]
    split <;> exact hpair
  · intro j state hstate
    simp only [IAJobStates.update, List.getElem?_modify] at hstate
    obtain ⟨state', hstate', heq⟩ := Option.map_eq_some_iff.mp hstate
    by_cases hij : i = j
    · rw [if_pos hij] at heq
      subst hij heq
      exact .inl ⟨t, by simp, hfind, by simp [hshown], rfl, by simp [hshown]⟩
    · rw [if_neg hij] at heq
      subst heq
      refine h.trigger_concat hstate' fun _ => ?_
      rw [hfind]
      simpa using hij

theorem triggered_all (hblank : ∀ state ∈ s₀.states, state.triggerGroup = none ∧
      state.triggerDetails = none)
    (hfind : ∀ t ∈ ts, (s₀.find (stateKey t.name)).isSome) :
    Triggered ts s₀ (ts.foldl populateTrigger s₀) := by
  induction ts using List.reverseRecOn with
  | nil =>
    refine ⟨rfl, List.forall₂_same.mpr fun _ _ => ⟨rfl, rfl⟩, ?_⟩
    intro i state hstate
    exact .inr ⟨by simp, hblank state (List.mem_of_getElem? hstate)⟩
  | append_singleton ts t ih =>
    have h := ih fun t' ht' => hfind t' (List.mem_append_left _ ht')
    rw [List.foldl_append]
    obtain ⟨i, hi⟩ := Option.isSome_iff_exists.mp (hfind t (by simp))
    cases hshown : t.schedule.shown with
    | none => exact triggered_skipped h hshown
    | some shown => exact triggered_shown h hshown hi

end Triggers

section Snapshot
variable {scheduler : Scheduler}

theorem getSchedulerStateForAScheduler_eq (states : IAJobStates) (scheduler : Scheduler) :
    getSchedulerStateForAScheduler states scheduler =
      scheduler.triggers.foldl populateTrigger (scheduler.jobs.foldl populateDetail states) := by
  rw [Scheduler.triggers, Scheduler.jobs, triggerList, jobDetails, List.foldl_flatMap,
    List.foldl_flatMap]
  simp only [List.foldl_map]
  rfl

theorem triggerOf_eq_some {t : Trigger} {job : JobDetail} :
    scheduler.triggerOf job = some t ↔
      t ∈ scheduler.triggers ∧ t.name = job.name ∧ t.group = job.group := by
  constructor
  · intro h
    exact ⟨List.mem_of_find?_eq_some h, by simpa using List.find?_some h⟩
  · rintro ⟨ht, hname, hgroup⟩
    cases hfind : scheduler.triggerOf job with
    | none =>
      rw [Scheduler.triggerOf, List.find?_eq_none] at hfind
      exact absurd (hfind t ht) (by simp [hname, hgroup])
    | some t' =>
      have ht' := List.mem_of_find?_eq_some hfind
      have hkey := List.find?_some hfind
      simp only [decide_eq_true_eq] at hkey
      rw [List.inj_on_of_nodup_map scheduler.triggers_nodup ht' ht
        (by rw [hkey.1, hkey.2, hname, hgroup])]

theorem job_unique {a b : JobDetail} (ha : a ∈ scheduler.jobs) (hb : b ∈ scheduler.jobs)
    (hname : a.name = b.name) (hgroup : a.group = b.group) : a = b :=
  List.inj_on_of_nodup_map scheduler.jobs_nodup ha hb (by rw [hname, hgroup])

theorem untriggered_populateDetail {s : IAJobStates}
    (hs : ∀ state ∈ s.states, state.triggerGroup = none ∧ state.triggerDetails = none)
    (job : JobDetail) : ∀ state ∈ (populateDetail s job).states,
      state.triggerGroup = none ∧ state.triggerDetails = none := by
  intro state hstate
  by_cases hnew : s.find (stateKey job.name) = none ∨ parseJobUID job.name = none
  · rw [(populateDetail_added hnew).2] at hstate
    rcases List.mem_append.mp hstate with hstate | hstate
    · exact hs state hstate
    · rw [List.mem_singleton.mp hstate]
      exact ⟨rfl, rfl⟩
  · rw [not_or] at hnew
    obtain ⟨i, hi⟩ := Option.ne_none_iff_exists'.mp hnew.1
    obtain ⟨jobUID, hUID⟩ := Option.ne_none_iff_exists'.mp hnew.2
    rw [stateKey_of_some hUID] at hi
    have hi : s.jobUIDtoStateMap jobUID = some i := hi
    simp only [populateDetail, IAJobStates.populateJobDetail, hUID, hi,
      IAJobStates.update] at hstate
    obtain ⟨j, hj⟩ := List.mem_iff_getElem?.mp hstate
    rw [List.getElem?_modify] at hj
    obtain ⟨state', hstate', heq⟩ := Option.map_eq_some_iff.mp hj
    have hblank := hs state' (List.mem_of_getElem? hstate')
    split at heq <;> (subst heq; exact hblank)

theorem untriggered (jobs : List JobDetail) :
    ∀ state ∈ (jobs.foldl populateDetail newStates).states,
      state.triggerGroup = none ∧ state.triggerDetails = none := by
  induction jobs using List.reverseRecOn with
  | nil => exact fun _ hstate => by cases hstate
  | append_singleton jobs job ih =>
    rw [List.foldl_append]
    exact untriggered_populateDetail ih job

theorem triggered_snapshot (scheduler : Scheduler) :
    Triggered scheduler.triggers (scheduler.jobs.foldl populateDetail newStates)
      (getSchedulerStateForAScheduler newStates scheduler) := by
  rw [getSchedulerStateForAScheduler_eq]
  refine triggered_all (untriggered _) ?_
  intro t ht
  obtain ⟨job, hjob, hname, -⟩ := scheduler.fires t ht
  rw [← hname]
  exact (populated_jobs scheduler.jobs).found job hjob

theorem length_snapshot (scheduler : Scheduler) :
    (getSchedulerStateForAScheduler newStates scheduler).states.length =
      (scheduler.jobs.foldl populateDetail newStates).states.length :=
  (triggered_snapshot scheduler).entries.length_eq.symm

theorem names_snapshot (h : numbersDiffer scheduler.jobs) :
    (getSchedulerStateForAScheduler newStates scheduler).states.map
        (fun state => (state.jobName, state.jobGroup)) =
      scheduler.jobs.map fun job => (some job.name, some job.group) := by
  have hentries := (triggered_snapshot scheduler).entries
  rw [(populated_jobs scheduler.jobs).states h] at hentries
  have hmap : List.Forall₂ Eq (scheduler.jobs.map fun job => (some job.name, some job.group))
      ((getSchedulerStateForAScheduler newStates scheduler).states.map
        fun state => (state.jobName, state.jobGroup)) := by
    rw [List.forall₂_map_left_iff] at hentries ⊢
    rw [List.forall₂_map_right_iff]
    refine hentries.imp ?_
    rintro job state ⟨hname, hgroup⟩
    rw [hname, hgroup]
    rfl
  exact (List.forall₂_eq_eq_eq ▸ hmap).symm

theorem jobs_of_snapshot (h : numbersDiffer scheduler.jobs) {state : IAJobState} {i : Nat}
    (hstate : (getSchedulerStateForAScheduler newStates scheduler).states[i]? = some state) :
    ∃ job, scheduler.jobs[i]? = some job ∧ state.jobName = some job.name ∧
      state.jobGroup = some job.group := by
  have hmap := congrArg (·[i]?) (names_snapshot h)
  simp only [List.getElem?_map, hstate, Option.map_some] at hmap
  obtain ⟨job, hjob, heq⟩ := Option.map_eq_some_iff.mp hmap.symm
  simp only [Prod.mk.injEq] at heq
  exact ⟨job, hjob, heq.1.symm, heq.2.symm⟩

/-- Among separate jobs, what the trigger of a job leads to is the entry of that job: an entry found
for its key is the last one of the key, and an earlier job of the key would have no trigger. -/
theorem own_entry (h : Separate scheduler) {t : Trigger} {job : JobDetail} {i k : Nat}
    (hjob : scheduler.jobs[i]? = some job) (ht : scheduler.triggerOf job = some t)
    (hfind : (scheduler.jobs.foldl populateDetail newStates).find (stateKey t.name) = some k) :
    i = k := by
  have hdiffer : numbersDiffer scheduler.jobs := h.apart.imp fun hab hkey => (hab hkey).1
  obtain ⟨⟨last, hlast, hkey⟩, hafter⟩ := (populated_jobs scheduler.jobs).last hdiffer _ _ hfind
  obtain ⟨-, hname, -⟩ := triggerOf_eq_some.mp ht
  rw [hname] at hkey hafter
  rcases lt_trichotomy i k with hik | hik | hik
  · have hapart := List.pairwise_iff_getElem.mp h.apart i k
      (List.getElem?_eq_some_iff.mp hjob).1 (List.getElem?_eq_some_iff.mp hlast).1 hik
    rw [(List.getElem?_eq_some_iff.mp hjob).2, (List.getElem?_eq_some_iff.mp hlast).2] at hapart
    rw [(hapart hkey.symm).2] at ht
    cases ht
  · exact hik
  · exact absurd rfl (hafter i job hik hjob)

theorem shows_of_separate (h : Separate scheduler) :
    Shows scheduler (getSchedulerStateForAScheduler newStates scheduler).states := by
  have hdiffer : numbersDiffer scheduler.jobs := h.apart.imp fun hab hkey => (hab hkey).1
  refine ⟨by rw [names_snapshot hdiffer], ?_⟩
  intro state hstate job hjob hname hgroup
  obtain ⟨i, hi⟩ := List.mem_iff_getElem?.mp hstate
  obtain ⟨a, ha, haname, hagroup⟩ := jobs_of_snapshot hdiffer hi
  have heq : a = job := job_unique (List.mem_of_getElem? ha) hjob
    (Option.some.inj (haname.symm.trans hname)) (Option.some.inj (hagroup.symm.trans hgroup))
  subst heq
  rcases (triggered_snapshot scheduler).trigger i state hi with
    ⟨t, ht, hfind, -, htgroup, htdetails⟩ | ⟨hnone, htgroup, htdetails⟩
  · obtain ⟨b, hb, hbname, hbgroup⟩ := scheduler.fires t ht
    obtain ⟨j, hj⟩ := List.mem_iff_getElem?.mp hb
    have htrigger := triggerOf_eq_some.mpr ⟨ht, hbname.symm, hbgroup.symm⟩
    have hji := own_entry h hj htrigger hfind
    subst hji
    have hba : b = a := Option.some.inj (hj.symm.trans ha)
    subst hba
    rw [htrigger]
    exact ⟨htgroup, htdetails⟩
  · cases htrigger : scheduler.triggerOf a with
    | none => exact ⟨htgroup, htdetails⟩
    | some t =>
      obtain ⟨ht, htname, -⟩ := triggerOf_eq_some.mp htrigger
      obtain ⟨k, hk⟩ := Option.isSome_iff_exists.mp
        ((populated_jobs scheduler.jobs).found a hjob)
      rw [← htname] at hk
      have hik := own_entry h ha htrigger hk
      subst hik
      exact absurd hk (hnone t ht (h.shown t ht))

theorem numbersDiffer_of_shows
    (h : Shows scheduler (getSchedulerStateForAScheduler newStates scheduler).states) :
    numbersDiffer scheduler.jobs := by
  by_contra hnot
  have hlt := (populated_jobs scheduler.jobs).length_lt hnot
  have hlength := h.one_each.length_eq
  rw [List.length_map, List.length_map, length_snapshot] at hlength
  omega

theorem shown_entry
    (h : Shows scheduler (getSchedulerStateForAScheduler newStates scheduler).states)
    {i : Nat} {job : JobDetail} {t : Trigger} (hjob : scheduler.jobs[i]? = some job)
    (ht : scheduler.triggerOf job = some t) :
    t.schedule.shown.isSome ∧ IsLast scheduler.jobs (stateKey job.name) i := by
  have hdiffer := numbersDiffer_of_shows h
  have hi : i < (getSchedulerStateForAScheduler newStates scheduler).states.length := by
    have hlength := h.one_each.length_eq
    rw [List.length_map, List.length_map] at hlength
    rw [hlength]
    exact (List.getElem?_eq_some_iff.mp hjob).1
  have hstate := List.getElem?_eq_getElem hi
  obtain ⟨a, ha, hname, hgroup⟩ := jobs_of_snapshot hdiffer hstate
  have hajob : a = job := Option.some.inj (ha.symm.trans hjob)
  subst hajob
  have hshows := h.trigger _ (List.mem_of_getElem? hstate) a (List.mem_of_getElem? ha) hname hgroup
  rw [ht] at hshows
  rcases (triggered_snapshot scheduler).trigger i _ hstate with
    ⟨t', ht', hfind, hshown, htgroup, htdetails⟩ | ⟨-, hnone, -⟩
  · have hlast := (populated_jobs scheduler.jobs).last hdiffer _ _ hfind
    obtain ⟨⟨b, hb, hkey⟩, -⟩ := id hlast
    have hba : b = a := Option.some.inj (hb.symm.trans ha)
    subst hba
    rw [hkey]
    refine ⟨?_, hlast⟩
    have hdetails := htdetails.symm.trans hshows.2
    rw [Option.isSome_iff_exists] at hshown ⊢
    obtain ⟨shown, hshown⟩ := hshown
    cases htshown : t.schedule.shown with
    | none =>
      rw [hshown] at hdetails
      simp [htshown] at hdetails
    | some shown => exact ⟨shown, rfl⟩
  · rw [hnone] at hshows
    simp at hshows

theorem separate_of_shows
    (h : Shows scheduler (getSchedulerStateForAScheduler newStates scheduler).states) :
    Separate scheduler := by
  constructor
  · rw [List.pairwise_iff_getElem]
    intro i j hi hj hij hkey
    refine ⟨List.pairwise_iff_getElem.mp (numbersDiffer_of_shows h) i j hi hj hij hkey, ?_⟩
    by_contra hsome
    obtain ⟨t, ht⟩ := Option.ne_none_iff_exists'.mp hsome
    obtain ⟨-, hlast⟩ := shown_entry h (List.getElem?_eq_getElem hi) ht
    exact hlast.2 j _ hij (List.getElem?_eq_getElem hj) hkey.symm
  · intro t ht
    obtain ⟨job, hjob, hname, hgroup⟩ := scheduler.fires t ht
    obtain ⟨i, hi⟩ := List.mem_iff_getElem?.mp hjob
    exact (shown_entry h hi (triggerOf_eq_some.mpr ⟨ht, hname.symm, hgroup.symm⟩)).1

theorem snapshot_shows_iff (scheduler : Scheduler) :
    Shows scheduler (getSchedulerStateForAScheduler newStates scheduler).states ↔
      Separate scheduler :=
  ⟨separate_of_shows, shows_of_separate⟩

/-- A cron job whose fire time has passed, with the second job that fires it once. -/
def misfired : Scheduler where
  jobGroups := [("ia", [("UnsubscribeJob", "com.ia.scheduler.jobs.UnsubscriptionUpdater")]),
    ("ia_", [("UnsubscribeJob", "com.ia.scheduler.jobs.UnsubscriptionUpdater")])]
  triggerGroups := [
    ("ia", [("UnsubscribeJob", .CronTrigger (some "2012-12-14 18:58:07")
      (some "2013-01-02 23:00:00") (some "0 00 23 ? * *"))]),
    ("ia_", [("UnsubscribeJob", .SimpleTrigger (some "2013-01-02 13:18:00")
      (some "2013-01-02 13:18:00") 0 0)])]
  jobs_nodup := by decide
  triggers_nodup := by decide
  fires := by decide

theorem misfired_not_shown :
    ¬Shows misfired (getSchedulerStateForAScheduler newStates misfired).states := by
  intro h
  have hapart := List.rel_of_pairwise_cons (separate_of_shows h).apart (List.mem_singleton_self _)
  exact absurd (hapart rfl).2 (by decide)

end Snapshot
end InsightsAssist.JobStates
