import InsightsAssist.JobStates

/-! The snapshot of both schedulers, `getSchedulerState`: the jobs of the second are read into the
entries and the maps that the first has left. -/
namespace InsightsAssist.JobStates
variable {s s₁ r : IAJobStates} {job : JobDetail} {t : Trigger} {i : Nat}
  {sched cronSched : Scheduler}

/-- `collectStats`, which follows, counts job states, and neither jobs nor triggers fill one in. -/
def getSchedulerState (sched cronSched : Scheduler) : IAJobStates :=
  getSchedulerStateForAScheduler (getSchedulerStateForAScheduler newStates sched) cronSched

/-- The entries of the first scheduler's jobs, and after them those of the second's. -/
def ShowsBoth (sched cronSched : Scheduler) (states : List IAJobState) : Prop :=
  ∃ first second, states = first ++ second ∧ Shows sched first ∧ Shows cronSched second

def NumbersApart (sched cronSched : Scheduler) : Prop :=
  ∀ a ∈ sched.jobs, ∀ b ∈ cronSched.jobs, stateKey a.name = stateKey b.name →
    parseJobUID b.name = none

theorem find_update (f : IAJobState → IAJobState) : (s.update i f).find = s.find := by
  funext key
  cases key <;> rfl

theorem populateDetail_of_found (h : s.find (stateKey job.name) = some i)
    (hUID : (parseJobUID job.name).isSome) :
    populateDetail s job = s.update i fun state => { state with
      jobName := some job.name
      jobGroup := some job.group
      jobHandler := some (simpleName job.jobClass) } := by
  obtain ⟨jobUID, hUID⟩ := Option.isSome_iff_exists.mp hUID
  rw [stateKey_of_some hUID] at h
  have h : s.jobUIDtoStateMap jobUID = some i := h
  simp only [populateDetail, IAJobStates.populateJobDetail, hUID, h]

/-- How the maps and entries are that have those of `r` behind those of `s₁`. -/
structure Behind (s₁ r s : IAJobStates) : Prop where
  states : s.states = s₁.states ++ r.states
  find : ∀ key, s.find key = ((r.find key).map (s₁.states.length + ·)).or (s₁.find key)

theorem behind_newStates (s₁ : IAJobStates) : Behind s₁ newStates s₁ where
  states := (List.append_nil _).symm
  find := by rintro (_ | _) <;> rfl

theorem Behind.find_of_some (h : Behind s₁ r s) {key : Int ⊕ String} (hr : r.find key = some i) :
    s.find key = some (s₁.states.length + i) := by
  rw [h.find, hr]
  rfl

theorem modify_append {α : Type*} (l l' : List α) (i : Nat) (f : α → α) :
    (l ++ l').modify (l.length + i) f = l ++ l'.modify i f := by
  induction l with
  | nil => simp
  | cons a l ih => simp [Nat.succ_add, ih]

theorem Behind.update (h : Behind s₁ r s) (i : Nat) (f : IAJobState → IAJobState) :
    Behind s₁ (r.update i f) (s.update (s₁.states.length + i) f) where
  states := by
    simp only [IAJobStates.update, h.states]
    exact modify_append ..
  find key := by
    rw [find_update, find_update]
    exact h.find key

theorem Behind.added (h : Behind s₁ r s)
    (hs : s.find (stateKey job.name) = none ∨ parseJobUID job.name = none)
    (hr : r.find (stateKey job.name) = none ∨ parseJobUID job.name = none) :
    Behind s₁ (populateDetail r job) (populateDetail s job) := by
  obtain ⟨hsfind, hsstates⟩ := populateDetail_added hs
  obtain ⟨hrfind, hrstates⟩ := populateDetail_added hr
  refine ⟨by rw [hsstates, hrstates, h.states, List.append_assoc], fun key => ?_⟩
  rw [hsfind, hrfind, Function.update_apply, Function.update_apply]
  split
  · rw [h.states, List.length_append]
    rfl
  · exact h.find key

theorem Behind.populateDetail (h : Behind s₁ r s)
    (hapart : (parseJobUID job.name).isSome → s₁.find (stateKey job.name) = none) :
    Behind s₁ (populateDetail r job) (populateDetail s job) := by
  by_cases hUID : (parseJobUID job.name).isSome
  · cases hr : r.find (stateKey job.name) with
    | some i =>
      rw [populateDetail_of_found hr hUID, populateDetail_of_found (h.find_of_some hr) hUID]
      exact h.update i _
    | none =>
      refine h.added (.inl ?_) (.inl hr)
      rw [h.find, hr, hapart hUID]
      rfl
  · have hnone : parseJobUID job.name = none := by simpa using hUID
    exact h.added (.inr hnone) (.inr hnone)

theorem Behind.populateTrigger (h : Behind s₁ r s) (hfind : (r.find (stateKey t.name)).isSome) :
    Behind s₁ (populateTrigger r t) (populateTrigger s t) := by
  obtain ⟨i, hi⟩ := Option.isSome_iff_exists.mp hfind
  cases hshown : t.schedule.shown with
  | none =>
    simp only [JobStates.populateTrigger, hshown]
    exact h
  | some shown =>
    rw [populateTrigger_found hshown hi, populateTrigger_found hshown (h.find_of_some hi)]
    exact h.update i _

theorem populateTrigger_kept (hfind : (s.find (stateKey t.name)).isSome) :
    (populateTrigger s t).find = s.find ∧
      (populateTrigger s t).states.length = s.states.length := by
  obtain ⟨i, hi⟩ := Option.isSome_iff_exists.mp hfind
  cases hshown : t.schedule.shown with
  | none => simp [populateTrigger, hshown]
  | some shown =>
    rw [populateTrigger_found hshown hi, find_update]
    exact ⟨rfl, List.length_modify ..⟩

theorem populateTriggers_kept {ts : List Trigger}
    (hfind : ∀ t ∈ ts, (s.find (stateKey t.name)).isSome) :
    (ts.foldl populateTrigger s).find = s.find ∧
      (ts.foldl populateTrigger s).states.length = s.states.length := by
  induction ts generalizing s with
  | nil => exact ⟨rfl, rfl⟩
  | cons t ts ih =>
    obtain ⟨hkept, hlength⟩ := populateTrigger_kept (hfind t (by simp))
    have hrest : ∀ t' ∈ ts, ((populateTrigger s t).find (stateKey t'.name)).isSome := by
      intro t' ht'
      rw [hkept]
      exact hfind t' (List.mem_cons_of_mem _ ht')
    obtain ⟨hkept', hlength'⟩ := ih hrest
    exact ⟨hkept'.trans hkept, hlength'.trans hlength⟩

theorem Behind.populateTriggers {ts : List Trigger} (h : Behind s₁ r s)
    (hfind : ∀ t ∈ ts, (r.find (stateKey t.name)).isSome) :
    Behind s₁ (ts.foldl JobStates.populateTrigger r) (ts.foldl JobStates.populateTrigger s) := by
  induction ts generalizing r s with
  | nil => exact h
  | cons t ts ih =>
    refine ih (h.populateTrigger (hfind t (by simp))) ?_
    intro t' ht'
    rw [(populateTrigger_kept (hfind t (by simp))).1]
    exact hfind t' (List.mem_cons_of_mem _ ht')

theorem Behind.populateDetails {jobs : List JobDetail} (h : Behind s₁ r s)
    (hapart : ∀ job ∈ jobs, (parseJobUID job.name).isSome → s₁.find (stateKey job.name) = none) :
    Behind s₁ (jobs.foldl JobStates.populateDetail r) (jobs.foldl JobStates.populateDetail s) := by
  induction jobs generalizing r s with
  | nil => exact h
  | cons job jobs ih =>
    refine ih (h.populateDetail (hapart job (by simp))) ?_
    exact fun job' hjob' => hapart job' (List.mem_cons_of_mem _ hjob')

theorem populateDetail_bounds (s : IAJobStates) (job : JobDetail) :
    (∀ key, (s.find key).isSome ∨ key = stateKey job.name →
      ((populateDetail s job).find key).isSome) ∧
    (populateDetail s job).states.length ≤ s.states.length + 1 ∧
    ((parseJobUID job.name).isSome → (s.find (stateKey job.name)).isSome →
      (populateDetail s job).states.length = s.states.length) := by
  by_cases hnew : s.find (stateKey job.name) = none ∨ parseJobUID job.name = none
  · obtain ⟨hfind, hstates⟩ := populateDetail_added hnew
    refine ⟨fun key hkey => ?_, by simp [hstates], fun hUID hfound => ?_⟩
    · rw [hfind, Function.update_apply]
      split
      · rfl
      · rename_i hne
        exact hkey.resolve_right hne
    · rcases hnew with hnew | hnew
      · rw [hnew] at hfound
        cases hfound
      · rw [hnew] at hUID
        cases hUID
  · rw [not_or] at hnew
    obtain ⟨i, hi⟩ := Option.ne_none_iff_exists'.mp hnew.1
    obtain ⟨hfind, hlength⟩ := populateDetail_found hi (Option.isSome_iff_ne_none.mpr hnew.2)
    refine ⟨fun key hkey => ?_, by omega, fun _ _ => hlength⟩
    rw [hfind]
    rcases hkey with hkey | rfl
    · exact hkey
    · rw [hi]
      rfl

theorem populateDetails_bounds (s : IAJobStates) (jobs : List JobDetail) :
    (∀ key, (s.find key).isSome ∨ (∃ job ∈ jobs, key = stateKey job.name) →
      ((jobs.foldl populateDetail s).find key).isSome) ∧
    (jobs.foldl populateDetail s).states.length ≤ s.states.length + jobs.length ∧
    ((∃ job ∈ jobs, (parseJobUID job.name).isSome ∧ (s.find (stateKey job.name)).isSome) →
      (jobs.foldl populateDetail s).states.length < s.states.length + jobs.length) := by
  induction jobs generalizing s with
  | nil => simp
  | cons job jobs ih =>
    obtain ⟨hkeys, hle, hsame⟩ := populateDetail_bounds s job
    obtain ⟨ihkeys, ihle, ihlt⟩ := ih (populateDetail s job)
    rw [List.foldl_cons, List.length_cons]
    refine ⟨?_, by omega, ?_⟩
    · rintro key (hkey | ⟨a, ha, hkey⟩)
      · exact ihkeys key (.inl (hkeys key (.inl hkey)))
      · rcases List.mem_cons.mp ha with rfl | ha
        · exact ihkeys key (.inl (hkeys key (.inr hkey)))
        · exact ihkeys key (.inr ⟨a, ha, hkey⟩)
    · rintro ⟨a, ha, hUID, hfound⟩
      rcases List.mem_cons.mp ha with rfl | ha
      · have := hsame hUID hfound
        omega
      · have := ihlt ⟨a, ha, hUID, hkeys _ (.inl hfound)⟩
        omega

theorem find_snapshot (sched : Scheduler) {key : Int ⊕ String} :
    ((getSchedulerStateForAScheduler newStates sched).find key).isSome ↔
      ∃ job ∈ sched.jobs, stateKey job.name = key := by
  rw [(triggered_snapshot sched).find]
  constructor
  · intro h
    obtain ⟨i, hi⟩ := Option.isSome_iff_exists.mp h
    exact (populated_jobs sched.jobs).known key i hi
  · rintro ⟨job, hjob, rfl⟩
    exact (populated_jobs sched.jobs).found job hjob

theorem length_snapshot_le (sched : Scheduler) :
    (getSchedulerStateForAScheduler newStates sched).states.length ≤ sched.jobs.length := by
  rw [length_snapshot]
  exact (populated_jobs sched.jobs).length_le

theorem states_of_apart (h : NumbersApart sched cronSched) :
    (getSchedulerState sched cronSched).states =
      (getSchedulerStateForAScheduler newStates sched).states ++
        (getSchedulerStateForAScheduler newStates cronSched).states := by
  rw [getSchedulerState, getSchedulerStateForAScheduler_eq _ cronSched,
    getSchedulerStateForAScheduler_eq newStates cronSched]
  refine Behind.states (.populateTriggers (.populateDetails (behind_newStates _) ?_) ?_)
  · intro b hb hUID
    by_contra hfound
    obtain ⟨a, ha, hkey⟩ := (find_snapshot sched).mp (Option.isSome_iff_ne_none.mpr hfound)
    rw [h a ha b hb hkey] at hUID
    cases hUID
  · intro t ht
    obtain ⟨job, hjob, hname, -⟩ := cronSched.fires t ht
    rw [← hname]
    exact (populated_jobs cronSched.jobs).found job hjob

theorem length_of_not_apart (h : ¬NumbersApart sched cronSched) :
    (getSchedulerState sched cronSched).states.length <
      sched.jobs.length + cronSched.jobs.length := by
  simp only [NumbersApart, not_forall] at h
  obtain ⟨a, ha, b, hb, hkey, hUID⟩ := h
  have hfound := (find_snapshot sched).mpr ⟨a, ha, hkey⟩
  obtain ⟨hkeys, -, hlt⟩ :=
    populateDetails_bounds (getSchedulerStateForAScheduler newStates sched) cronSched.jobs
  have hless := hlt ⟨b, hb, Option.isSome_iff_ne_none.mpr hUID, hfound⟩
  have hle := length_snapshot_le sched
  rw [getSchedulerState, getSchedulerStateForAScheduler_eq _ cronSched,
    (populateTriggers_kept ?_).2]
  · omega
  · intro t ht
    obtain ⟨job, hjob, hname, -⟩ := cronSched.fires t ht
    exact hkeys _ (.inr ⟨job, hjob, by rw [hname]⟩)

/-- Both are shown exactly if each is on its own and no number is one of both. Names that are no
numbers may be the same in both. -/
theorem showsBoth_iff (sched cronSched : Scheduler) :
    ShowsBoth sched cronSched (getSchedulerState sched cronSched).states ↔
      Separate sched ∧ Separate cronSched ∧ NumbersApart sched cronSched := by
  constructor
  · rintro ⟨first, second, hstates, hfirst, hsecond⟩
    have hlength₁ := hfirst.one_each.length_eq
    have hlength₂ := hsecond.one_each.length_eq
    rw [List.length_map, List.length_map] at hlength₁ hlength₂
    have hapart : NumbersApart sched cronSched := by
      by_contra hnot
      have hlt := length_of_not_apart hnot
      rw [hstates, List.length_append] at hlt
      omega
    have hle₁ := length_snapshot_le sched
    have hle₂ := length_snapshot_le cronSched
    have hsum := congrArg List.length (hstates.symm.trans (states_of_apart hapart))
    rw [List.length_append, List.length_append] at hsum
    obtain ⟨rfl, rfl⟩ := List.append_inj (hstates.symm.trans (states_of_apart hapart)) (by omega)
    exact ⟨separate_of_shows hfirst, separate_of_shows hsecond, hapart⟩
  · rintro ⟨hfirst, hsecond, hapart⟩
    exact ⟨_, _, states_of_apart hapart, shows_of_separate hfirst, shows_of_separate hsecond⟩

end InsightsAssist.JobStates
