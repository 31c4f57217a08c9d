import Mathlib.Data.List.AList
import InsightsAssist.Runs

/-! The table of running processes that the watchdog of the scheduler goes through. A method reads
the clock before it takes the lock on the table, so the readings of successive steps need not
grow. -/
namespace InsightsAssist.KJobScheduler
open Runs
variable {Process : Type*}

/-- startTime=>Process; the order of the keys stands for that of the hash map. -/
abbrev ProcessMap (Process : Type*) := AList fun _ : Int => Process

/-- In milliseconds. The product of the limit and 60 is one of ints. -/
def tolerance (autofetchTimeoutLimit : Int32) : Int :=
  (autofetchTimeoutLimit * 60).toInt * 1000

/-- The keys that the first loop does not skip. -/
def overdue (autofetchTimeoutLimit : Int32) (now : Int) (m : ProcessMap Process) : List Int :=
  m.keys.filter fun startTime => ¬ now - startTime < tolerance autofetchTimeoutLimit

/-- A process whose `destroy` throws is destroyed again. -/
def destroy (throws : Process → Bool) (p : Process) : List Process :=
  if throws p then [p, p] else [p]

/-- The table left and the calls of `destroy` made. -/
def killLongRunningJobs (autofetchTimeoutLimit : Int32) (now : Int) (throws : Process → Bool)
    (m : ProcessMap Process) : ProcessMap Process × List Process :=
  let startTimes := overdue autofetchTimeoutLimit now m
  (startTimes.foldl (fun m startTime => m.erase startTime) m,
    (startTimes.filterMap m.lookup).flatMap (destroy throws))

/-- The locals of `runNativeCommand`: its process and what `processStarted` returned for it. -/
structure Job (Process : Type*) where
  process : Process
  startTime : Int
  deriving DecidableEq, Repr

/-- Beside the table, what happened so far: the jobs whose process was started, the processes
reported ended and those that the watchdog has destroyed. -/
structure State (Process : Type*) where
  processMap : ProcessMap Process
  started : List (Job Process)
  ended : List Process
  destroyed : List Process

def init : State Process := ⟨∅, [], [], []⟩

def State.processStarted (p : Process) (now : Int) (s : State Process) : State Process :=
  { s with processMap := s.processMap.insert now p, started := s.started ++ [⟨p, now⟩] }

def State.processEnded (job : Job Process) (s : State Process) : State Process :=
  { s with processMap := s.processMap.erase job.startTime, ended := s.ended ++ [job.process] }

def State.watchdog (autofetchTimeoutLimit : Int32) (now : Int) (throws : Process → Bool)
    (s : State Process) : State Process :=
  let killed := killLongRunningJobs autofetchTimeoutLimit now throws s.processMap
  { s with processMap := killed.1, destroyed := s.destroyed ++ killed.2 }

inductive Step (Process : Type*) where
  | processStarted (p : Process) (now : Int)
  | processEnded (job : Job Process)
  | watchdog (now : Int) (throws : Process → Bool)

/-- A process is started once, and its job reports its end once, with its own start time. -/
def step [DecidableEq Process] (autofetchTimeoutLimit : Int32) (s : State Process) :
    Step Process → Option (State Process)
  | .processStarted p now =>
    if p ∈ s.started.map Job.process then none else some (s.processStarted p now)
  | .processEnded job =>
    if job ∈ s.started ∧ job.process ∉ s.ended then some (s.processEnded job) else none
  | .watchdog now throws => some (s.watchdog autofetchTimeoutLimit now throws)

/-- The process of the job was started and has neither ended nor been destroyed. -/
structure Live (s : State Process) (job : Job Process) : Prop where
  started : job ∈ s.started
  not_ended : job.process ∉ s.ended
  not_destroyed : job.process ∉ s.destroyed

def AllHeld (s : State Process) : Prop :=
  ∀ job, Live s job → ∃ startTime, s.processMap.lookup startTime = some job.process

def DestroysOverdue (autofetchTimeoutLimit : Int32) (now : Int) (throws : Process → Bool)
    (s : State Process) : Prop :=
  ∀ p, p ∈ (killLongRunningJobs autofetchTimeoutLimit now throws s.processMap).2 ↔
    ∃ job, Live s job ∧ job.process = p ∧ tolerance autofetchTimeoutLimit ≤ now - job.startTime

/-- The step leaves every live process in the table, and a tick destroys the right ones. -/
def Watched [DecidableEq Process] (autofetchTimeoutLimit : Int32) (s : State Process)
    (a : Step Process) : Prop :=
  (∀ s', step autofetchTimeoutLimit s a = some s' → AllHeld s') ∧
    ∀ now throws, a = .watchdog now throws → DestroysOverdue autofetchTimeoutLimit now throws s

/-- The key that the step writes or removes is not the start time of another live process. -/
def OwnKey (s : State Process) : Step Process → Prop
  | .processStarted _ now => ∀ job, Live s job → job.startTime ≠ now
  | .processEnded job =>
    ∀ other, Live s other → other.process ≠ job.process → other.startTime ≠ job.startTime
  | .watchdog _ _ => True

/-- What holds in every state: each entry is that of a live process, under its start time, and no
process was started twice. -/
structure Sound (s : State Process) : Prop where
  live : ∀ startTime p, s.processMap.lookup startTime = some p → Live s ⟨p, startTime⟩
  once : ∀ job ∈ s.started, ∀ job' ∈ s.started, job.process = job'.process → job = job'
  ended : ∀ p ∈ s.ended, p ∈ s.started.map Job.process
  destroyed : ∀ p ∈ s.destroyed, p ∈ s.started.map Job.process

section Table
variable {limit : Int32} {now startTime : Int} {throws : Process → Bool} {m : ProcessMap Process}
  {p : Process}

theorem mem_destroy {q : Process} : p ∈ destroy throws q ↔ p = q := by
  unfold destroy
  split <;> simp

theorem lookup_erase_keys (startTimes : List Int) :
    (startTimes.foldl (fun m t => m.erase t) m).lookup startTime =
      if startTime ∈ startTimes then none else m.lookup startTime := by
  induction startTimes generalizing m with
  | nil => simp
  | cons t startTimes ih =>
    rw [List.foldl_cons, ih]
    by_cases ht : startTime = t
    · subst ht
      simp
    · simp [ht, AList.lookup_erase_ne ht]

theorem mem_overdue : startTime ∈ overdue limit now m ↔
    (∃ p, m.lookup startTime = some p) ∧ tolerance limit ≤ now - startTime := by
  rw [overdue, List.mem_filter, ← AList.mem_keys, ← AList.lookup_isSome, Option.isSome_iff_exists]
  simp

theorem lookup_killLongRunningJobs (throws : Process → Bool) :
    (killLongRunningJobs limit now throws m).1.lookup startTime = some p ↔
      m.lookup startTime = some p ∧ now - startTime < tolerance limit := by
  have hkilled : (killLongRunningJobs limit now throws m).1.lookup startTime =
      if startTime ∈ overdue limit now m then none else m.lookup startTime :=
    lookup_erase_keys _
  rw [hkilled]
  by_cases hold : startTime ∈ overdue limit now m
  · have hage := (mem_overdue.mp hold).2
    simp only [if_pos hold]
    constructor
    · intro h
      cases h
    · intro ⟨_, hyoung⟩
      omega
  · rw [if_neg hold]
    constructor
    · intro hp
      refine ⟨hp, ?_⟩
      by_contra hage
      exact hold (mem_overdue.mpr ⟨⟨p, hp⟩, by omega⟩)
    · intro ⟨hp, _⟩
      exact hp

theorem mem_killed : p ∈ (killLongRunningJobs limit now throws m).2 ↔
    ∃ startTime, m.lookup startTime = some p ∧ tolerance limit ≤ now - startTime := by
  simp only [killLongRunningJobs, List.mem_flatMap, List.mem_filterMap, mem_destroy]
  constructor
  · intro ⟨q, ⟨startTime, hold, hq⟩, hpq⟩
    subst hpq
    exact ⟨startTime, hq, (mem_overdue.mp hold).2⟩
  · intro ⟨startTime, hp, hage⟩
    exact ⟨p, ⟨startTime, mem_overdue.mpr ⟨⟨p, hp⟩, hage⟩, hp⟩, rfl⟩

end Table

section Methods
variable {limit : Int32} {now : Int} {throws : Process → Bool} {s : State Process} {p : Process}
  {job other : Job Process}

theorem Sound.allHeld_iff (h : Sound s) :
    AllHeld s ↔ ∀ job, Live s job → s.processMap.lookup job.startTime = some job.process := by
  constructor
  · intro hheld job hlive
    obtain ⟨startTime, hp⟩ := hheld job hlive
    have hsame := h.once _ (h.live _ _ hp).started _ hlive.started rfl
    rw [← hsame]
    exact hp
  · intro hown job hlive
    exact ⟨job.startTime, hown job hlive⟩

theorem Sound.killed_live (h : Sound s)
    (hp : p ∈ (killLongRunningJobs limit now throws s.processMap).2) :
    ∃ job, Live s job ∧ job.process = p ∧ tolerance limit ≤ now - job.startTime := by
  obtain ⟨startTime, hp, hage⟩ := mem_killed.mp hp
  exact ⟨⟨p, startTime⟩, h.live startTime p hp, rfl, hage⟩

theorem Sound.destroysOverdue (h : Sound s) (hheld : AllHeld s) (now : Int)
    (throws : Process → Bool) : DestroysOverdue limit now throws s := by
  intro p
  constructor
  · exact h.killed_live
  · intro ⟨job, hlive, hjob, hage⟩
    subst hjob
    exact mem_killed.mpr ⟨job.startTime, h.allHeld_iff.mp hheld job hlive, hage⟩

theorem sound_init : Sound (init : State Process) := by
  refine ⟨?_, ?_, ?_, ?_⟩ <;> simp [init]

theorem live_processStarted_iff (h : Sound s) (hfresh : p ∉ s.started.map Job.process) :
    Live (s.processStarted p now) job ↔ job = ⟨p, now⟩ ∨ Live s job := by
  constructor
  · intro hlive
    obtain hold | hnew := List.mem_append.mp hlive.started
    · exact .inr ⟨hold, hlive.not_ended, hlive.not_destroyed⟩
    · exact .inl (List.mem_singleton.mp hnew)
  · intro hjob
    obtain hnew | hold := hjob
    · subst hnew
      refine ⟨List.mem_append_right _ (List.mem_singleton_self _), ?_, ?_⟩
      · exact fun hended => hfresh (h.ended p hended)
      · exact fun hdestroyed => hfresh (h.destroyed p hdestroyed)
    · exact ⟨List.mem_append_left _ hold.started, hold.not_ended, hold.not_destroyed⟩

theorem live_processEnded_iff :
    Live (s.processEnded job) other ↔ Live s other ∧ other.process ≠ job.process := by
  constructor
  · intro hlive
    have hnot : other.process ∉ s.ended ++ [job.process] := hlive.not_ended
    rw [List.mem_append, List.mem_singleton, not_or] at hnot
    exact ⟨⟨hlive.started, hnot.1, hlive.not_destroyed⟩, hnot.2⟩
  · intro ⟨hlive, hne⟩
    refine ⟨hlive.started, ?_, hlive.not_destroyed⟩
    have hnot : other.process ∉ s.ended ++ [job.process] := by
      rw [List.mem_append, List.mem_singleton, not_or]
      exact ⟨hlive.not_ended, hne⟩
    exact hnot

theorem live_watchdog_iff : Live (s.watchdog limit now throws) job ↔
    Live s job ∧ job.process ∉ (killLongRunningJobs limit now throws s.processMap).2 := by
  constructor
  · intro hlive
    have hnot := hlive.not_destroyed
    rw [State.watchdog, List.mem_append, not_or] at hnot
    exact ⟨⟨hlive.started, hlive.not_ended, hnot.1⟩, hnot.2⟩
  · intro ⟨hlive, hkilled⟩
    refine ⟨hlive.started, hlive.not_ended, ?_⟩
    rw [State.watchdog, List.mem_append, not_or]
    exact ⟨hlive.not_destroyed, hkilled⟩

theorem Sound.processStarted (h : Sound s) (hfresh : p ∉ s.started.map Job.process) :
    Sound (s.processStarted p now) := by
  have hmap {q : Process} (hq : q ∈ s.started.map Job.process) :
      q ∈ (s.processStarted p now).started.map Job.process := by
    rw [State.processStarted, List.map_append]
    exact List.mem_append_left _ hq
  refine ⟨?_, ?_, ?_, ?_⟩
  · intro startTime q hq
    rw [live_processStarted_iff h hfresh]
    by_cases hkey : startTime = now
    · subst hkey
      simp only [State.processStarted, AList.lookup_insert, Option.some.injEq] at hq
      subst hq
      exact .inl rfl
    · rw [State.processStarted, AList.lookup_insert_ne hkey] at hq
      exact .inr (h.live startTime q hq)
  · intro job hjob job' hjob' hsame
    have hdiffer : ∀ j ∈ s.started, j.process ≠ p := fun j hj hjp =>
      hfresh (hjp ▸ List.mem_map_of_mem hj)
    simp only [State.processStarted, List.mem_append, List.mem_singleton] at hjob hjob'
    obtain hold | rfl := hjob <;> obtain hold' | rfl := hjob'
    · exact h.once job hold job' hold' hsame
    · exact absurd hsame (hdiffer job hold)
    · exact absurd hsame.symm (hdiffer job' hold')
    · rfl
  · exact fun q hq => hmap (h.ended q hq)
  · exact fun q hq => hmap (h.destroyed q hq)

theorem Sound.processEnded (h : Sound s) (hjob : job ∈ s.started) : Sound (s.processEnded job) := by
  refine ⟨?_, h.once, ?_, h.destroyed⟩
  · intro startTime p hp
    have hkey : startTime ≠ job.startTime := by
      rintro rfl
      simp [State.processEnded] at hp
    rw [State.processEnded, AList.lookup_erase_ne hkey] at hp
    have hlive := h.live startTime p hp
    refine live_processEnded_iff.mpr ⟨hlive, fun hsame => hkey ?_⟩
    exact congrArg Job.startTime (h.once _ hlive.started job hjob hsame)
  · intro p hp
    obtain hold | hnew := List.mem_append.mp hp
    · exact h.ended p hold
    · rw [List.mem_singleton.mp hnew]
      exact List.mem_map_of_mem hjob

theorem Sound.watchdog (h : Sound s) : Sound (s.watchdog limit now throws) := by
  refine ⟨?_, h.once, h.ended, ?_⟩
  · intro startTime p hp
    obtain ⟨hp, hyoung⟩ := (lookup_killLongRunningJobs throws).mp hp
    refine live_watchdog_iff.mpr ⟨h.live startTime p hp, fun hkilled => ?_⟩
    obtain ⟨startTime', hp', hage⟩ := mem_killed.mp hkilled
    have hsame := h.once _ (h.live _ _ hp).started _ (h.live _ _ hp').started rfl
    have htime : startTime = startTime' := congrArg Job.startTime hsame
    omega
  · intro p hp
    obtain hold | hnew := List.mem_append.mp hp
    · exact h.destroyed p hold
    · obtain ⟨startTime, hp, _⟩ := mem_killed.mp hnew
      exact List.mem_map_of_mem (h.live startTime p hp).started

theorem allHeld_processStarted_iff (h : Sound s) (hheld : AllHeld s)
    (hfresh : p ∉ s.started.map Job.process) :
    AllHeld (s.processStarted p now) ↔ ∀ job, Live s job → job.startTime ≠ now := by
  rw [(h.processStarted hfresh).allHeld_iff]
  constructor
  · intro hown job hlive htime
    have hp := hown job ((live_processStarted_iff h hfresh).mpr (.inr hlive))
    rw [State.processStarted, htime, AList.lookup_insert, Option.some.injEq] at hp
    exact hfresh (hp ▸ List.mem_map_of_mem hlive.started)
  · intro hkey job hlive
    obtain hnew | hold := (live_processStarted_iff h hfresh).mp hlive
    · subst hnew
      exact AList.lookup_insert _
    · rw [State.processStarted, AList.lookup_insert_ne (hkey job hold)]
      exact h.allHeld_iff.mp hheld job hold

theorem allHeld_processEnded_iff (h : Sound s) (hheld : AllHeld s) (hjob : job ∈ s.started) :
    AllHeld (s.processEnded job) ↔ ∀ other, Live s other → other.process ≠ job.process →
      other.startTime ≠ job.startTime := by
  rw [(h.processEnded hjob).allHeld_iff]
  constructor
  · intro hown other hlive hne htime
    have hp := hown other (live_processEnded_iff.mpr ⟨hlive, hne⟩)
    rw [State.processEnded, htime, AList.lookup_erase] at hp
    cases hp
  · intro hkey other hlive
    obtain ⟨hlive, hne⟩ := live_processEnded_iff.mp hlive
    rw [State.processEnded, AList.lookup_erase_ne (hkey other hlive hne)]
    exact h.allHeld_iff.mp hheld other hlive

theorem allHeld_watchdog (h : Sound s) (hheld : AllHeld s) :
    AllHeld (s.watchdog limit now throws) := by
  intro job hlive
  obtain ⟨hlive, hspared⟩ := live_watchdog_iff.mp hlive
  have hp := h.allHeld_iff.mp hheld job hlive
  have hyoung : now - job.startTime < tolerance limit := by
    by_contra hage
    exact hspared (mem_killed.mpr ⟨job.startTime, hp, by omega⟩)
  exact ⟨job.startTime, (lookup_killLongRunningJobs throws).mpr ⟨hp, hyoung⟩⟩

end Methods

section Runs
variable [DecidableEq Process] {limit : Int32} {s₀ s s' : State Process} {a : Step Process}
  {h : List (Step Process)}

theorem Sound.step (hsound : Sound s) (hs : step limit s a = some s') : Sound s' := by
  cases a with
  | processStarted p now =>
    obtain ⟨hfresh, hs⟩ := Option.ite_none_left_eq_some.mp hs
    cases hs
    exact hsound.processStarted hfresh
  | processEnded job =>
    obtain ⟨⟨hjob, _⟩, hs⟩ := Option.ite_none_right_eq_some.mp hs
    cases hs
    exact hsound.processEnded hjob
  | watchdog now throws =>
    cases hs
    exact hsound.watchdog

/-- In every run the watchdog holds only live processes, so it destroys none that has ended. -/
theorem sound_of_run {cond : List (Step Process) → State Process → Step Process → Prop}
    (hr : Run (step limit) cond init h s) : Sound s := by
  refine Run.invariant (fun _ s => Sound s) sound_init ?_ hr
  intro _ s a s' _ hsound _ hs
  exact hsound.step hs

theorem allHeld_step_iff (hsound : Sound s) (hheld : AllHeld s) (hs : step limit s a = some s') :
    AllHeld s' ↔ OwnKey s a := by
  cases a with
  | processStarted p now =>
    obtain ⟨hfresh, hs⟩ := Option.ite_none_left_eq_some.mp hs
    cases hs
    exact allHeld_processStarted_iff hsound hheld hfresh
  | processEnded job =>
    obtain ⟨⟨hjob, _⟩, hs⟩ := Option.ite_none_right_eq_some.mp hs
    cases hs
    exact allHeld_processEnded_iff hsound hheld hjob
  | watchdog now throws =>
    cases hs
    exact iff_of_true (allHeld_watchdog hsound hheld) trivial

theorem watched_iff (hsound : Sound s) (hheld : AllHeld s) (hs : step limit s a = some s') :
    Watched limit s a ↔ OwnKey s a := by
  rw [← allHeld_step_iff hsound hheld hs]
  constructor
  · intro hwatched
    exact hwatched.1 s' hs
  · intro hheld'
    refine ⟨fun t ht => ?_, fun now throws _ => hsound.destroysOverdue hheld now throws⟩
    rw [hs] at ht
    cases ht
    exact hheld'

/-- Every step of a run leaves the live processes in the table, and every tick destroys exactly
those of at least the tolerated age, just when no start reads the start time of a live process and
no end reports that of another live one. -/
theorem live_processes_held_iff :
    Run (step limit) (fun _ s a => Watched limit s a) (init : State Process) h s ↔
      Run (step limit) (fun _ s a => OwnKey s a) init h s := by
  have hinit : Sound (init : State Process) ∧ AllHeld (init : State Process) := by
    refine ⟨sound_init, fun job hlive => ?_⟩
    cases hlive.started
  constructor
  · apply Run.weaken_of_invariant (fun _ s => Sound s ∧ AllHeld s) hinit
    · intro _ s a s' _ ⟨hsound, _⟩ hwatched hs
      exact ⟨hsound.step hs, hwatched.1 s' hs⟩
    · intro _ s a s' ⟨hsound, hheld⟩ hs hwatched
      exact (watched_iff hsound hheld hs).mp hwatched
  · apply Run.weaken_of_invariant (fun _ s => Sound s ∧ AllHeld s) hinit
    · intro _ s a s' _ ⟨hsound, hheld⟩ hkey hs
      exact ⟨hsound.step hs, (allHeld_step_iff hsound hheld hs).mpr hkey⟩
    · intro _ s a s' ⟨hsound, hheld⟩ hs hkey
      exact (watched_iff hsound hheld hs).mpr hkey

end Runs

def Step.now : Step Process → Option Int
  | .processStarted _ now => some now
  | .processEnded _ => none
  | .watchdog now _ => some now

def twoStarts : List (Step Nat) := [.processStarted 1 1000, .processStarted 2 1000]

/-- Of two processes started in the same millisecond the first is lost, and a tick a minute later
spares it. -/
theorem first_process_lost :
    ((twoStarts ++ [Step.watchdog 61000 fun _ => false]).filterMap Step.now).Pairwise (· ≤ ·) ∧
    ∃ s, Run (step 1) AnyStep init twoStarts s ∧ Live s ⟨1, 1000⟩ ∧ ¬ AllHeld s ∧
      ¬ DestroysOverdue 1 61000 (fun _ => false) s := by
  have hr : Run (step 1) AnyStep init twoStarts
      ((init.processStarted 1 1000).processStarted 2 1000) :=
    run_anyStep_iff.mpr rfl
  have hlive : Live ((init.processStarted 1 1000).processStarted 2 1000) ⟨1, 1000⟩ :=
    ⟨by decide, by decide, by decide⟩
  refine ⟨by decide, _, hr, hlive, ?_, ?_⟩
  · intro hheld
    have hp := (sound_of_run hr).allHeld_iff.mp hheld _ hlive
    revert hp
    decide
  · intro hexact
    have hkilled := (hexact 1).mpr ⟨_, hlive, rfl, by decide⟩
    revert hkilled
    decide

end InsightsAssist.KJobScheduler
