import InsightsAssist.KLogger

/-! Which file a message is written to, and how often a day reopens it. -/
namespace InsightsAssist.KLogger
open Runs

/-- A log that is started once, before its messages, and not shut down. -/
def OneStart (h : List Call) : Call → Prop
  | .start _ _ _ _ => h = []
  | .log _ _ _ _ | .flushLog => h ≠ []
  | .shutdown _ => False

def messageDay (cfg : Config) : Call → Option Nat
  | .start _ _ _ env | .shutdown env => some (dayOf env.now)
  | .log tag _ _ env =>
    if tag = .DEBUG ∧ cfg.servletDebug = false then none else some (dayOf env.now)
  | .flushLog => none

/-- The messages with the stream that each is or will be printed to. -/
def State.placed (s : State) : List (Output × Message) := s.printed ++ s.messages.map (s.out, ·)

/-- Each message goes to the file of its day, or to stderr where that cannot be opened. -/
def InOwnFile (cfg : Config) (s : State) : Prop :=
  ∀ p ∈ s.placed, p.1 = .stderr ∨
    p.1 = .file (logFileName cfg.logFileProp (PERFIOS_DATE_FORMAT p.2.now))

/-- After the call the messages are in the files of their days, no day has reopened the log twice,
and `prevDays` is the day of the message. -/
def Daily (cfg : Config) (s : State) (a : Call) : Prop :=
  InOwnFile cfg (call cfg s a) ∧ (call cfg s a).reopened.Nodup ∧
    ∀ days, messageDay cfg a = some days → (call cfg s a).prevDays = days

/-- A start whose readings fall on one day; a message of the day that the log was started on. -/
def SameDay (cfg : Config) (s : State) (a : Call) : Prop :=
  match a with
  | .start date now opened env => dayOf env.now = dayOf now ∧
      (opened = true → PERFIOS_DATE_FORMAT date = PERFIOS_DATE_FORMAT env.now)
  | a => ∀ days, messageDay cfg a = some days → days = s.prevDays

/-- The state of a log that has not changed its file since its start. -/
structure OneFile (cfg : Config) (s : State) : Prop where
  reopened : s.reopened = []
  placed : ∀ p ∈ s.placed, p.1 = s.out ∧ dayOf p.2.now = s.prevDays
  out : s.out = .stderr ∨ ∃ now, dayOf now = s.prevDays ∧
    s.out = .file (logFileName cfg.logFileProp (PERFIOS_DATE_FORMAT now))

variable {cfg : Config} {h : List Call} {s s' : State} {a : Call} {env : Env} {tag : Tag}
  {message : String} {e : Option Trace}

theorem PERFIOS_DATE_FORMAT_congr {now now' : Nat} (h : dayOf now = dayOf now') :
    PERFIOS_DATE_FORMAT now = PERFIOS_DATE_FORMAT now' := congrArg dateText h

theorem OneFile.inOwnFile (hone : OneFile cfg s) : InOwnFile cfg s := by
  intro p hp
  obtain ⟨hout, hday⟩ := hone.placed p hp
  obtain hstderr | ⟨now, hnow, hfile⟩ := hone.out
  · exact .inl (hout.trans hstderr)
  · rw [PERFIOS_DATE_FORMAT_congr (hnow.trans hday.symm), ← hout] at hfile
    exact .inr hfile

/-- A message never sets `prevDays`, also where it opens the file of a new day. -/
theorem prevDays_handleMessage :
    (s.handleMessage cfg env tag message e).prevDays = s.prevDays := by
  rw [handleMessage_eq]
  split
  · exact (s.changeDay_frame cfg env).2.1
  · rfl

theorem placed_flushLog : s.flushLog.placed = s.placed := by
  rw [State.flushLog]
  split
  · rfl
  · exact List.append_nil _

theorem placed_append : (s.append env tag message e).placed =
    s.placed ++ [(s.out, s.record env tag message e)] := by
  simp [State.placed, State.append]

theorem flushLog_frame (s : State) :
    s.flushLog.reopened = s.reopened ∧ s.flushLog.out = s.out ∧
      s.flushLog.prevDays = s.prevDays := by
  rw [State.flushLog]
  split
  · exact ⟨rfl, rfl, rfl⟩
  · exact ⟨rfl, rfl, rfl⟩

theorem OneFile.flushLog (hone : OneFile cfg s) : OneFile cfg s.flushLog := by
  obtain ⟨hreopened, hout, hprev⟩ := flushLog_frame s
  constructor
  · rw [hreopened]
    exact hone.reopened
  · rw [placed_flushLog, hout, hprev]
    exact hone.placed
  · rw [hout, hprev]
    exact hone.out

theorem OneFile.append (hone : OneFile cfg s) (hday : dayOf env.now = s.prevDays) :
    OneFile cfg (s.append env tag message e) := by
  refine ⟨hone.reopened, ?_, hone.out⟩
  intro p hp
  rw [placed_append, List.mem_append, List.mem_singleton] at hp
  obtain hold | hnew := hp
  · exact hone.placed p hold
  · subst hnew
    exact ⟨rfl, hday⟩

theorem OneFile.handleMessage (hone : OneFile cfg s) (hday : dayOf env.now = s.prevDays) :
    OneFile cfg (s.handleMessage cfg env tag message e) := by
  have hrotates : ¬ Rotates env s := by
    rw [Rotates, hday]
    exact Nat.lt_irrefl _
  rw [handleMessage_of_not hrotates]
  exact hone.append hday

theorem OneFile.daily_of (hone : OneFile cfg (call cfg s a))
    (hday : ∀ days, messageDay cfg a = some days → (call cfg s a).prevDays = days) :
    Daily cfg s a := by
  refine ⟨hone.inOwnFile, ?_, hday⟩
  rw [hone.reopened]
  exact List.nodup_nil

theorem prevDays_call (cfg : Config) (s : State) (ha : OneStart h a) (hne : h ≠ []) :
    (call cfg s a).prevDays = s.prevDays := by
  cases a with
  | start date now opened env => exact absurd ha hne
  | shutdown env => cases ha
  | flushLog => exact (flushLog_frame s).2.2
  | log tag message e env =>
    rw [call]
    split
    · rfl
    · exact prevDays_handleMessage

theorem OneFile.call_of (hone : OneFile cfg s) (ha : OneStart h a) (hne : h ≠ [])
    (hsame : SameDay cfg s a) : OneFile cfg (call cfg s a) := by
  cases a with
  | start date now opened env => exact absurd ha hne
  | shutdown env => cases ha
  | flushLog => exact hone.flushLog
  | log tag message e env =>
    rw [call]
    split
    case isTrue => exact hone
    case isFalse hdebug => exact hone.handleMessage (hsame _ (if_neg hdebug))

theorem later_iff (hone : OneFile cfg s) (ha : OneStart h a) (hne : h ≠ []) :
    Daily cfg s a ↔ SameDay cfg s a := by
  have hprev := prevDays_call cfg s ha hne
  constructor
  · intro hdaily
    cases a with
    | start date now opened env => exact absurd ha hne
    | log tag message e env | flushLog | shutdown env =>
      intro days hdays
      rw [← hprev]
      exact (hdaily.2.2 days hdays).symm
  · intro hsame
    refine (hone.call_of ha hne hsame).daily_of fun days hdays => ?_
    rw [hprev]
    cases a with
    | start date now opened env => exact absurd ha hne
    | log tag message e env | flushLog | shutdown env => exact (hsame days hdays).symm

section Start
variable {date now : Nat} {opened : Bool}

/-- The log as `start` opens it, before its message. -/
def openedLog (cfg : Config) (date now : Nat) (opened : Bool) : State :=
  { init.openLog cfg date now opened with logFlusher := true }

theorem openedLog_prevDays : (openedLog cfg date now opened).prevDays = dayOf now := by
  change (init.openLog cfg date now opened).prevDays = dayOf now
  rw [State.prevDays_openLog]
  exact if_pos rfl

theorem openedLog_frame (cfg : Config) (date now : Nat) (opened : Bool) :
    (openedLog cfg date now opened).placed = [] ∧
      (openedLog cfg date now opened).reopened = [] := by
  obtain ⟨hmessages, -, hprinted, -, hreopened⟩ := init.openLog_frame cfg date now opened
  refine ⟨?_, hreopened⟩
  change (init.openLog cfg date now opened).printed ++
    (init.openLog cfg date now opened).messages.map _ = []
  rw [hprinted, hmessages]
  rfl

theorem openedLog_out : (openedLog cfg date now opened).out =
    if opened then .file (logFileName cfg.logFileProp (PERFIOS_DATE_FORMAT date)) else .stderr := by
  have hnone : init.logFileDate = none := rfl
  change (init.openLog cfg date now opened).out = _
  rw [State.out_openLog, hnone, Option.getD_none]

theorem oneFile_openedLog (hsame : SameDay cfg init (.start date now opened env)) :
    OneFile cfg (openedLog cfg date now opened) := by
  obtain ⟨hday, htext⟩ := hsame
  obtain ⟨hplaced, hreopened⟩ := openedLog_frame cfg date now opened
  refine ⟨hreopened, fun p hp => absurd (hplaced ▸ hp) List.not_mem_nil, ?_⟩
  rw [openedLog_prevDays, openedLog_out]
  cases opened with
  | false => exact .inl rfl
  | true =>
    refine .inr ⟨env.now, hday, ?_⟩
    rw [← htext rfl, if_pos rfl]

theorem call_start : call cfg init (.start date now opened env) =
    (openedLog cfg date now opened).handleMessage cfg env .INFO
      "------- Starting Logging ----------------------" none := rfl

theorem oneFile_start (hsame : SameDay cfg init (.start date now opened env)) :
    OneFile cfg (call cfg init (.start date now opened env)) := by
  rw [call_start]
  apply (oneFile_openedLog hsame).handleMessage
  rw [openedLog_prevDays]
  exact hsame.1

theorem start_iff : Daily cfg init (.start date now opened env) ↔
    SameDay cfg init (.start date now opened env) := by
  have hprev : (call cfg init (.start date now opened env)).prevDays = dayOf now := by
    rw [call_start, prevDays_handleMessage, openedLog_prevDays]
  constructor
  · intro ⟨hfile, _, hdays⟩
    have hday : dayOf env.now = dayOf now := (hdays _ rfl).symm.trans hprev
    refine ⟨hday, fun hopened => ?_⟩
    subst hopened
    have hrotates : ¬ Rotates env (openedLog cfg date now true) := by
      rw [Rotates, openedLog_prevDays, hday]
      exact Nat.lt_irrefl _
    rw [InOwnFile, call_start, handleMessage_of_not hrotates] at hfile
    rw [placed_append] at hfile
    have hown := hfile _ (List.mem_append_right _ (List.mem_singleton_self _))
    rw [openedLog_out, if_pos rfl] at hown
    obtain hstderr | hown := hown
    · cases hstderr
    · exact logFileName_inj (Output.file.inj hown)
  · intro hsame
    refine (oneFile_start hsame).daily_of fun days hdays => ?_
    cases hdays
    exact hprev.trans hsame.1.symm

end Start

/-- What is known of a log after a history: it is fresh, or it has kept its file. -/
def Opened (cfg : Config) (h : List Call) (s : State) : Prop :=
  if h = [] then s = init else OneFile cfg s

theorem Opened.step_iff (hopened : Opened cfg h s) (ha : OneStart h a) :
    (Daily cfg s a ↔ SameDay cfg s a) ∧
      (SameDay cfg s a → Opened cfg (h ++ [a]) (call cfg s a)) := by
  have hnext : Opened cfg (h ++ [a]) (call cfg s a) ↔ OneFile cfg (call cfg s a) := by
    rw [Opened, if_neg (by simp)]
  rw [hnext]
  by_cases hnil : h = []
  · rw [Opened, if_pos hnil] at hopened
    subst hopened
    cases a with
    | start date now opened env => exact ⟨start_iff, oneFile_start⟩
    | log tag message e env | flushLog => exact absurd hnil ha
    | shutdown env => cases ha
  · rw [Opened, if_neg hnil] at hopened
    exact ⟨later_iff hopened ha hnil, hopened.call_of ha hnil⟩

/-- In every run of a log that is started once each message is in the file of its day, each day
reopens the log at most once and `prevDays` follows the messages, just when the readings of the
start and all messages fall on one day. -/
theorem daily_iff : Run (total (call cfg)) (fun h s a => OneStart h a ∧ Daily cfg s a) init h s ↔
    Run (total (call cfg)) (fun h s a => OneStart h a ∧ SameDay cfg s a) init h s := by
  constructor
  · apply Run.weaken_of_invariant (Opened cfg) rfl
    · intro h s a s' _ hopened ⟨hstart, hdaily⟩ hs
      cases hs
      have hiff := hopened.step_iff hstart
      exact hiff.2 (hiff.1.mp hdaily)
    · intro h s a s' hopened _ ⟨hstart, hdaily⟩
      exact ⟨hstart, (hopened.step_iff hstart).1.mp hdaily⟩
  · apply Run.weaken_of_invariant (Opened cfg) rfl
    · intro h s a s' _ hopened ⟨hstart, hsame⟩ hs
      cases hs
      exact (hopened.step_iff hstart).2 hsame
    · intro h s a s' hopened _ ⟨hstart, hsame⟩
      exact ⟨hstart, (hopened.step_iff hstart).1.mpr hsame⟩

/-- The clock does not go back, and midnight does not pass between the readings of a call. -/
def Punctual (s : State) (a : Call) : Prop :=
  match a with
  | .start date now _ env => dayOf date = dayOf env.now ∧ dayOf now = dayOf env.now
  | .log _ _ _ env =>
    dayOf env.date = dayOf env.now ∧ ∀ m ∈ s.accepted, dayOf m.now ≤ dayOf env.now
  | .flushLog | .shutdown _ => True

/-- The open log is that of the last message, whose day `prevDays` has not passed. -/
structure LastDay (cfg : Config) (s : State) : Prop where
  own : InOwnFile cfg s
  last : ∃ m ∈ s.accepted, s.prevDays ≤ dayOf m.now ∧
    (s.out = .stderr ∨ s.out = .file (logFileName cfg.logFileProp (PERFIOS_DATE_FORMAT m.now)))

theorem LastDay.append (hown : InOwnFile cfg s) (hprev : s.prevDays ≤ dayOf env.now)
    (hout : s.out = .stderr ∨
      s.out = .file (logFileName cfg.logFileProp (PERFIOS_DATE_FORMAT env.now))) :
    LastDay cfg (s.append env tag message e) := by
  refine ⟨?_, s.record env tag message e, ?_, hprev, hout⟩
  · intro p hp
    rw [placed_append, List.mem_append, List.mem_singleton] at hp
    obtain hold | hnew := hp
    · exact hown p hold
    · subst hnew
      exact hout
  · exact List.mem_append_right _ (List.mem_singleton_self _)

theorem placed_changeDay : (s.changeDay cfg env).placed = s.placed := by
  obtain ⟨hmessages, -, -, hprinted, -⟩ := s.changeDay_frame cfg env
  rw [State.placed, hprinted, hmessages, List.map_nil, List.append_nil]
  rfl

theorem LastDay.handleMessage (hlast : LastDay cfg s) (hdate : dayOf env.date = dayOf env.now)
    (hlater : ∀ m ∈ s.accepted, dayOf m.now ≤ dayOf env.now) :
    LastDay cfg (s.handleMessage cfg env tag message e) := by
  obtain ⟨m, hm, hprev, hout⟩ := hlast.last
  rw [handleMessage_eq]
  split
  case isTrue hrotates =>
    obtain ⟨-, hprev', -, -, -, -, hout'⟩ := s.changeDay_frame cfg env
    refine .append ?_ (hprev' ▸ Nat.le_of_lt hrotates) ?_
    · rw [InOwnFile, placed_changeDay]
      exact hlast.own
    · rw [hout', PERFIOS_DATE_FORMAT_congr hdate]
      split
      · exact .inr rfl
      · exact .inl rfl
  case isFalse hrotates =>
    have hle : dayOf env.now ≤ s.prevDays := Nat.not_lt.mp hrotates
    have hday : dayOf m.now = dayOf env.now :=
      Nat.le_antisymm (hlater m hm) (Nat.le_trans hle hprev)
    refine .append hlast.own (hday ▸ hprev) ?_
    rw [← PERFIOS_DATE_FORMAT_congr hday]
    exact hout

theorem LastDay.flushLog (hlast : LastDay cfg s) : LastDay cfg s.flushLog := by
  obtain ⟨_, hout, hprev⟩ := flushLog_frame s
  have haccepted : s.flushLog.accepted = s.accepted := by
    rw [State.flushLog]
    split <;> rfl
  constructor
  · rw [InOwnFile, placed_flushLog]
    exact hlast.own
  · rw [haccepted, hout, hprev]
    exact hlast.last

theorem lastDay_start {date now : Nat} {opened : Bool} (hdate : dayOf date = dayOf env.now)
    (hnow : dayOf now = dayOf env.now) :
    LastDay cfg (call cfg init (.start date now opened env)) := by
  have hrotates : ¬ Rotates env (openedLog cfg date now opened) := by
    rw [Rotates, openedLog_prevDays, hnow]
    exact Nat.lt_irrefl _
  rw [call_start, handleMessage_of_not hrotates]
  obtain ⟨hplaced, -⟩ := openedLog_frame cfg date now opened
  refine .append (fun p hp => absurd (hplaced ▸ hp) List.not_mem_nil) ?_ ?_
  · exact Nat.le_of_eq (openedLog_prevDays.trans hnow)
  · rw [openedLog_out, PERFIOS_DATE_FORMAT_congr hdate]
    split
    · exact .inr rfl
    · exact .inl rfl

/-- The messages are in the files of their days also when the log is reopened over and over. -/
theorem inOwnFile_of_run
    (hr : Run (total (call cfg)) (fun h s a => OneStart h a ∧ Punctual s a) init h s) :
    InOwnFile cfg s := by
  have hlast : if h = [] then s = init else LastDay cfg s := by
    refine Run.invariant (fun h s => if h = [] then s = init else LastDay cfg s) rfl ?_ hr
    intro h s a s' _ hlast ⟨hstart, hpunctual⟩ hs
    cases hs
    rw [if_neg (by simp)]
    by_cases hnil : h = []
    · rw [if_pos hnil] at hlast
      subst hlast
      cases a with
      | start date now opened env => exact lastDay_start hpunctual.1 hpunctual.2
      | log tag message e env | flushLog => exact absurd hnil hstart
      | shutdown env => cases hstart
    · rw [if_neg hnil] at hlast
      cases a with
      | start date now opened env => exact absurd hstart hnil
      | shutdown env => cases hstart
      | flushLog => exact hlast.flushLog
      | log tag message e env =>
        rw [call]
        split
        · exact hlast
        · exact hlast.handleMessage hpunctual.1 hpunctual.2
  by_cases hnil : h = []
  · rw [if_pos hnil] at hlast
    subst hlast
    exact fun p hp => absurd hp List.not_mem_nil
  · rw [if_neg hnil] at hlast
    exact hlast.own

def noonOf (day : Nat) : Env :=
  ⟨1, day * millisOfDay + 43200000, day * millisOfDay + 43200000, true, 0⟩

def logged (day : Nat) : Call := .log .INFO "ready" none (noonOf day)

/-- A start, and two messages of the next day. -/
def nextDay : List Call :=
  [.start (noonOf 1).now (noonOf 1).now true (noonOf 1), logged 2, logged 2]

/-- Both close and reopen the log, and `prevDays` stays behind. -/
theorem reopened_twice :
    ∃ s, Run (total (call ⟨"ia.log", false⟩)) (fun h _ a => OneStart h a) init nextDay s ∧
      s.reopened = [2, 2] ∧ s.prevDays = 1 := by
  refine ⟨nextDay.foldl (call ⟨"ia.log", false⟩) init, ?_, by decide +kernel, by decide +kernel⟩
  have hlater (h : List Call) (a : Call) : OneStart (h ++ [a]) (logged 2) := by
    simp [OneStart, logged]
  exact .snoc (.snoc (.snoc .nil rfl rfl) (hlater [] _) rfl) (hlater [_] _) rfl

end InsightsAssist.KLogger
