import InsightsAssist.Runs

/-! The logger: a buffer of messages, the stream they are printed to and the file it writes to,
which is to change at midnight. Clock readings are local, in milliseconds since 1 January 1970: the
offset of the time zone is fixed, so that `currentTimeMillis() + tzOffset` and the formatted dates
speak of the same time. The calls follow one another, and what is flushed is written. -/
namespace InsightsAssist.KLogger

def millisOfDay : Nat := 24 * 60 * 60 * 1000

/-- The calendar day of a reading, counted from 1 January 1970. -/
def dayOf (now : Nat) : Nat := now / millisOfDay

/-- Year, month and day of the month in the Gregorian calendar; the years of the computation begin
in March, and 400 of them have 146097 days. -/
def calendarDate (days : Nat) : Nat × Nat × Nat :=
  let era := (days + 719468) / 146097
  let dayOfEra := (days + 719468) % 146097
  let year := (dayOfEra - dayOfEra / 1460 + dayOfEra / 36524 - dayOfEra / 146096) / 365
  let dayOfYear := dayOfEra - (365 * year + year / 4 - year / 100)
  let month := (5 * dayOfYear + 2) / 153
  let day := dayOfYear - (153 * month + 2) / 5 + 1
  if month < 10 then (year + era * 400, month + 3, day) else (year + era * 400 + 1, month - 9, day)

def twoDigits (n : Nat) : String := if n < 10 then "0" ++ toString n else toString n

/-- dd-MM-yyyy. -/
def dateText (days : Nat) : String :=
  let (year, month, day) := calendarDate days
  twoDigits day ++ "-" ++ twoDigits month ++ "-" ++ toString year

def PERFIOS_DATE_FORMAT (now : Nat) : String := dateText (dayOf now)

/-- -1 if there is none. -/
def lastIndexOf (s : List Char) (c : Char) : Int :=
  if c ∈ s then s.length - 1 - s.reverse.idxOf c else -1

/-- The file of a date: ia.27-05-2008.log for ia.log and for ia. -/
def logFileName (logFileProp logFileDate : String) : String :=
  let index := lastIndexOf logFileProp.toList '.'
  if index ≠ -1 then
    .ofList (logFileProp.toList.take (index + 1).toNat ++ logFileDate.toList ++
      logFileProp.toList.drop index.toNat)
  else logFileProp ++ "." ++ logFileDate ++ ".log"

inductive Tag where
  | DEBUG
  | ERROR
  | INFO
  | WARN
  deriving DecidableEq, Repr

/-- What is asked of an exception: `toString` and the stack trace printed. -/
structure Trace where
  toString : String
  stackTrace : String
  deriving DecidableEq, Repr

/-- A message in the buffer, with the reading of the clock it was logged at. -/
structure Message where
  tag : Tag
  threadId : Nat
  logFileDate : Option String
  now : Nat
  message : String
  e : Option Trace
  deriving DecidableEq, Repr

/-- The text appended: tag threadID date hh:mm:ss message. -/
def Message.text (m : Message) : String :=
  let secs := m.now / 1000 % (24 * 60 * 60)
  let tag := match m.tag with
    | .DEBUG => "DEBUG"
    | .ERROR => "ERROR"
    | .INFO => "INFO"
    | .WARN => "WARN"
  let time := twoDigits (secs / 3600) ++ ":" ++ twoDigits (secs % 3600 / 60) ++ ":" ++
    twoDigits (secs % 60)
  let trace := match m.e with
    | none => "\n"
    | some e => " : " ++ e.toString ++ "\n" ++ e.stackTrace
  tag ++ "\t" ++ toString m.threadId ++ "\t" ++ m.logFileDate.getD "null" ++ "\t" ++ time ++ "\t" ++
    m.message ++ trace

/-- Where `out` writes: to stderr or to the file of that name in `logDirProp`. -/
inductive Output where
  | stderr
  | file (logFileName : String)
  deriving DecidableEq, Repr

structure Config where
  logFileProp : String
  servletDebug : Bool

/-- What a call finds around it: its thread, the reading at its begin, that of the dates it formats,
whether a log file can be opened, and how many messages leave the full buffer of a writer. -/
structure Env where
  threadId : Nat
  now : Nat
  date : Nat
  opened : Bool
  spilled : Nat
  deriving DecidableEq, Repr

/-- The fields of the logger, with what was printed so far, what of it the writers of stderr and of
the file hold and what has reached the outputs, what was accepted into the buffer, the days on which
a message closed and reopened the log, and the mails to the support. -/
structure State where
  messages : List Message
  out : Output
  stderrUsed : Bool
  logFileDate : Option String
  prevDays : Nat
  logFlusher : Bool
  printed : List (Output × Message)
  heldByStderr : List Message
  heldByFile : List Message
  written : List (Output × Message)
  accepted : List Message
  reopened : List Nat
  mails : List String
  deriving DecidableEq, Repr

def init : State := ⟨[], .stderr, true, none, 0, false, [], [], [], [], [], [], []⟩

namespace State

def held (s : State) : List Message := if s.out = .stderr then s.heldByStderr else s.heldByFile

def hold (messages : List Message) (s : State) : State :=
  { s with
    heldByStderr := if s.out = .stderr then messages else s.heldByStderr
    heldByFile := if s.out = .stderr then s.heldByFile else messages }

/-- The writer of `out` passes on the first of the messages it holds. -/
def passOn (n : Nat) (s : State) : State :=
  { s.hold (s.held.drop n) with written := s.written ++ (s.held.take n).map (s.out, ·) }

/-- `out.print(messages.toString())`, which leaves the buffer as it is. Automatic flushing is for
`println` only: the writer keeps at least the end of the text. -/
def print (spilled : Nat) (s : State) : State :=
  let s := { s.hold (s.held ++ s.messages) with
    printed := s.printed ++ s.messages.map (s.out, ·) }
  s.passOn (min spilled (s.held.length - 1))

def flush (s : State) : State := s.passOn s.held.length

def flushLog (s : State) : State :=
  -- how much passes before the flush makes no difference
  if s.messages = [] then s else { s.print 0 with messages := [] }.flush

/-- A writer that is closed is flushed; that of stderr is not closed. -/
def closeLog (s : State) : State :=
  let s := if s.stderrUsed then s else s.flush
  { s with stderrUsed := true, out := .stderr }

/-- The reading `date` is formatted, `now` is that of the clock after it. The line on a file that
cannot be opened is printed by `println`. -/
def openLog (cfg : Config) (date now : Nat) (opened : Bool) (s : State) : State :=
  let logFileDate := s.logFileDate.getD (PERFIOS_DATE_FORMAT date)
  let prevDays := if s.logFileDate = none then dayOf now else s.prevDays
  let s := { s with logFileDate := some logFileDate, prevDays := prevDays }
  if opened then
    { s with out := .file (logFileName cfg.logFileProp logFileDate), heldByFile := [],
             stderrUsed := false }
  else { { s with out := .stderr }.flush with stderrUsed := true }

def changeDay (cfg : Config) (env : Env) (s : State) : State :=
  let s := { s.print env.spilled with messages := [] }.closeLog
  let s := { s with
    logFileDate := some (PERFIOS_DATE_FORMAT env.date)
    reopened := s.reopened ++ [dayOf env.now] }
  s.openLog cfg env.date env.date env.opened

def record (env : Env) (tag : Tag) (message : String) (e : Option Trace) (s : State) : Message :=
  ⟨tag, env.threadId, s.logFileDate, env.now, message, e⟩

def append (env : Env) (tag : Tag) (message : String) (e : Option Trace) (s : State) : State :=
  { s with
    messages := s.messages ++ [s.record env tag message e]
    accepted := s.accepted ++ [s.record env tag message e]
    mails := s.mails ++ e.toList.map fun e => message ++ e.stackTrace }

def handleMessage (cfg : Config) (env : Env) (tag : Tag) (message : String) (e : Option Trace)
    (s : State) : State :=
  let days := env.now / 1000 / (24 * 60 * 60)
  if s.prevDays < days then (s.changeDay cfg env).append env tag message e
  else s.append env tag message e

def info (cfg : Config) (env : Env) (message : String) (s : State) : State :=
  s.handleMessage cfg env .INFO message none

/-- Without a flusher to cancel, before any start, it ends in an exception after its message. -/
def shutdown (cfg : Config) (env : Env) (s : State) : State :=
  let s := s.info cfg env "------- Shutting down Logger ----------------------"
  if s.logFlusher then (s.print env.spilled).closeLog else s

def start (cfg : Config) (date now : Nat) (opened : Bool) (env : Env) (s : State) : State :=
  { s.openLog cfg date now opened with logFlusher := true }.info cfg env
    "------- Starting Logging ----------------------"

end State

/-- `log` stands for the methods of the levels. -/
inductive Call where
  | start (date now : Nat) (opened : Bool) (env : Env)
  | log (tag : Tag) (message : String) (e : Option Trace) (env : Env)
  | flushLog
  | shutdown (env : Env)
  deriving DecidableEq, Repr

/-- Debug messages are accepted only if `servletDebug` is set. -/
def call (cfg : Config) (s : State) : Call → State
  | .start date now opened env => s.start cfg date now opened env
  | .log tag message e env =>
    if tag = .DEBUG ∧ cfg.servletDebug = false then s else s.handleMessage cfg env tag message e
  | .flushLog => s.flushLog
  | .shutdown env => s.shutdown cfg env

theorem Message.text_ne_empty (m : Message) : m.text ≠ "" := by
  intro h
  have hlist := congrArg String.toList h
  simp [Message.text] at hlist

/-- The message finds the day changed. -/
def Rotates (env : Env) (s : State) : Prop := s.prevDays < dayOf env.now

instance (env : Env) (s : State) : Decidable (Rotates env s) :=
  inferInstanceAs (Decidable (_ < _))

section
variable {cfg : Config} {env : Env} {tag : Tag} {message : String} {e : Option Trace} {s : State}

theorem handleMessage_eq : s.handleMessage cfg env tag message e =
    if Rotates env s then (s.changeDay cfg env).append env tag message e
    else s.append env tag message e := by
  have hdays : env.now / 1000 / (24 * 60 * 60) = dayOf env.now :=
    Nat.div_div_eq_div_mul env.now 1000 (24 * 60 * 60)
  rw [State.handleMessage, hdays]
  rfl

theorem handleMessage_of_rotates (h : Rotates env s) :
    s.handleMessage cfg env tag message e = (s.changeDay cfg env).append env tag message e := by
  rw [handleMessage_eq, if_pos h]

theorem handleMessage_of_not (h : ¬ Rotates env s) :
    s.handleMessage cfg env tag message e = s.append env tag message e := by
  rw [handleMessage_eq, if_neg h]

theorem State.closeLog_frame (s : State) :
    s.closeLog.messages = s.messages ∧ s.closeLog.logFileDate = s.logFileDate ∧
      s.closeLog.prevDays = s.prevDays ∧ s.closeLog.logFlusher = s.logFlusher ∧
      s.closeLog.printed = s.printed ∧ s.closeLog.accepted = s.accepted ∧
      s.closeLog.reopened = s.reopened := by
  rw [State.closeLog]
  split <;> exact ⟨rfl, rfl, rfl, rfl, rfl, rfl, rfl⟩

theorem State.openLog_frame (cfg : Config) (date now : Nat) (opened : Bool) (s : State) :
    (s.openLog cfg date now opened).messages = s.messages ∧
      (s.openLog cfg date now opened).logFlusher = s.logFlusher ∧
      (s.openLog cfg date now opened).printed = s.printed ∧
      (s.openLog cfg date now opened).accepted = s.accepted ∧
      (s.openLog cfg date now opened).reopened = s.reopened := by
  cases opened <;> exact ⟨rfl, rfl, rfl, rfl, rfl⟩

theorem State.prevDays_openLog (cfg : Config) (date now : Nat) (opened : Bool) (s : State) :
    (s.openLog cfg date now opened).prevDays =
      if s.logFileDate = none then dayOf now else s.prevDays := by
  cases opened <;> rfl

theorem State.out_openLog (cfg : Config) (date now : Nat) (opened : Bool) (s : State) :
    (s.openLog cfg date now opened).out = if opened then
      .file (logFileName cfg.logFileProp (s.logFileDate.getD (PERFIOS_DATE_FORMAT date)))
      else .stderr := by
  cases opened <;> rfl

theorem State.changeDay_frame (cfg : Config) (env : Env) (s : State) :
    (s.changeDay cfg env).messages = [] ∧ (s.changeDay cfg env).prevDays = s.prevDays ∧
      (s.changeDay cfg env).logFlusher = s.logFlusher ∧
      (s.changeDay cfg env).printed = s.printed ++ s.messages.map (s.out, ·) ∧
      (s.changeDay cfg env).accepted = s.accepted ∧
      (s.changeDay cfg env).reopened = s.reopened ++ [dayOf env.now] ∧
      (s.changeDay cfg env).out = if env.opened then
        .file (logFileName cfg.logFileProp (PERFIOS_DATE_FORMAT env.date)) else .stderr := by
  let t : State := { s.print env.spilled with messages := [] }
  let u : State := { t.closeLog with
    logFileDate := some (PERFIOS_DATE_FORMAT env.date)
    reopened := t.closeLog.reopened ++ [dayOf env.now] }
  have hchange : s.changeDay cfg env = u.openLog cfg env.date env.date env.opened := rfl
  obtain ⟨hmessages, -, hprev, hflusher, hprinted, haccepted, hreopened⟩ := t.closeLog_frame
  obtain ⟨hmessages', hflusher', hprinted', haccepted', hreopened'⟩ :=
    u.openLog_frame cfg env.date env.date env.opened
  have hdate : u.logFileDate = some (PERFIOS_DATE_FORMAT env.date) := rfl
  rw [hchange, u.prevDays_openLog, u.out_openLog, hmessages', hflusher', hprinted', haccepted',
    hreopened', hdate, Option.getD_some, if_neg (Option.some_ne_none _)]
  refine ⟨hmessages, hprev, hflusher, hprinted, haccepted, ?_, rfl⟩
  exact congrArg (· ++ [dayOf env.now]) hreopened

theorem logFileName_inj {logFileProp d d' : String}
    (h : logFileName logFileProp d = logFileName logFileProp d') : d = d' := by
  simp only [logFileName] at h
  by_cases hindex : lastIndexOf logFileProp.toList '.' = -1
  · rw [if_neg (not_not.mpr hindex), if_neg (not_not.mpr hindex), ← String.toList_inj] at h
    simp only [String.toList_append, List.append_cancel_right_eq, List.append_cancel_left_eq] at h
    exact String.toList_inj.mp h
  · rw [if_pos hindex, if_pos hindex, String.ofList_inj, List.append_cancel_right_eq,
      List.append_cancel_left_eq] at h
    exact String.toList_inj.mp h

end

example : logFileName "ia.log" (PERFIOS_DATE_FORMAT 1211846400000) = "ia.27-05-2008.log" ∧
    logFileName "ia" (PERFIOS_DATE_FORMAT 1211846400000) = "ia.27-05-2008.log" := by decide +kernel

end InsightsAssist.KLogger
