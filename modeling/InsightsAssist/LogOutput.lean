import InsightsAssist.KLogger

/-! Which messages are in the output of the logger after it has drained its buffer. -/
namespace InsightsAssist.KLogger
open Runs

/-- The messages that are to be in the output after the call; none if the call neither flushes nor
shuts down nor finds the day changed. -/
def due (cfg : Config) (s : State) : Call → Option (List Message)
  | .start date now opened env =>
    if Rotates env (s.openLog cfg date now opened) then some s.accepted else none
  | .log tag _ _ env =>
    if tag = .DEBUG ∧ cfg.servletDebug = false then none
    else if Rotates env s then some s.accepted else none
  | .flushLog => some s.accepted
  | .shutdown env =>
    if s.logFlusher then some (s.shutdown cfg env).accepted
    else if Rotates env s then some s.accepted else none

/-- What is printed and not passed on. -/
def State.withWriters (s : State) : List Message := s.heldByStderr ++ s.heldByFile

/-- After a flush, a rotation or a shutdown every message accepted is in the output once and in
order, and none is on its way to it. -/
def Written (cfg : Config) (s : State) (a : Call) : Prop :=
  ∀ messages, due cfg s a = some messages →
    (call cfg s a).written.map Prod.snd = messages ∧ (call cfg s a).withWriters = []

/-- A change of the day prints to stderr, where nothing flushes what is printed if the file of the
new day can be opened. -/
def LeftByRotation (env : Env) (s : State) : Prop :=
  Rotates env s ∧ s.out = .stderr ∧ s.messages ≠ [] ∧ env.opened = true

/-- The call prints messages to stderr and leaves them with the writer; a shutdown does where the
log is on stderr or is rotated to it. -/
def Left (cfg : Config) (s : State) : Call → Prop
  | .start date now opened env => LeftByRotation env (s.openLog cfg date now opened)
  | .log tag _ _ env => ¬(tag = .DEBUG ∧ cfg.servletDebug = false) ∧ LeftByRotation env s
  | .flushLog => False
  | .shutdown env => LeftByRotation env s ∨
    s.logFlusher = true ∧ if Rotates env s then env.opened = false else s.out = .stderr

def ShutsDown (s : State) (a : Call) : Prop := s.logFlusher = true ∧ ∃ env, a = .shutdown env

def ShutDown (cfg : Config) (h : List Call) : Prop :=
  Occurred (total (call cfg)) ShutsDown init h

/-- A state as an account of its messages: those written, those in the buffer, those accepted. -/
structure Books where
  output : List Message
  buffer : List Message
  accepted : List Message

def State.output (s : State) : List Message := s.written.map Prod.snd

def State.books (s : State) : Books := ⟨s.output, s.messages, s.accepted⟩

/-- What a call enters in the books if it leaves nothing with a writer, by what is due after it. -/
inductive Entry (b : Books) : Books → Option (List Message) → Prop
  | quiet (messages : List Message) :
      Entry b ⟨b.output, b.buffer ++ messages, b.accepted ++ messages⟩ none
  | drained (messages : List Message) :
      Entry b ⟨b.output ++ b.buffer, messages, b.accepted ++ messages⟩ (some b.accepted)

/-- `stderrUsed` tells where the log is, and only the writer of stderr holds messages. -/
structure Regular (s : State) : Prop where
  used : s.stderrUsed = true ↔ s.out = .stderr
  byFile : s.heldByFile = []

variable {cfg : Config} {h : List Call} {s s' : State} {a : Call} {env : Env} {tag : Tag}
  {message : String} {e : Option Trace} {n : Nat} {messages : List Message}

/-! ### The writers -/

theorem held_hold (messages : List Message) (s : State) : (s.hold messages).held = messages := by
  by_cases hout : s.out = .stderr <;> simp [State.held, State.hold, hout]

theorem held_passOn (n : Nat) (s : State) : (s.passOn n).held = s.held.drop n :=
  held_hold (s.held.drop n) s

theorem output_passOn (n : Nat) (s : State) :
    (s.passOn n).output ++ (s.passOn n).held = s.output ++ s.held := by
  rw [held_passOn, State.output, State.passOn, List.map_append, List.map_map, List.append_assoc]
  simp [State.output, Function.comp_def]

theorem held_flush (s : State) : s.flush.held = [] := by
  rw [State.flush, held_passOn, List.drop_length]

theorem output_flush (s : State) : s.flush.output = s.output ++ s.held := by
  have houtput := output_passOn s.held.length s
  rw [held_passOn, List.drop_length, List.append_nil] at houtput
  exact houtput

theorem output_print (n : Nat) (s : State) :
    (s.print n).output ++ (s.print n).held = s.output ++ (s.held ++ s.messages) := by
  rw [State.print, output_passOn]
  exact congrArg (s.output ++ ·) (held_hold _ s)

theorem held_print : (s.print n).held = [] ↔ s.held ++ s.messages = [] := by
  have hheld : (s.print n).held =
      (s.held ++ s.messages).drop (min n ((s.held ++ s.messages).length - 1)) := by
    let t : State := { s.hold (s.held ++ s.messages) with
      printed := s.printed ++ s.messages.map (s.out, ·) }
    have ht : t.held = s.held ++ s.messages := held_hold _ s
    rw [← ht]
    exact held_passOn _ t
  rw [hheld, List.drop_eq_nil_iff, ← List.length_eq_zero_iff]
  omega

theorem held_stderr (hout : s.out = .stderr) : s.held = s.heldByStderr := if_pos hout

theorem held_file (hout : s.out ≠ .stderr) : s.held = s.heldByFile := if_neg hout

theorem hold_other (messages : List Message) (s : State) :
    (s.out = .stderr → (s.hold messages).heldByFile = s.heldByFile) ∧
      (s.out ≠ .stderr → (s.hold messages).heldByStderr = s.heldByStderr) := by
  constructor
  · intro hout
    exact if_pos hout
  · intro hout
    exact if_neg hout

theorem flush_other (s : State) :
    (s.out = .stderr → s.flush.heldByFile = s.heldByFile) ∧
      (s.out ≠ .stderr → s.flush.heldByStderr = s.heldByStderr) :=
  hold_other _ s

theorem print_other (n : Nat) (s : State) :
    (s.out = .stderr → (s.print n).heldByFile = s.heldByFile) ∧
      (s.out ≠ .stderr → (s.print n).heldByStderr = s.heldByStderr) := by
  let t : State := { s.hold (s.held ++ s.messages) with
    printed := s.printed ++ s.messages.map (s.out, ·) }
  obtain ⟨hfile, hstderr⟩ := hold_other (s.held ++ s.messages) s
  constructor
  · intro hout
    exact ((hold_other _ t).1 hout).trans (hfile hout)
  · intro hout
    exact ((hold_other _ t).2 hout).trans (hstderr hout)

/-! ### Printing and closing -/

/-- The log is closed behind what it prints. -/
def State.drain (n : Nat) (messages : List Message) (s : State) : State :=
  { s.print n with messages := messages }.closeLog

theorem regular_closeLog (s : State) (hfile : s.stderrUsed = true → s.heldByFile = [])
    (hout : s.stderrUsed = false → s.out ≠ .stderr) : Regular s.closeLog := by
  refine ⟨iff_of_true rfl rfl, ?_⟩
  rw [State.closeLog]
  split
  · rename_i hused
    exact hfile hused
  · rename_i hused
    have hout := hout (Bool.eq_false_iff.mpr hused)
    exact (held_file (s := s.flush) hout).symm.trans (held_flush s)

theorem Regular.drain (hs : Regular s) (n : Nat) (messages : List Message) :
    Regular (s.drain n messages) := by
  apply regular_closeLog
  · intro hused
    exact ((print_other n s).1 (hs.used.mp hused)).trans hs.byFile
  · intro hused hout
    exact Bool.false_ne_true (hused.symm.trans (hs.used.mpr hout))

theorem drain_file (n : Nat) (messages : List Message) (hs : Regular s) (hout : s.out ≠ .stderr) :
    (s.drain n messages).output = s.output ++ s.messages ∧
      (s.drain n messages).heldByStderr = s.heldByStderr := by
  let t : State := { s.print n with messages := messages }
  have hused : ¬ t.stderrUsed = true := fun hused => hout (hs.used.mp hused)
  have hclose : t.closeLog = { t.flush with stderrUsed := true, out := .stderr } := by
    rw [State.closeLog, if_neg hused]
  have hprinted : t.output ++ t.held = s.output ++ (s.held ++ s.messages) := output_print n s
  rw [held_file hout, hs.byFile, List.nil_append, ← output_flush] at hprinted
  rw [State.drain, hclose]
  exact ⟨hprinted, ((flush_other t).2 hout).trans ((print_other n s).2 hout)⟩

theorem drain_stderr (n : Nat) (messages : List Message) (hs : Regular s) (hout : s.out = .stderr) :
    (s.drain n messages).output ++ (s.drain n messages).heldByStderr =
        s.output ++ (s.heldByStderr ++ s.messages) ∧
      ((s.drain n messages).heldByStderr = [] ↔ s.heldByStderr ++ s.messages = []) := by
  let t : State := { s.print n with messages := messages }
  have hused : t.stderrUsed = true := hs.used.mpr hout
  have hclose : t.closeLog = { t with stderrUsed := true, out := .stderr } := by
    rw [State.closeLog, if_pos hused]
  have hheld : (s.print n).heldByStderr = (s.print n).held :=
    (held_stderr (s := s.print n) hout).symm
  have hprinted := output_print n s
  have hnil : (s.print n).held = [] ↔ _ := held_print
  rw [held_stderr hout, ← hheld] at hprinted hnil
  rw [State.drain, hclose]
  exact ⟨hprinted, hnil⟩

/-! ### The calls -/

structure Settled (s : State) : Prop extends Regular s where
  byStderr : s.heldByStderr = []

theorem Regular.withWriters (hs : Regular s) : s.withWriters = s.heldByStderr := by
  rw [State.withWriters, hs.byFile, List.append_nil]

theorem settled_init : Settled init := ⟨⟨iff_of_true rfl rfl, rfl⟩, rfl⟩

theorem Regular.openLog (hs : Regular s) (cfg : Config) (date now : Nat) (opened : Bool) :
    Regular (s.openLog cfg date now opened) := by
  cases opened with
  | true => exact ⟨iff_of_false Bool.false_ne_true Output.noConfusion, rfl⟩
  | false => exact ⟨iff_of_true rfl rfl, hs.byFile⟩

theorem openLog_output (cfg : Config) (date now : Nat) (opened : Bool) (s : State) :
    (s.openLog cfg date now opened).output ++ (s.openLog cfg date now opened).heldByStderr =
        s.output ++ s.heldByStderr ∧
      ((s.openLog cfg date now opened).heldByStderr = [] ↔
        (opened = true → s.heldByStderr = [])) := by
  cases opened with
  | true =>
    refine ⟨rfl, ?_⟩
    rw [forall_prop_of_true rfl]
    exact Iff.rfl
  | false =>
    let t : State := { s with
      logFileDate := some (s.logFileDate.getD (PERFIOS_DATE_FORMAT date))
      prevDays := if s.logFileDate = none then dayOf now else s.prevDays
      out := .stderr }
    have hnil : t.flush.heldByStderr = [] :=
      (held_stderr (s := t.flush) rfl).symm.trans (held_flush t)
    have houtput : t.flush.output = s.output ++ s.heldByStderr := output_flush t
    refine ⟨?_, iff_of_true hnil fun hopened => absurd hopened Bool.false_ne_true⟩
    change t.flush.output ++ t.flush.heldByStderr = _
    rw [hnil, houtput, List.append_nil]

theorem Settled.openLog (hs : Settled s) (cfg : Config) (date now : Nat) (opened : Bool) :
    Settled (s.openLog cfg date now opened) :=
  ⟨hs.toRegular.openLog cfg date now opened,
    (openLog_output cfg date now opened s).2.mpr fun _ => hs.byStderr⟩

theorem Settled.books_openLog (hs : Settled s) (cfg : Config) (date now : Nat) (opened : Bool) :
    (s.openLog cfg date now opened).books = s.books := by
  obtain ⟨hmessages, -, -, haccepted, -⟩ := s.openLog_frame cfg date now opened
  have houtput := (openLog_output cfg date now opened s).1
  rw [(hs.openLog cfg date now opened).byStderr, hs.byStderr, List.append_nil,
    List.append_nil] at houtput
  rw [State.books, houtput, hmessages, haccepted]
  rfl

/-- The log as the change of the day leaves it, before the file of the new day is opened. -/
def closed (env : Env) (s : State) : State :=
  { s.drain env.spilled [] with
    logFileDate := some (PERFIOS_DATE_FORMAT env.date)
    reopened := (s.drain env.spilled []).reopened ++ [dayOf env.now] }

theorem changeDay_eq (cfg : Config) (env : Env) (s : State) :
    s.changeDay cfg env = (closed env s).openLog cfg env.date env.date env.opened := rfl

theorem Regular.changeDay (hs : Regular s) (cfg : Config) (env : Env) :
    Regular (s.changeDay cfg env) := by
  have hdrain := hs.drain env.spilled []
  exact Regular.openLog (s := closed env s) ⟨hdrain.used, hdrain.byFile⟩ cfg env.date env.date
    env.opened

theorem Settled.changeDay (hs : Settled s) (cfg : Config) (env : Env) :
    (s.changeDay cfg env).output ++ (s.changeDay cfg env).heldByStderr =
        s.output ++ s.messages ∧
      ((s.changeDay cfg env).heldByStderr = [] ↔
        ¬(s.out = .stderr ∧ s.messages ≠ [] ∧ env.opened = true)) := by
  obtain ⟨houtput, hheld⟩ := openLog_output cfg env.date env.date env.opened (closed env s)
  rw [changeDay_eq, houtput, hheld]
  by_cases hout : s.out = .stderr
  · obtain ⟨hdrained, hnil⟩ := drain_stderr env.spilled [] hs.toRegular hout
    rw [hs.byStderr, List.nil_append] at hdrained hnil
    refine ⟨hdrained, ?_⟩
    have hclosed : (closed env s).heldByStderr = [] ↔ s.messages = [] := hnil
    rw [hclosed]
    simp only [hout, true_and, not_and]
    tauto
  · obtain ⟨hdrained, hheld'⟩ := drain_file env.spilled [] hs.toRegular hout
    have hnil : (closed env s).heldByStderr = [] := hheld'.trans hs.byStderr
    refine ⟨?_, iff_of_true (fun _ => hnil) fun hno => hout hno.1⟩
    rw [hnil, List.append_nil]
    exact hdrained

theorem Regular.handleMessage (hs : Regular s) :
    Regular (s.handleMessage cfg env tag message e) := by
  rw [handleMessage_eq]
  split
  · exact ⟨(hs.changeDay cfg env).used, (hs.changeDay cfg env).byFile⟩
  · exact ⟨hs.used, hs.byFile⟩

theorem Settled.handleMessage (hs : Settled s) :
    (s.handleMessage cfg env tag message e).heldByStderr = [] ↔ ¬ LeftByRotation env s := by
  rw [handleMessage_eq, LeftByRotation]
  by_cases hrotates : Rotates env s
  · rw [if_pos hrotates, and_iff_right hrotates]
    exact (hs.changeDay cfg env).2
  · rw [if_neg hrotates]
    exact iff_of_true hs.byStderr fun hleft => hrotates hleft.1

theorem handleMessage_entry (hs : Settled s) (hleft : ¬ LeftByRotation env s) :
    Entry s.books (s.handleMessage cfg env tag message e).books
      (if Rotates env s then some s.accepted else none) := by
  by_cases hrotates : Rotates env s
  · rw [if_pos hrotates, handleMessage_of_rotates hrotates]
    let r := (s.changeDay cfg env).record env tag message e
    obtain ⟨houtput, hheld⟩ := hs.changeDay cfg env
    obtain ⟨hmessages, -, -, -, haccepted, -⟩ := s.changeDay_frame cfg env
    rw [hheld.mpr fun hno => hleft ⟨hrotates, hno⟩, List.append_nil] at houtput
    have hbooks : ((s.changeDay cfg env).append env tag message e).books =
        ⟨s.books.output ++ s.books.buffer, [r], s.books.accepted ++ [r]⟩ := by
      change Books.mk (s.changeDay cfg env).output ((s.changeDay cfg env).messages ++ [r])
        ((s.changeDay cfg env).accepted ++ [r]) = _
      rw [houtput, hmessages, haccepted]
      rfl
    rw [hbooks]
    exact .drained _
  · rw [if_neg hrotates, handleMessage_of_not hrotates]
    exact .quiet [s.record env tag message e]

theorem logFlusher_handleMessage :
    (s.handleMessage cfg env tag message e).logFlusher = s.logFlusher := by
  rw [handleMessage_eq]
  split
  · exact (s.changeDay_frame cfg env).2.2.1
  · rfl

theorem out_handleMessage : (s.handleMessage cfg env tag message e).out = .stderr ↔
    if Rotates env s then env.opened = false else s.out = .stderr := by
  rw [handleMessage_eq]
  split
  · have hout := (s.changeDay_frame cfg env).2.2.2.2.2.2
    change (s.changeDay cfg env).out = .stderr ↔ _
    rw [hout]
    cases env.opened <;> simp
  · exact Iff.rfl

theorem handleMessage_buffer : (s.handleMessage cfg env tag message e).books.buffer ≠ [] := by
  rw [handleMessage_eq]
  split <;> exact List.append_ne_nil_of_right_ne_nil _ (List.cons_ne_nil _ _)

theorem flushLog_of_ne (hne : s.messages ≠ []) :
    s.flushLog = { s.print 0 with messages := [] }.flush := if_neg hne

theorem Regular.flushLog (hs : Regular s) : Regular s.flushLog := by
  by_cases hempty : s.messages = []
  · rw [State.flushLog, if_pos hempty]
    exact hs
  · rw [flushLog_of_ne hempty]
    let t : State := { s.print 0 with messages := [] }
    refine ⟨hs.used, ?_⟩
    by_cases hout : s.out = .stderr
    · exact ((flush_other t).1 hout).trans (((print_other 0 s).1 hout).trans hs.byFile)
    · exact (held_file (s := t.flush) hout).symm.trans (held_flush t)

theorem Settled.flushLog (hs : Settled s) :
    s.flushLog.heldByStderr = [] ∧ Entry s.books s.flushLog.books (some s.accepted) := by
  have hdrained : s.flushLog.heldByStderr = [] ∧
      s.flushLog.books = ⟨s.books.output ++ s.books.buffer, [], s.books.accepted ++ []⟩ := by
    by_cases hempty : s.messages = []
    · rw [State.flushLog, if_pos hempty]
      exact ⟨hs.byStderr, by simp [State.books, hempty]⟩
    · let t : State := { s.print 0 with messages := [] }
      have hheld : s.held = [] := by
        by_cases hout : s.out = .stderr
        · exact (held_stderr hout).trans hs.byStderr
        · exact (held_file hout).trans hs.byFile
      have hprinted : t.flush.output = s.output ++ s.messages := by
        rw [output_flush]
        exact (output_print 0 s).trans (by rw [hheld, List.nil_append])
      rw [flushLog_of_ne hempty]
      constructor
      · by_cases hout : s.out = .stderr
        · exact (held_stderr (s := t.flush) hout).symm.trans (held_flush t)
        · exact ((flush_other t).2 hout).trans (((print_other 0 s).2 hout).trans hs.byStderr)
      · change Books.mk t.flush.output [] s.accepted = _
        rw [hprinted, List.append_nil]
        rfl
  refine ⟨hdrained.1, ?_⟩
  rw [hdrained.2]
  exact .drained []

theorem shutdown_eq (cfg : Config) (env : Env) (s : State) : s.shutdown cfg env =
    let t := s.info cfg env "------- Shutting down Logger ----------------------"
    if s.logFlusher then t.drain env.spilled t.messages else t := by
  let t := s.info cfg env "------- Shutting down Logger ----------------------"
  have hflusher : t.logFlusher = s.logFlusher := logFlusher_handleMessage
  rw [State.shutdown, hflusher]
  rfl

theorem Regular.shutdown (hs : Regular s) : Regular (s.shutdown cfg env) := by
  have hinfo : Regular (s.info cfg env "------- Shutting down Logger ----------------------") :=
    hs.handleMessage
  rw [shutdown_eq]
  dsimp only
  split
  · exact hinfo.drain _ _
  · exact hinfo

/-- A shutdown leaves messages with the writer of stderr if its message finds them left there, or if
it prints to stderr itself. -/
theorem Settled.shutdown (hs : Settled s) :
    (s.shutdown cfg env).heldByStderr = [] ↔ ¬ Left cfg s (.shutdown env) := by
  let t := s.info cfg env "------- Shutting down Logger ----------------------"
  have ht : Regular t := hs.toRegular.handleMessage
  have hheld : t.heldByStderr = [] ↔ ¬ LeftByRotation env s := hs.handleMessage
  have hout : t.out = .stderr ↔ _ := out_handleMessage
  have hbuffer : t.messages ≠ [] := handleMessage_buffer
  rw [shutdown_eq, Left, ← hout, not_or]
  cases s.logFlusher with
  | false => simpa using hheld
  | true =>
    rw [if_pos rfl, and_iff_right rfl]
    by_cases hstderr : t.out = .stderr
    · have hnil := (drain_stderr env.spilled t.messages ht hstderr).2
      rw [hnil, List.append_eq_nil_iff]
      exact iff_of_false (fun hno => hbuffer hno.2) fun hno => hno.2 hstderr
    · have hsame := (drain_file env.spilled t.messages ht hstderr).2
      rw [hsame, hheld]
      exact (and_iff_left hstderr).symm

theorem Regular.call (hs : Regular s) : Regular (call cfg s a) := by
  cases a with
  | start date now opened env =>
    have hopen := hs.openLog cfg date now opened
    exact Regular.handleMessage (s := { s.openLog cfg date now opened with logFlusher := true })
      ⟨hopen.used, hopen.byFile⟩
  | log tag message e env =>
    rw [KLogger.call]
    split
    · exact hs
    · exact hs.handleMessage
  | flushLog => exact hs.flushLog
  | shutdown env => exact hs.shutdown

/-- What the writers hold after a call is what it has left with that of stderr. -/
theorem Settled.call (hs : Settled s) : (call cfg s a).withWriters = [] ↔ ¬ Left cfg s a := by
  rw [hs.toRegular.call.withWriters]
  cases a with
  | start date now opened env =>
    have hopen := hs.openLog cfg date now opened
    exact Settled.handleMessage (s := { s.openLog cfg date now opened with logFlusher := true })
      ⟨⟨hopen.used, hopen.byFile⟩, hopen.byStderr⟩
  | log tag message e env =>
    rw [KLogger.call, Left]
    split
    · rename_i hdebug
      exact iff_of_true hs.byStderr fun hleft => hleft.1 hdebug
    · rename_i hdebug
      rw [and_iff_right hdebug]
      exact hs.handleMessage
  | flushLog => exact iff_of_true hs.flushLog.1 not_false
  | shutdown env => exact hs.shutdown

theorem call_entry (hs : Settled s) (hleft : ¬ Left cfg s a) (ha : ¬ ShutsDown s a) :
    Entry s.books (call cfg s a).books (due cfg s a) := by
  cases a with
  | start date now opened env =>
    have hopen := hs.openLog cfg date now opened
    have haccepted := (s.openLog_frame cfg date now opened).2.2.2.1
    let t : State := { s.openLog cfg date now opened with logFlusher := true }
    have ht : Settled t := ⟨⟨hopen.used, hopen.byFile⟩, hopen.byStderr⟩
    have hentry : Entry t.books (call cfg s (.start date now opened env)).books _ :=
      handleMessage_entry ht hleft
    have hbooks : t.books = s.books := hs.books_openLog cfg date now opened
    rw [hbooks] at hentry
    rw [due, ← haccepted]
    exact hentry
  | log tag message e env =>
    by_cases hdebug : tag = .DEBUG ∧ cfg.servletDebug = false
    · rw [call, due, if_pos hdebug, if_pos hdebug]
      have hbooks : s.books = ⟨s.books.output, s.books.buffer ++ [], s.books.accepted ++ []⟩ := by
        simp
      nth_rewrite 2 [hbooks]
      exact .quiet []
    · rw [call, due, if_neg hdebug, if_neg hdebug]
      exact handleMessage_entry hs fun hrotation => hleft ⟨hdebug, hrotation⟩
  | flushLog => exact hs.flushLog.2
  | shutdown env =>
    have hflusher : ¬ s.logFlusher = true := fun hflusher => ha ⟨hflusher, env, rfl⟩
    rw [call, due, if_neg hflusher, shutdown_eq]
    dsimp only
    rw [if_neg hflusher]
    exact handleMessage_entry hs fun hrotation => hleft (.inl hrotation)

theorem Entry.total {b b' : Books} {messages : Option (List Message)} (h : Entry b b' messages) :
    ∃ new, b'.output ++ b'.buffer = b.output ++ b.buffer ++ new ∧
      b'.accepted = b.accepted ++ new := by
  cases h with
  | quiet new => exact ⟨new, (List.append_assoc _ _ _).symm, rfl⟩
  | drained new => exact ⟨new, rfl, rfl⟩

theorem Entry.of_none {b b' : Books} (h : Entry b b' none) :
    ∃ new, b'.output = b.output ∧ b'.buffer = b.buffer ++ new ∧
      b'.accepted = b.accepted ++ new := by
  cases h with
  | quiet new => exact ⟨new, rfl, rfl, rfl⟩

theorem Entry.of_some {b b' : Books} {messages : List Message} (h : Entry b b' (some messages)) :
    messages = b.accepted ∧ b'.output = b.output ++ b.buffer := by
  cases h with
  | drained _ => exact ⟨rfl, rfl⟩

/-- A shutdown that leaves nothing prints its message with those in the buffer, which keeps it. -/
theorem shutdown_books (hs : Settled s) (hflusher : s.logFlusher = true)
    (hleft : ¬ Left cfg s (.shutdown env)) :
    ∃ messages buffer, buffer ≠ [] ∧ (s.shutdown cfg env).books =
      ⟨s.books.output ++ s.books.buffer ++ messages, buffer, s.books.accepted ++ messages⟩ := by
  let t := s.info cfg env "------- Shutting down Logger ----------------------"
  rw [Left, not_or] at hleft
  have ht : Regular t := hs.toRegular.handleMessage
  have hentry : Entry s.books t.books _ := handleMessage_entry hs hleft.1
  have hout : t.out = .stderr ↔ _ := out_handleMessage
  have hfile : ¬ t.out = .stderr := fun hstderr => hleft.2 ⟨hflusher, hout.mp hstderr⟩
  have hdrained := (drain_file env.spilled t.messages ht hfile).1
  obtain ⟨messages, houtput, haccepted⟩ := hentry.total
  refine ⟨messages, t.books.buffer, handleMessage_buffer, ?_⟩
  have haccepted' : (t.drain env.spilled t.messages).accepted = t.books.accepted :=
    (State.closeLog_frame _).2.2.2.2.2.1
  have hmessages : (t.drain env.spilled t.messages).messages = t.books.buffer :=
    (State.closeLog_frame _).1
  have hshutdown : s.shutdown cfg env = t.drain env.spilled t.messages := by
    rw [shutdown_eq]
    exact if_pos hflusher
  rw [hshutdown, State.books, hdrained, hmessages, haccepted', haccepted, ← houtput]
  rfl

/-- Until the logger is shut down its books balance; from then on the buffer begins with messages
that were written before. -/
structure Accounted (cfg : Config) (h : List Call) (s : State) : Prop where
  settled : Settled s
  balanced : ¬ ShutDown cfg h → s.books.output ++ s.books.buffer = s.books.accepted
  repeats : ShutDown cfg h → s.logFlusher = true ∧ ∃ old new, old ≠ [] ∧
    s.books.buffer = old ++ new ∧ s.books.output ++ new = s.books.accepted

theorem accounted_init : Accounted cfg [] init := by
  refine ⟨settled_init, fun _ => rfl, fun hdown => ?_⟩
  exact absurd hdown not_occurred_nil

theorem drained_iff (hs : Settled s) (hleft : ¬ Left cfg s a) (hdue : due cfg s a = some messages) :
    (call cfg s a).books.output = messages ↔
      s.books.output ++ s.books.buffer = s.books.accepted := by
  have hdrained : ∃ new, (call cfg s a).books.output = s.books.output ++ s.books.buffer ++ new ∧
      messages = s.books.accepted ++ new := by
    by_cases ha : ShutsDown s a
    · obtain ⟨hflusher, env, rfl⟩ := ha
      obtain ⟨new, buffer, _, hbooks⟩ := shutdown_books hs hflusher hleft
      rw [due, if_pos hflusher, Option.some.injEq] at hdue
      refine ⟨new, congrArg Books.output hbooks, ?_⟩
      rw [← hdue]
      exact congrArg Books.accepted hbooks
    · have hentry := call_entry hs hleft ha
      rw [hdue] at hentry
      obtain ⟨haccepted, houtput⟩ := hentry.of_some
      exact ⟨[], by rw [houtput, List.append_nil], by rw [haccepted, List.append_nil]⟩
  obtain ⟨new, houtput, rfl⟩ := hdrained
  rw [houtput, List.append_cancel_right_eq]

theorem due_of_left (hleft : Left cfg s a) : due cfg s a ≠ none := by
  cases a with
  | start date now opened env =>
    rw [due, if_pos hleft.1]
    exact Option.some_ne_none _
  | log tag message e env =>
    rw [due, if_neg hleft.1, if_pos hleft.2.1]
    exact Option.some_ne_none _
  | flushLog => exact absurd hleft not_false
  | shutdown env =>
    rw [due]
    split
    · exact Option.some_ne_none _
    · rename_i hflusher
      have hrotation := hleft.resolve_right fun hno => hflusher hno.1
      rw [if_pos hrotation.1]
      exact Option.some_ne_none _

/-- The call drains nothing after a shutdown, and leaves nothing with the writer of stderr. -/
def Clean (cfg : Config) (h : List Call) (s : State) (a : Call) : Prop :=
  (ShutDown cfg h → due cfg s a = none) ∧ ¬ Left cfg s a

theorem Accounted.written_iff (haccounted : Accounted cfg h s) :
    Written cfg s a ↔ Clean cfg h s a := by
  have hs := haccounted.settled
  cases hdue : due cfg s a with
  | none =>
    refine iff_of_true (fun messages hno => ?_) ⟨fun _ => hdue, fun hleft => due_of_left hleft hdue⟩
    rw [hdue] at hno
    cases hno
  | some messages =>
    have hwritten : Written cfg s a ↔
        (call cfg s a).output = messages ∧ (call cfg s a).withWriters = [] := by
      simp [Written, hdue, State.output]
    rw [hwritten, hs.call, Clean, hdue]
    refine and_congr_left fun hleft => (drained_iff hs hleft hdue).trans ?_
    by_cases hdown : ShutDown cfg h
    · obtain ⟨_, old, new, hold, hbuffer, haccepted⟩ := haccounted.repeats hdown
      have hunbalanced : s.books.output ++ s.books.buffer ≠ s.books.accepted := by
        intro hbalanced
        rw [hbuffer, ← haccepted, List.append_cancel_left_eq] at hbalanced
        exact hold (List.append_left_eq_self.mp hbalanced)
      simp [hdown, hunbalanced]
    · simp [hdown, haccounted.balanced hdown]

theorem logFlusher_call (hflusher : s.logFlusher = true) : (call cfg s a).logFlusher = true := by
  cases a with
  | start date now opened env => exact logFlusher_handleMessage
  | log tag message e env =>
    rw [call]
    split
    · exact hflusher
    · exact logFlusher_handleMessage.trans hflusher
  | flushLog =>
    rw [call, State.flushLog]
    split
    · exact hflusher
    · exact hflusher
  | shutdown env =>
    let t := s.info cfg env "------- Shutting down Logger ----------------------"
    have hinfo : t.logFlusher = true := logFlusher_handleMessage.trans hflusher
    rw [call, State.shutdown, if_pos hinfo]
    exact (State.closeLog_frame _).2.2.2.1.trans hinfo

theorem Accounted.kept (haccounted : Accounted cfg h s)
    (he : exec (total (call cfg)) init h = some s) (hclean : Clean cfg h s a) :
    Accounted cfg (h ++ [a]) (call cfg s a) := by
  have hs := haccounted.settled
  have hsettled : Settled (call cfg s a) := by
    have hheld := hs.call.mpr hclean.2
    rw [hs.toRegular.call.withWriters] at hheld
    exact ⟨hs.toRegular.call, hheld⟩
  have hsnoc : ShutDown cfg (h ++ [a]) ↔ ShutDown cfg h ∨ ShutsDown s a := occurred_snoc he
  refine ⟨hsettled, ?_, ?_⟩
  · intro hdown
    rw [hsnoc, not_or] at hdown
    obtain ⟨new, houtput, haccepted⟩ := (call_entry hs hclean.2 hdown.2).total
    rw [houtput, haccepted, haccounted.balanced hdown.1]
  · intro hdown'
    by_cases ha : ShutsDown s a
    · obtain ⟨hflusher, env, rfl⟩ := ha
      have hdown : ¬ ShutDown cfg h := by
        intro hdown
        have hnone := hclean.1 hdown
        rw [due, if_pos hflusher] at hnone
        cases hnone
      obtain ⟨new, buffer, hbuffer, hbooks⟩ := shutdown_books hs hflusher hclean.2
      refine ⟨logFlusher_call hflusher, buffer, [], hbuffer, ?_, ?_⟩
      · rw [call, hbooks, List.append_nil]
      · rw [call, hbooks, haccounted.balanced hdown, List.append_nil]
    · have hdown := (hsnoc.mp hdown').resolve_right ha
      obtain ⟨hflusher, old, new, hold, hbuffer, haccepted⟩ := haccounted.repeats hdown
      have hentry := call_entry hs hclean.2 ha
      rw [hclean.1 hdown] at hentry
      obtain ⟨messages, houtput, hbuffer', haccepted'⟩ := hentry.of_none
      refine ⟨logFlusher_call hflusher, old, new ++ messages, hold, ?_, ?_⟩
      · rw [hbuffer', hbuffer, List.append_assoc]
      · rw [houtput, haccepted', ← haccepted, List.append_assoc]

/-- Every drain of a run leaves in the output exactly the messages accepted before it, in their
order, and none with a writer, just when no flush, no rotation and no shutdown comes after a
shutdown, and none of them prints to stderr what is not flushed there. -/
theorem written_once_iff :
    Run (total (call cfg)) (fun _ s a => Written cfg s a) init h s ↔
      Run (total (call cfg)) (Clean cfg) init h s := by
  constructor
  · apply Run.weaken_of_invariant (Accounted cfg) accounted_init
    · intro h s a s' hr haccounted hwritten hs
      cases hs
      exact haccounted.kept hr.exec_eq (haccounted.written_iff.mp hwritten)
    · intro h s a s' haccounted _ hwritten
      exact haccounted.written_iff.mp hwritten
  · apply Run.weaken_of_invariant (Accounted cfg) accounted_init
    · intro h s a s' hr haccounted hclean hs
      cases hs
      exact haccounted.kept hr.exec_eq hclean
    · intro h s a s' haccounted _ hclean
      exact haccounted.written_iff.mpr hclean

def noon : Env := ⟨1, 43200000, 43200000, true, 0⟩

/-- A logger that is shut down and started again flushes what it has written once more. -/
theorem written_again :
    ∃ s, Run (total (call ⟨"ia.log", false⟩)) AnyStep init
      [.start 43200000 43200000 true noon, .shutdown noon, .start 43200000 43200000 true noon] s ∧
      s.accepted.length = 3 ∧ (call ⟨"ia.log", false⟩ s .flushLog).written.length = 5 ∧
      ¬ Written ⟨"ia.log", false⟩ s .flushLog := by
  refine ⟨_, run_anyStep_iff.mpr rfl, by decide +kernel, by decide +kernel, ?_⟩
  intro hwritten
  have hlength := congrArg List.length (hwritten _ rfl).1
  revert hlength
  decide +kernel

/-- Without a file the messages of a shutdown stay with the writer of stderr. -/
example : let s := call ⟨"ia.log", false⟩ init (.start 43200000 43200000 false noon)
    (call ⟨"ia.log", false⟩ s (.shutdown noon)).written = [] ∧
      (call ⟨"ia.log", false⟩ s (.shutdown noon)).heldByStderr.length = 2 := by
  decide +kernel

end InsightsAssist.KLogger
