import InsightsAssist.Runs

/-! A native job. The spawned process writes lines and exits, the stream consumer feeds it the code
and copies its lines to the out file, the thread of the job waits for the exit and closes the out
stream. The three take their steps in any order, from the start of the consumer on. -/
namespace InsightsAssist.NativeJobs
open Runs

inductive JOB_EXECUTOR where
  | BASH
  | NONE
  | PERL
  | PYTHON
  | SQL
  deriving DecidableEq, Repr

namespace StreamConsumer

def PARAMMARKER : String := "#PARAMS#"

/-- The line that passes the params, and whether the marker is no longer looked for. -/
def paramsCode (jobExecutor : JOB_EXECUTOR) (scriptParams : String) : String × Bool :=
  match jobExecutor with
  | .PYTHON => ("main('" ++ scriptParams ++ "')", true)
  | .BASH => ("main " ++ scriptParams, true)
  | .PERL => ("my $file=" ++ scriptParams ++ ";", false)
  | .NONE | .SQL => ("", false)

def substitute (code : String) : Bool → List String → List String
  | _, [] => []
  | paramsDone, line :: lines =>
    if !paramsDone && line == PARAMMARKER then code :: substitute code true lines
    else line :: substitute code paramsDone lines

/-- What the process is fed. For Python the last line is the execution. -/
def feedCode (jobExecutor : JOB_EXECUTOR) (scriptParams : String) (lines : List String) :
    List String :=
  let (code, paramsDone) := paramsCode jobExecutor scriptParams
  substitute code paramsDone lines ++ if jobExecutor = .PYTHON then [code] else []

theorem substitute_done (code : String) (lines : List String) :
    substitute code true lines = lines := by
  induction lines with
  | nil => rfl
  | cons line lines ih => simp [substitute, ih]

theorem substitute_marker (code : String) {pre post : List String} (hpre : PARAMMARKER ∉ pre) :
    substitute code false (pre ++ PARAMMARKER :: post) = pre ++ code :: post := by
  induction pre with
  | nil => simp [substitute, substitute_done]
  | cons line pre ih =>
    rw [List.mem_cons, not_or] at hpre
    simp [substitute, Ne.symm hpre.1, ih hpre.2]

end StreamConsumer

/-- Where the stream consumer is. An exception of `toJson` is not caught. -/
inductive Consumer where
  | starting
  | feeding (lines : List String)
  | reading
  | printing (line : String)
  | finished
  | failed
  | died
  deriving DecidableEq, Repr

namespace Consumer

def isStreamConsumerRunning : Consumer → Bool
  | .finished | .failed => false
  | _ => true

/-- The line read and not yet printed. -/
def hand : Consumer → List String
  | .printing line => [line]
  | _ => []

end Consumer

/-- Where `runNativeCommand` is. `ending` is its finally block. -/
inductive Thread where
  | waiting
  | polling (count : Nat) (retCode : Int)
  | closing (retCode : Int)
  | closed (retCode : Int)
  | ending (retCode : Int)
  | returned (retCode : Int)
  deriving DecidableEq, Repr

inductive JobClass where
  | NativeJob
  | NativeJobHandler
  deriving DecidableEq, Repr

/-- `scriptParams` is what `toJson` makes of the params; `none` is an exception. -/
structure Job where
  jobClass : JobClass
  jobExecutor : JOB_EXECUTOR
  code : List String
  scriptParams : Option String

/-- Beside the state of the parties: the lines that the process wrote, those of them that are in
the pipe, the lines fed and those in the out file. -/
structure State where
  exitCode : Option Int
  written : List String
  pipe : List String
  consumer : Consumer
  fed : List String
  out : List String
  outClosed : Bool
  thread : Thread
  deriving DecidableEq, Repr

def init : State := ⟨none, [], [], .starting, [], [], false, .waiting⟩

inductive Step where
  | write (line : String)
  | exit (exitCode : Int)
  | toJson
  | feedLine
  | readLine
  | println
  | endOfStream
  | exception
  | waitFor
  | interrupted
  | poll (interrupted : Bool)
  | close
  | postProcess (retCode : Option Int)
  | finish
  deriving DecidableEq, Repr

def State.pending (s : State) : List String := s.consumer.hand ++ s.pipe

def processStep (s : State) : Step → Option State
  | .write line => some { s with written := s.written ++ [line], pipe := s.pipe ++ [line] }
  | .exit exitCode => some { s with exitCode := some exitCode }
  | _ => none

/-- A print to a closed stream only sets the error flag of the writer. An exception may come while
the consumer feeds or reads, for instance because the job has closed the streams of the process. -/
def consumerStep (job : Job) (s : State) : Consumer → Step → Option State
  | .starting, .toJson =>
    match job.scriptParams with
    | none => some { s with consumer := .died }
    | some scriptParams =>
      some { s with
        consumer := .feeding (StreamConsumer.feedCode job.jobExecutor scriptParams job.code) }
  | .feeding (line :: lines), .feedLine =>
    some { s with consumer := .feeding lines, fed := s.fed ++ [line] }
  | .feeding [], .feedLine => some { s with consumer := .reading }
  | .reading, .readLine =>
    match s.pipe with
    | [] => none
    | line :: pipe => some { s with consumer := .printing line, pipe := pipe }
  | .printing line, .println =>
    some { s with consumer := .reading, out := if s.outClosed then s.out else s.out ++ [line] }
  | .reading, .endOfStream =>
    if s.pipe = [] ∧ s.exitCode.isSome then some { s with consumer := .finished } else none
  | .feeding _, .exception => some { s with consumer := .failed }
  | .reading, .exception => some { s with consumer := .failed }
  | _, _ => none

/-- After `waitFor` a NativeJob sleeps up to five times until the consumer has stopped, and
post-processes the closed file. -/
def threadStep (job : Job) (s : State) : Thread → Step → Option State
  | .waiting, .waitFor =>
    match s.exitCode, job.jobClass with
    | none, _ => none
    | some retCode, .NativeJob => some { s with thread := .polling 0 retCode }
    | some retCode, .NativeJobHandler => some { s with thread := .closing retCode }
  | .waiting, .interrupted => some { s with thread := .ending 1 }
  | .polling count retCode, .poll interrupted =>
    if s.consumer.isStreamConsumerRunning ∧ ¬ 5 < count + 1 ∧ interrupted = false then
      some { s with thread := .polling (count + 1) retCode }
    else some { s with thread := .closing retCode }
  | .closing retCode, .close =>
    match job.jobClass with
    | .NativeJob => some { s with outClosed := true, thread := .closed retCode }
    | .NativeJobHandler => some { s with outClosed := true, thread := .ending retCode }
  | .closed _, .postProcess retCode => some { s with thread := .ending (retCode.getD 1) }
  | .ending retCode, .finish => some { s with thread := .returned retCode }
  | _, _ => none

def step (job : Job) (s : State) (a : Step) : Option State :=
  match a with
  | .write _ | .exit _ => if s.exitCode = none then processStep s a else none
  | .toJson | .feedLine | .readLine | .println | .endOfStream | .exception =>
    consumerStep job s s.consumer a
  | .waitFor | .interrupted | .poll _ | .close | .postProcess _ | .finish =>
    threadStep job s s.thread a

/-- The step is the one at which the out file is to be complete: the call of `postProcess` in a
NativeJob, the return of a NativeJobHandler. -/
def NeedsOutput (job : Job) (a : Step) : Prop :=
  match job.jobClass with
  | .NativeJob => ∃ retCode, a = .postProcess retCode
  | .NativeJobHandler => a = .finish

/-- Nothing is left to be copied when the out stream is closed, nor at the end of a job whose wait
was interrupted, so that it never closes the stream. -/
def NothingPending (s : State) (a : Step) : Prop :=
  match a with
  | .close => s.pending = []
  | .finish => s.outClosed = true ∨ s.pending = []
  | _ => True

instance (s : State) (a : Step) : Decidable (NothingPending s a) :=
  match a with
  | .close => inferInstanceAs (Decidable (s.pending = []))
  | .finish => inferInstanceAs (Decidable (s.outClosed = true ∨ s.pending = []))
  | .write _ | .exit _ | .toJson | .feedLine | .readLine | .println | .endOfStream | .exception
  | .waitFor | .interrupted | .poll _ | .postProcess _ => isTrue trivial

namespace Thread

def beforeClose : Thread → Bool
  | .waiting | .polling _ _ | .closing _ => true
  | _ => false

/-- The thread has seen the exit of the process and has not left the try block. -/
def afterExit : Thread → Bool
  | .polling _ _ | .closing _ | .closed _ => true
  | _ => false

end Thread

variable {job : Job} {s s' : State} {a : Step} {h : List Step}

/-- What a step of the process does: it can write until it exits. -/
structure ProcessEffect (s s' : State) : Prop where
  running : s.exitCode = none
  out : s'.out = s.out
  outClosed : s'.outClosed = s.outClosed
  thread : s'.thread = s.thread
  consumer : s'.consumer = s.consumer
  fed : s'.fed = s.fed
  wrote : ∃ lines, s'.written = s.written ++ lines ∧ s'.pending = s.pending ++ lines

/-- What a step of the consumer does: it copies to an open file and leaves a closed one alone. -/
structure ConsumerEffect (s s' : State) : Prop where
  written : s'.written = s.written
  exitCode : s'.exitCode = s.exitCode
  outClosed : s'.outClosed = s.outClosed
  thread : s'.thread = s.thread
  copied : s.outClosed = false → s'.out ++ s'.pending = s.out ++ s.pending
  vanished : s.outClosed = true → s'.out = s.out
  finished : s'.consumer = .finished → s.exitCode.isSome ∧ s'.pending = []

/-- What a step of the job does: it closes the file once, after the exit unless its wait was
interrupted. -/
structure ThreadEffect (s s' : State) (a : Step) : Prop where
  out : s'.out = s.out
  written : s'.written = s.written
  exitCode : s'.exitCode = s.exitCode
  consumer : s'.consumer = s.consumer
  fed : s'.fed = s.fed
  pipe : s'.pipe = s.pipe
  afterExit : s'.thread.afterExit → s.exitCode.isSome ∨ s.thread.afterExit
  beforeClose : s'.thread.beforeClose → s.thread.beforeClose
  closed : ∀ retCode, s'.thread = .closed retCode → a = .close
  outClosed : a ≠ .close → s'.outClosed = s.outClosed
  closes : a = .close →
    s.thread.beforeClose ∧ s.thread.afterExit ∧ s'.thread.beforeClose = false ∧ s'.outClosed = true
  goes_on : ∀ retCode, s.thread ≠ .returned retCode
  returns : a = .finish → ∃ retCode, s'.thread = .returned retCode

theorem process_effect (hexit : s.exitCode = none) (hs : processStep s a = some s') :
    ProcessEffect s s' := by
  revert hs
  fun_cases processStep s a <;> intro hs
  case case1 line =>
    cases hs
    exact ⟨hexit, rfl, rfl, rfl, rfl, rfl, [line], rfl, (List.append_assoc _ _ _).symm⟩
  case case2 => 
    cases hs
    exact ⟨hexit, rfl, rfl, rfl, rfl, rfl, [], (List.append_nil _).symm, (List.append_nil _).symm⟩
  case case3 => cases hs

theorem consumer_effect {c : Consumer} (hc : s.consumer = c)
    (hs : consumerStep job s c a = some s') : ConsumerEffect s s' := by
  revert hs
  fun_cases consumerStep job s c a <;> intro hs
  case case5 | case9 | case12 => cases hs
  case case6 line pipe hpipe =>
    cases hs
    constructor <;> simp [State.pending, hc, hpipe, Consumer.hand]
  case case7 line =>
    cases hs
    -- the line moves to the file when that is open
    constructor <;> simp +contextual [State.pending, hc, Consumer.hand]
  case case8 hend =>
    cases hs
    constructor <;> simp [State.pending, hc, hend, Consumer.hand]
  all_goals
    cases hs
    constructor <;> simp [State.pending, hc, Consumer.hand]

theorem thread_effect {t : Thread} (ht : s.thread = t) (hs : threadStep job s t a = some s') :
    ThreadEffect s s' a := by
  revert hs
  fun_cases threadStep job s t a <;> intro hs
  case case1 | case11 => cases hs
  all_goals
    cases hs
    constructor <;> simp_all [Thread.afterExit, Thread.beforeClose]

/-- Which of the three a step is of. Only the job closes the file and ends the run. -/
theorem step_effect (hs : step job s a = some s') :
    (ProcessEffect s s' ∧ a ≠ .close ∧ a ≠ .finish) ∨
      (ConsumerEffect s s' ∧ a ≠ .close ∧ a ≠ .finish) ∨ ThreadEffect s s' a := by
  cases a with
  | write line | exit exitCode =>
    obtain ⟨hexit, hs⟩ := Option.ite_none_right_eq_some.mp hs
    refine .inl ⟨process_effect hexit hs, ?_, ?_⟩ <;> simp
  | toJson | feedLine | readLine | println | endOfStream | exception =>
    refine .inr (.inl ⟨consumer_effect rfl hs, ?_, ?_⟩) <;> simp
  | waitFor | interrupted | poll interrupted | close | postProcess retCode | finish =>
    exact .inr (.inr (thread_effect rfl hs))

/-- What holds in every state: until the file is closed the lines not in it are pending, and it is
closed after the exit. -/
structure Sound (s : State) : Prop where
  copied : s.outClosed = false → s.written = s.out ++ s.pending
  exited : s.outClosed = true → s.exitCode.isSome
  waited : s.thread.afterExit → s.exitCode.isSome
  opened : s.thread.beforeClose → s.outClosed = false
  closed : ∀ retCode, s.thread = .closed retCode → s.outClosed = true
  finished : s.consumer = .finished → s.exitCode.isSome ∧ s.pending = []

theorem Sound.process (hsound : Sound s) (he : ProcessEffect s s') : Sound s' := by
  have hopen : s.outClosed = false := by
    by_contra hclosed
    have hexit := hsound.exited (by simpa using hclosed)
    simp [he.running] at hexit
  have hno {p : Prop} (hp : s.exitCode.isSome) : p := by simp [he.running] at hp
  obtain ⟨lines, hwritten, hpending⟩ := he.wrote
  constructor
  · intro _
    rw [hwritten, hpending, he.out, hsound.copied hopen, List.append_assoc]
  · intro hclosed
    rw [he.outClosed, hopen] at hclosed
    cases hclosed
  · intro hafter
    exact hno (hsound.waited (he.thread ▸ hafter))
  · intro _
    rw [he.outClosed, hopen]
  · intro retCode hclosed
    rw [he.outClosed]
    exact hsound.closed retCode (he.thread ▸ hclosed)
  · intro hfinished
    exact hno (hsound.finished (he.consumer ▸ hfinished)).1

theorem Sound.consumer (hsound : Sound s) (he : ConsumerEffect s s') : Sound s' := by
  constructor
  · intro hopen
    rw [he.outClosed] at hopen
    rw [he.written, he.copied hopen, hsound.copied hopen]
  · intro hclosed
    rw [he.exitCode]
    exact hsound.exited (he.outClosed ▸ hclosed)
  · intro hafter
    rw [he.exitCode]
    exact hsound.waited (he.thread ▸ hafter)
  · intro hbefore
    rw [he.outClosed]
    exact hsound.opened (he.thread ▸ hbefore)
  · intro retCode hclosed
    rw [he.outClosed]
    exact hsound.closed retCode (he.thread ▸ hclosed)
  · intro hfinished
    rw [he.exitCode]
    exact he.finished hfinished

theorem ThreadEffect.pending (he : ThreadEffect s s' a) : s'.pending = s.pending := by
  rw [State.pending, State.pending, he.consumer, he.pipe]

theorem Sound.thread (hsound : Sound s) (he : ThreadEffect s s' a) : Sound s' := by
  constructor
  · intro hopen
    have ha : a ≠ .close := fun ha => by simp [(he.closes ha).2.2.2] at hopen
    rw [he.out, he.written, he.pending]
    exact hsound.copied (he.outClosed ha ▸ hopen)
  · intro hclosed
    rw [he.exitCode]
    by_cases ha : a = .close
    · exact hsound.waited (he.closes ha).2.1
    · exact hsound.exited (he.outClosed ha ▸ hclosed)
  · intro hafter
    rw [he.exitCode]
    obtain hexit | hafter := he.afterExit hafter
    · exact hexit
    · exact hsound.waited hafter
  · intro hbefore
    have ha : a ≠ .close := fun ha => by simp [(he.closes ha).2.2.1] at hbefore
    rw [he.outClosed ha]
    exact hsound.opened (he.beforeClose hbefore)
  · intro retCode hclosed
    exact (he.closes (he.closed retCode hclosed)).2.2.2
  · intro hfinished
    rw [he.exitCode, he.pending]
    exact hsound.finished (he.consumer ▸ hfinished)

theorem Sound.kept (hsound : Sound s) (hs : step job s a = some s') : Sound s' := by
  obtain ⟨he, _⟩ | ⟨he, _⟩ | he := step_effect hs
  · exact hsound.process he
  · exact hsound.consumer he
  · exact hsound.thread he

theorem sound_init : Sound init := by
  constructor <;> simp [init, State.pending, Consumer.hand, Thread.afterExit]

theorem Sound.nothingPending (hsound : Sound s) (hfinished : s.consumer = .finished) :
    NothingPending s a := by
  have hempty := (hsound.finished hfinished).2
  cases a with
  | close => exact hempty
  | finish => exact .inr hempty
  | _ => trivial

theorem nothingPending_of_ne (hclose : a ≠ .close) (hfinish : a ≠ .finish) :
    NothingPending s a := by
  cases a with
  | close => exact absurd rfl hclose
  | finish => exact absurd rfl hfinish
  | _ => trivial

/-- The process has been fed what the consumer has gone through of its code. -/
def Fed (job : Job) (s : State) : Prop :=
  match s.consumer with
  | .starting => s.fed = []
  | .feeding lines => ∃ scriptParams, job.scriptParams = some scriptParams ∧
      s.fed ++ lines = StreamConsumer.feedCode job.jobExecutor scriptParams job.code
  | .reading | .printing _ | .finished => ∃ scriptParams, job.scriptParams = some scriptParams ∧
      s.fed = StreamConsumer.feedCode job.jobExecutor scriptParams job.code
  | .failed | .died => True

theorem fed_consumerStep {c : Consumer} (hc : s.consumer = c) (hfed : Fed job s)
    (hs : consumerStep job s c a = some s') : Fed job s' := by
  simp only [Fed, hc] at hfed
  revert hs
  fun_cases consumerStep job s c a <;> intro hs
  case case5 | case9 | case12 => cases hs
  case case2 scriptParams hparams =>
    cases hs
    exact ⟨scriptParams, hparams, by simp [hfed]⟩
  case case3 line lines =>
    cases hs
    obtain ⟨scriptParams, hparams, hfed⟩ := hfed
    exact ⟨scriptParams, hparams, by simp [← hfed]⟩
  case case4 =>
    cases hs
    obtain ⟨scriptParams, hparams, hfed⟩ := hfed
    exact ⟨scriptParams, hparams, by simpa using hfed⟩
  case case6 | case7 | case8 =>
    cases hs
    exact hfed
  case case1 | case10 | case11 =>
    cases hs
    trivial

theorem fed_of_run (hr : Run (step job) AnyStep init h s) : Fed job s := by
  have hinit : Fed job init := by
    simp only [Fed, init]
  refine Run.invariant (fun _ s => Fed job s) hinit ?_ hr
  intro _ s a s' _ hfed _ hs
  have hsame (hc : s'.consumer = s.consumer) (hf : s'.fed = s.fed) : Fed job s' := by
    unfold Fed
    rw [hc, hf]
    exact hfed
  cases a with
  | toJson | feedLine | readLine | println | endOfStream | exception =>
    exact fed_consumerStep rfl hfed hs
  | write line | exit exitCode =>
    have he := process_effect (Option.ite_none_right_eq_some.mp hs).1
      (Option.ite_none_right_eq_some.mp hs).2
    exact hsame he.consumer he.fed
  | waitFor | interrupted | poll interrupted | close | postProcess retCode | finish =>
    have he : ThreadEffect s s' _ := thread_effect rfl hs
    exact hsame he.consumer he.fed

/-- Once closed, the file is complete exactly if nothing was pending then; before, no step has
dropped anything. -/
structure Balanced (job : Job) (h : List Step) (s : State) : Prop where
  sound : Sound s
  opened : s.outClosed = false → (∀ retCode, s.thread ≠ .returned retCode) →
    Run (step job) (fun _ s a => NothingPending s a) init h s
  closed : s.outClosed = true →
    (s.out = s.written ↔ Run (step job) (fun _ s a => NothingPending s a) init h s)

theorem Sound.complete_iff (hsound : Sound s) (hopen : s.outClosed = false) :
    s.out = s.written ↔ s.pending = [] := by
  rw [hsound.copied hopen]
  exact List.self_eq_append_right

theorem Sound.closed_step (hsound : Sound s) (hclosed : s.outClosed = true)
    (hs : step job s a = some s') :
    s'.outClosed = true ∧ s'.out = s.out ∧ s'.written = s.written ∧ NothingPending s a := by
  obtain ⟨he, _⟩ | ⟨he, hclose, hfinish⟩ | he := step_effect hs
  · have hexit := hsound.exited hclosed
    simp [he.running] at hexit
  · exact ⟨he.outClosed.trans hclosed, he.vanished hclosed, he.written,
      nothingPending_of_ne hclose hfinish⟩
  · have hclose : a ≠ .close := by
      rintro rfl
      have hopen := hsound.opened (he.closes rfl).1
      simp [hclosed] at hopen
    refine ⟨(he.outClosed hclose).trans hclosed, he.out, he.written, ?_⟩
    by_cases hfinish : a = .finish
    · subst hfinish
      exact .inl hclosed
    · exact nothingPending_of_ne hclose hfinish

theorem outClosed_of_open (hopen : s.outClosed = false) (hs : step job s a = some s') :
    if a = .close then
      s'.outClosed = true ∧ s'.out = s.out ∧ s'.written = s.written ∧
        ∀ retCode, s.thread ≠ .returned retCode
    else s'.outClosed = false := by
  obtain ⟨he, hclose, _⟩ | ⟨he, hclose, _⟩ | he := step_effect hs
  · rw [if_neg hclose, he.outClosed, hopen]
  · rw [if_neg hclose, he.outClosed, hopen]
  · split
    case isTrue hclose => exact ⟨(he.closes hclose).2.2.2, he.out, he.written, he.goes_on⟩
    case isFalse hclose => rw [he.outClosed hclose, hopen]

theorem goes_on_of_step (hs : step job s a = some s')
    (hgoes : ∀ retCode, s'.thread ≠ .returned retCode) :
    (∀ retCode, s.thread ≠ .returned retCode) ∧ a ≠ .finish := by
  obtain ⟨he, _, hfinish⟩ | ⟨he, _, hfinish⟩ | he := step_effect hs
  · exact ⟨he.thread ▸ hgoes, hfinish⟩
  · exact ⟨he.thread ▸ hgoes, hfinish⟩
  · refine ⟨he.goes_on, fun hfinish => ?_⟩
    obtain ⟨retCode, hreturned⟩ := he.returns hfinish
    exact hgoes retCode hreturned

theorem Balanced.kept (hr : Run (step job) AnyStep init h s) (hb : Balanced job h s)
    (hs : step job s a = some s') : Balanced job (h ++ [a]) s' := by
  have hsnoc : Run (step job) (fun _ s a => NothingPending s a) init (h ++ [a]) s' ↔
      Run (step job) (fun _ s a => NothingPending s a) init h s ∧ NothingPending s a :=
    Run.snoc_iff hr.exec_eq hs
  cases hopen : s.outClosed with
  | true =>
    obtain ⟨hclosed', hout, hwritten, hnothing⟩ := hb.sound.closed_step hopen hs
    refine ⟨hb.sound.kept hs, fun hopen' => ?_, fun _ => ?_⟩
    · simp [hclosed'] at hopen'
    · rw [hsnoc, hout, hwritten, hb.closed hopen]
      exact (and_iff_left hnothing).symm
  | false =>
    have hclose := outClosed_of_open hopen hs
    refine ⟨hb.sound.kept hs, fun hopen' hgoes' => ?_, fun hclosed' => ?_⟩
    · obtain ⟨hgoes, hfinish⟩ := goes_on_of_step hs hgoes'
      rw [hsnoc]
      refine ⟨hb.opened hopen hgoes, nothingPending_of_ne (fun ha => ?_) hfinish⟩
      rw [if_pos ha, hopen'] at hclose
      cases hclose.1
    · have ha : a = .close := by
        by_contra ha
        rw [if_neg ha, hclosed'] at hclose
        cases hclose
      subst ha
      rw [if_pos rfl] at hclose
      obtain ⟨_, hout, hwritten, hgoes⟩ := hclose
      rw [hsnoc, hout, hwritten, hb.sound.complete_iff hopen]
      exact (and_iff_right (hb.opened hopen hgoes)).symm

theorem balanced_of_run (hr : Run (step job) AnyStep init h s) : Balanced job h s := by
  refine Run.invariant (fun h s => Balanced job h s) ⟨sound_init, fun _ _ => .nil, ?_⟩ ?_ hr
  · intro hclosed
    cases hclosed
  · intro _ s a s' hr hb _ hs
    exact hb.kept hr hs

theorem closed_of_postProcess {retCode : Option Int}
    (hs : step job s (.postProcess retCode) = some s') : ∃ retCode, s.thread = .closed retCode := by
  have hs : threadStep job s s.thread (.postProcess retCode) = some s' := hs
  cases ht : s.thread with
  | closed retCode => exact ⟨retCode, rfl⟩
  | waiting | polling count retCode | closing retCode | ending retCode | returned retCode =>
    rw [ht] at hs
    cases hs

/-- When a NativeJob calls `postProcess` and when a NativeJobHandler returns, the out file contains
every line that the process wrote, in order, exactly if nothing was pending when the out stream was
closed (or at the end, for a wait that was interrupted). -/
theorem output_complete_iff (hr : Run (step job) AnyStep init h s) (hs : step job s a = some s')
    (ha : NeedsOutput job a) :
    s.out = s.written ↔
      Run (step job) (fun _ s a => NothingPending s a) init (h ++ [a]) s' := by
  have hb := balanced_of_run hr
  rw [Run.snoc_iff hr.exec_eq hs]
  cases hopen : s.outClosed with
  | true =>
    rw [hb.closed hopen]
    exact (and_iff_left (hb.sound.closed_step hopen hs).2.2.2).symm
  | false =>
    have hfinish : a = .finish := by
      unfold NeedsOutput at ha
      split at ha
      · obtain ⟨retCode, rfl⟩ := ha
        obtain ⟨retCode, hclosed⟩ := closed_of_postProcess hs
        simp [hb.sound.closed retCode hclosed] at hopen
      · exact ha
    subst hfinish
    have he : ThreadEffect s s' .finish := thread_effect rfl hs
    rw [hb.sound.complete_iff hopen, and_iff_right (hb.opened hopen he.goes_on)]
    simp [NothingPending, hopen]

def printOk (jobClass : JobClass) : Job :=
  ⟨jobClass, .PYTHON, ["def main(p): print('ok')"], some "[]"⟩

def fedAndRun : List Step :=
  [.toJson, .feedLine, .feedLine, .feedLine, .write "ok", .exit 0, .waitFor]

def copied : List Step := [.readLine, .println, .endOfStream]

/-- A consumer that is done when the stream is closed, in both classes. -/
theorem printOk_complete :
    (∃ s, Run (step (printOk .NativeJob)) AnyStep init
        (fedAndRun ++ copied ++ [.poll false, .close]) s ∧ s.out = ["ok"] ∧ s.out = s.written) ∧
    ∃ s, Run (step (printOk .NativeJobHandler)) AnyStep init (fedAndRun ++ copied ++ [.close]) s ∧
      s.out = ["ok"] ∧ s.out = s.written := by
  have hcheck (h : List Step) (s : State) (a : Step) (hc : decide (NothingPending s a) = true) :
      NothingPending s a := of_decide_eq_true hc
  constructor
  · have hr : Run (step (printOk .NativeJob)) AnyStep init
        (fedAndRun ++ copied ++ [.poll false, .close]) _ := run_anyStep_iff.mpr rfl
    refine ⟨_, hr, rfl, ?_⟩
    apply (output_complete_iff hr (a := .postProcess (some 0)) rfl ⟨_, rfl⟩).mpr
    exact run_of_exec_checked hcheck rfl
  · have hr : Run (step (printOk .NativeJobHandler)) AnyStep init
        (fedAndRun ++ copied ++ [.close]) _ := run_anyStep_iff.mpr rfl
    refine ⟨_, hr, rfl, ?_⟩
    apply (output_complete_iff hr (a := .finish) rfl rfl).mpr
    exact run_of_exec_checked hcheck rfl

/-- A handler that closes the stream as soon as the process has exited returns without the line;
a NativeJob that has waited five times for its consumer post-processes a file without it. -/
theorem line_lost :
    (∃ s, Run (step (printOk .NativeJobHandler)) AnyStep init (fedAndRun ++ [.close]) s ∧
      NeedsOutput (printOk .NativeJobHandler) .finish ∧
      (step (printOk .NativeJobHandler) s .finish).isSome ∧ s.written = ["ok"] ∧ s.out = []) ∧
    ∃ s, Run (step (printOk .NativeJob)) AnyStep init
        (fedAndRun ++ List.replicate 6 (.poll false) ++ [.readLine, .close]) s ∧
      NeedsOutput (printOk .NativeJob) (.postProcess (some 0)) ∧
      (step (printOk .NativeJob) s (.postProcess (some 0))).isSome ∧ s.written = ["ok"] ∧
      s.out = [] :=
  ⟨⟨_, run_anyStep_iff.mpr rfl, rfl, rfl, rfl, rfl⟩,
    ⟨_, run_anyStep_iff.mpr rfl, ⟨_, rfl⟩, rfl, rfl, rfl⟩⟩

end InsightsAssist.NativeJobs
