import InsightsAssist.JavaStrings
import InsightsAssist.Literals
import InsightsAssist.NativeJobs

/-! What a stream consumer feeds to the interpreter of a script: the lines of the script and one
that passes the params, after these have been logged. -/
namespace InsightsAssist.ScriptFeeds
open Java NativeJobs StreamConsumer

/-- The rest of the lines, behind the characters of a line that has begun. -/
def linesFrom : List Char → List Char → List String
  | line, [] => if line = [] then [] else [String.ofList line]
  | line, '\r' :: '\n' :: text => String.ofList line :: linesFrom [] text
  | line, '\r' :: text => String.ofList line :: linesFrom [] text
  | line, '\n' :: text => String.ofList line :: linesFrom [] text
  | line, c :: text => linesFrom (line ++ [c]) text

/-- The lines that `BufferedReader.readLine` returns of a text. -/
def readLines (text : List Char) : List String := linesFrom [] text

example : readLines "a\r\nb\n\nc\rd".toList = ["a", "b", "", "c", "d"] := by decide +kernel

/-- The lines that the interpreter has been fed, and whether the feed is closed. -/
structure Feed where
  fed : List String
  closed : Bool
  deriving DecidableEq, Repr

def start : Feed := ⟨[], false⟩

def println (line : String) : Java Feed Unit :=
  modify fun s => if s.closed then s else { s with fed := s.fed ++ [line] }

def close : Java Feed Unit := modify fun s => { s with closed := true }

def printLines : List String → Java Feed Unit
  | [] => pure ()
  | line :: lines => do
    println line
    printLines lines

variable {ν : Type}

/-- `run` up to the closing of the feed. The logging of the params stands before the try block;
`toJson` is Gson's, none where it throws. -/
def run (toJson : ν → Option String) (jobExecutor : JOB_EXECUTOR) (text : List Char) (params : ν) :
    Java Feed Unit := do
  let scriptParams ← read (toJson params)
  info ("Params is " ++ scriptParams).toList
  printLines (feedCode jobExecutor scriptParams (readLines text))
  close

/-- The lines of the script together with exactly one that passes the params. -/
def Passes (jobExecutor : JOB_EXECUTOR) (scriptParams : String) (lines fed : List String) : Prop :=
  match jobExecutor with
  | .PYTHON => fed = lines ++ ["main('" ++ scriptParams ++ "')"]
  | .BASH => fed = lines ++ ["main " ++ scriptParams]
  | .PERL => ∃ before after, lines = before ++ PARAMMARKER :: after ∧ PARAMMARKER ∉ before ∧
      fed = before ++ ("my $file=" ++ scriptParams ++ ";") :: after
  | .NONE | .SQL => False

def Feeds (toJson : ν → Option String) (jobExecutor : JOB_EXECUTOR) (text : List Char)
    (params : ν) : Prop :=
  ∃ scriptParams fed, toJson params = some scriptParams ∧
    (run toJson jobExecutor text params).run start = (.ok (), ⟨fed, true⟩) ∧
    Passes jobExecutor scriptParams (readLines text) fed

/-- The params have a JSON text, and this text is a format. -/
def Loggable (toJson : ν → Option String) (params : ν) : Prop :=
  ∃ scriptParams, toJson params = some scriptParams ∧
    formats ("Params is " ++ scriptParams).toList

variable {toJson : ν → Option String} {jobExecutor : JOB_EXECUTOR} {text : List Char} {params : ν}
  {scriptParams code : String} {lines before after : List String}

theorem run_printLines (lines fed : List String) :
    (printLines lines).run ⟨fed, false⟩ = (.ok (), ⟨fed ++ lines, false⟩) := by
  induction lines generalizing fed with
  | nil => simp [printLines]
  | cons line lines ih =>
    have hprint : (println line).run ⟨fed, false⟩ = (.ok (), ⟨fed ++ [line], false⟩) := rfl
    rw [printLines, Prog.run_bind_ok hprint, ih, List.append_assoc]
    rfl

theorem run_eq_ok {t : Feed} (hjson : toJson params = some scriptParams) :
    (run toJson jobExecutor text params).run start = (.ok (), t) ↔
      formats ("Params is " ++ scriptParams).toList ∧
        t = ⟨feedCode jobExecutor scriptParams (readLines text), true⟩ := by
  rw [run, hjson, Prog.run_bind_ok (read_some _ _)]
  cases hformats : formats ("Params is " ++ scriptParams).toList with
  | false =>
    rw [Prog.run_bind_error (info_of_not_formats hformats start)]
    simp
  | true =>
    have hclose (fed : List String) : close.run ⟨fed, false⟩ = (.ok (), ⟨fed, true⟩) := rfl
    rw [Prog.run_bind_ok (info_of_formats hformats start), start,
      Prog.run_bind_ok (run_printLines _ []), hclose, List.nil_append]
    simp [eq_comm]

theorem feeds_iff : Feeds toJson jobExecutor text params ↔
    ∃ scriptParams, toJson params = some scriptParams ∧
      formats ("Params is " ++ scriptParams).toList ∧
      Passes jobExecutor scriptParams (readLines text)
        (feedCode jobExecutor scriptParams (readLines text)) := by
  constructor
  · intro ⟨scriptParams, fed, hjson, hrun, hpasses⟩
    obtain ⟨hformats, hfed⟩ := (run_eq_ok hjson).mp hrun
    cases hfed
    exact ⟨scriptParams, hjson, hformats, hpasses⟩
  · intro ⟨scriptParams, hjson, hformats, hpasses⟩
    exact ⟨scriptParams, _, hjson, (run_eq_ok hjson).mpr ⟨hformats, rfl⟩, hpasses⟩

/-! ### The three executors -/

theorem passes_python (scriptParams : String) (lines : List String) :
    Passes .PYTHON scriptParams lines (feedCode .PYTHON scriptParams lines) := by
  simp [Passes, feedCode, paramsCode, substitute_done]

/-- The line that is built for Bash is never fed. -/
theorem not_passes_bash (scriptParams : String) (lines : List String) :
    ¬ Passes .BASH scriptParams lines (feedCode .BASH scriptParams lines) := by
  simp [Passes, feedCode, paramsCode, substitute_done]

theorem passes_perl_iff : Passes .PERL scriptParams lines (feedCode .PERL scriptParams lines) ↔
    PARAMMARKER ∈ lines := by
  constructor
  · intro ⟨before, after, hlines, _⟩
    rw [hlines]
    exact List.mem_append_right _ List.mem_cons_self
  · intro hmarker
    obtain ⟨before, after, hlines, hbefore⟩ := List.eq_append_cons_of_mem hmarker
    refine ⟨before, after, hlines, hbefore, ?_⟩
    simp only [feedCode, paramsCode, hlines, substitute_marker _ hbefore]
    exact List.append_nil _

/-- Python is fed its lines as long as the params can be logged, Perl if its script also has a
marker, and Bash is never passed its params. -/
theorem feeds_executors_iff (toJson : ν → Option String) (text : List Char) (params : ν) :
    (Feeds toJson .PYTHON text params ↔ Loggable toJson params) ∧
    ¬ Feeds toJson .BASH text params ∧
    (Feeds toJson .PERL text params ↔
      Loggable toJson params ∧ PARAMMARKER ∈ readLines text) := by
  simp only [feeds_iff, passes_python, not_passes_bash, passes_perl_iff, and_true, and_false,
    exists_false, not_false_eq_true, true_and, Loggable]
  simp only [iff_self, ← and_assoc, exists_and_right]

def textJson (params : String) : Option String :=
  some ("\"" ++ String.ofList (params.toList.flatMap Json.escape) ++ "\"")

def helloScript : List Char := "echo hello\n".toList

/-- Params with a percent sign stop the run of every executor before anything is fed; Bash and a
script without a marker are not passed their params. -/
theorem params_not_passed : ¬ Feeds textJson .PYTHON helloScript "50% off" ∧
    ¬ Feeds textJson .BASH helloScript "acme" ∧ ¬ Feeds textJson .PERL helloScript "acme" := by
  refine ⟨?_, ?_, ?_⟩
  · rw [feeds_iff]
    intro ⟨scriptParams, hjson, hformats, _⟩
    cases hjson
    revert hformats
    decide +kernel
  · rw [feeds_iff]
    intro ⟨scriptParams, _, _, hpasses⟩
    exact not_passes_bash _ _ hpasses
  · rw [feeds_iff]
    intro ⟨scriptParams, _, _, hpasses⟩
    have hmarker := passes_perl_iff.mp hpasses
    revert hmarker
    decide +kernel

end InsightsAssist.ScriptFeeds
