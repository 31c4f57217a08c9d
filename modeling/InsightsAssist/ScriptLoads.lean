import InsightsAssist.ScriptCodes

/-! The results of `getCode` while nobody writes to the script files. Reads of the streams may
throw; the decipher that the loads share keeps what it has been given of them. -/
namespace InsightsAssist.ScriptLoads
open Runs ScriptCodes

/-- The script and the code that the call in progress returns with a step. Code that it has
decrypted it returns if the stream is closed without an exception. -/
def returned (s : State) : Step → Option (String × List UInt8)
  | .lastModified => cachedAnswer s
  | .put =>
    match s.call with
    | some (.decrypted scriptName _ code) =>
      if Java.formats ("Caching code for script " ++ scriptName).toList then
        some (scriptName, code)
      else none
    | _ => none
  | _ => none

def Writes : Step → Prop
  | .write .. => True
  | _ => False

instance : DecidablePred Writes
  | .write .. => .isTrue trivial
  | .forgetCode _ | .getCode _ | .getResource _ | .lastModified | .openStream _ | .read _
  | .readThrows | .closeOut | .put | .closeIn => .isFalse id

def Unwritten (_ : List Step) (_ : State) (a : Step) : Prop := ¬ Writes a

def FindsNew (s : State) (a : Step) : Prop := a = .openStream true → s.scriptDecipher = []

instance (s : State) (a : Step) : Decidable (FindsNew s a) :=
  inferInstanceAs (Decidable (_ → _))

def LoadsNew (h : List Step) (s : State) (a : Step) : Prop := Unwritten h s a ∧ FindsNew s a

instance (h : List Step) (s : State) (a : Step) : Decidable (LoadsNew h s a) :=
  inferInstanceAs (Decidable (¬ Writes a ∧ _))

/-- All code, returned or cached, is the decryption of the script's own file. -/
structure Decrypts (c : Cipher) (files : String → ScriptFile) (s : State) : Prop where
  results : ∀ a scriptName code, returned s a = some (scriptName, code) →
    code = c.decryption (files scriptName).content
  cached : ∀ scriptName code, s.decryptedCodes scriptName = some code →
    code = c.decryption (files scriptName).content

variable {c : Cipher} {files : String → ScriptFile} {s s' : State} {call : Call} {a : Step}
  {h : List Step}

variable (c files) in
def CallLoads (s : State) : Call → Prop
  | .lookedUp scriptName cached | .located scriptName cached =>
    ∀ code ts, cached = some (code, ts) → code = c.decryption (files scriptName).content
  | .opening _ _ | .storing => True
  | .loading scriptName _ stream bo => stream.replaced = none ∧
      s.scriptDecipher = (files scriptName).content.take stream.position ∧
      bo = c.update s.scriptDecipher
  | .decrypted scriptName _ code => code = c.decryption (files scriptName).content

variable (c files) in
structure Loads (s : State) : Prop where
  unchanged : s.files = files
  stored : ∀ scriptName code, s.decryptedCodes scriptName = some code →
    code = c.decryption (files scriptName).content
  called : ∀ call, s.call = some call → CallLoads c files s call

theorem coherent_of_loading {scriptName : String} {modifiedTS : Int} {stream : Stream}
    {bo : List UInt8}
    (hloads : CallLoads c s.files s (.loading scriptName modifiedTS stream bo)) :
    CallCoherent c s (.loading scriptName (s.files scriptName).lastModified stream bo) :=
  ⟨Int.le_refl _, fun _ => hloads⟩

theorem called_of_advance (hs : advance c s call a = some s') (hloads : Loads c files s)
    (hcall : s.call = some call) (hnew : FindsNew s a) (call' : Call)
    (hcall' : s'.call = some call') : CallLoads c files s' call' := by
  obtain ⟨rfl, -, hcalled⟩ := hloads
  have hcalled := hcalled call hcall
  cases call with
  | lookedUp scriptName cached =>
    cases a with
    | getResource found =>
      cases hs
      cases found <;> cases hcall'
      exact hcalled
    | _ => cases hs
  | located scriptName cached =>
    cases a with
    | lastModified =>
      rw [advance] at hs
      split at hs <;> cases hs <;> cases hcall'
      trivial
    | _ => cases hs
  | opening scriptName modifiedTS =>
    cases a with
    | openStream opened =>
      cases hs
      cases opened <;> cases hcall'
      have hempty := hnew rfl
      refine ⟨rfl, hempty, ?_⟩
      exact c.update_nil.symm.trans (congrArg c.update hempty.symm)
    | _ => cases hs
  | loading scriptName modifiedTS stream bo =>
    have hcoherent := coherent_of_loading hcalled
    cases a with
    | read numRead =>
      obtain ⟨-, hs⟩ := Option.ite_none_right_eq_some.mp hs
      have hgiven : s'.files = s.files ∧ s'.scriptDecipher = s.scriptDecipher ++
          ((s.source scriptName stream).drop stream.position).take numRead := by
        cases hs
        exact ⟨rfl, rfl⟩
      cases hs
      cases hcall'
      exact (hcoherent.read rfl hgiven).2 rfl
    | readThrows =>
      cases hs
      cases hcall'
    | closeOut =>
      obtain ⟨hend, hs⟩ := Option.ite_none_right_eq_some.mp hs
      have hdecrypted := (hcoherent.decrypted hend).2 rfl
      split at hs <;> cases hs <;> cases hcall'
      · rename_i last hlast
        rw [hlast] at hdecrypted
        exact hdecrypted
      · rename_i hlast
        rw [hlast, Option.getD_none, List.append_nil] at hdecrypted
        exact hdecrypted
    | _ => cases hs
  | decrypted scriptName modifiedTS code =>
    cases a with
    | put =>
      rw [advance] at hs
      split at hs <;> cases hs <;> cases hcall'
      trivial
    | _ => cases hs
  | storing =>
    cases a with
    | closeIn =>
      cases hs
      cases hcall'
    | _ => cases hs

theorem advance_loads (hs : advance c s call a = some s') (hloads : Loads c files s)
    (hcall : s.call = some call) (hnew : FindsNew s a) : Loads c files s' := by
  obtain ⟨hfiles, hmaps⟩ := advance_maps hs
  refine ⟨hfiles.trans hloads.unchanged, ?_, called_of_advance hs hloads hcall hnew⟩
  intro scriptName code hcode
  obtain ⟨hcodes, -⟩ | ⟨name, modifiedTS, stored, rfl, hcodes, -⟩ := hmaps
  · rw [hcodes] at hcode
    exact hloads.stored scriptName code hcode
  · rw [hcodes] at hcode
    by_cases hname : scriptName = name
    · subst hname
      rw [Function.update_self] at hcode
      cases hcode
      exact hloads.called _ hcall
    · rw [Function.update_of_ne hname] at hcode
      exact hloads.stored scriptName code hcode

theorem step_loads (hs : step c s a = some s') (hloads : Loads c files s) (hwrites : ¬ Writes a)
    (hnew : FindsNew s a) : Loads c files s' := by
  cases a with
  | write => exact absurd trivial hwrites
  | forgetCode scriptName =>
    obtain ⟨-, hs⟩ := Option.ite_none_right_eq_some.mp hs
    cases hs
    refine ⟨hloads.unchanged, ?_, hloads.called⟩
    intro name code hcode
    by_cases hname : name = scriptName
    · subst hname
      simp at hcode
    · simp only [Function.update_of_ne hname] at hcode
      exact hloads.stored name code hcode
  | getCode scriptName =>
    obtain ⟨-, hs⟩ := Option.ite_none_right_eq_some.mp hs
    cases hcode : s.decryptedCodes scriptName with
    | none =>
      rw [hcode] at hs
      cases hs
      refine ⟨hloads.unchanged, hloads.stored, ?_⟩
      rintro call ⟨⟩ code ts ⟨⟩
    | some code =>
      rw [hcode] at hs
      cases hs
      refine ⟨hloads.unchanged, hloads.stored, ?_⟩
      intro call hcall
      obtain ⟨existingTS, -, rfl⟩ := Option.map_eq_some_iff.mp hcall
      rintro code' ts ⟨⟩
      exact hloads.stored scriptName code hcode
  | _ =>
    obtain ⟨call, hcall, hs⟩ := Option.bind_eq_some_iff.mp hs
    exact advance_loads hs hloads hcall hnew

theorem loads_start (files : String → ScriptFile) : Loads c files (start files) where
  unchanged := rfl
  stored _ _ hcode := by cases hcode
  called _ hcall := by cases hcall

theorem loads_of_run (hr : Run (step c) LoadsNew (start files) h s) : Loads c files s :=
  hr.invariant (fun _ s => Loads c files s) (loads_start files)
    fun _ _ _ _ _ hloads hcond hs => step_loads hs hloads hcond.1 hcond.2

theorem Loads.decrypts (hloads : Loads c files s) : Decrypts c files s where
  cached := hloads.stored
  results a scriptName code hreturned := by
    cases a with
    | lastModified => exact hloads.called _ (eq_of_cachedAnswer hreturned) code _ rfl
    | put =>
      rw [returned] at hreturned
      split at hreturned
      · rename_i name modifiedTS loaded hcall
        obtain ⟨-, heq⟩ := Option.ite_none_right_eq_some.mp hreturned
        cases heq
        exact hloads.called _ hcall
      · cases hreturned
    | _ => cases hreturned

/-- As long as each stream that is opened finds the decipher as new, whichever reads throw, every
call returns and caches the decryption of its own script. -/
theorem loads_decrypt (c : Cipher) (files : String → ScriptFile)
    (hr : Run (step c) LoadsNew (start files) h s) : Decrypts c files s :=
  (loads_of_run hr).decrypts

theorem findsNew_of_finishes
    (hr : Run (step c) (fun h s a => Unwritten h s a ∧ Finishes c h s a) (start files) h s) :
    Run (step c) LoadsNew (start files) h s := by
  refine Run.weaken_of_invariant (fun _ s => Coherent c s) (coherent_start files) ?_ ?_ hr
  · intro _ s a s' _ hcoherent hcond hs
    exact step_coherent hs hcoherent hcond.2
  · intro _ s a s' hcoherent hs hcond
    refine ⟨hcond.1, fun hopen => hcoherent.clean ?_⟩
    subst hopen
    obtain ⟨call, hcall, hs⟩ := Option.bind_eq_some_iff.mp hs
    rw [hcall]
    cases call with
    | loading => cases hs
    | _ => rfl

/-- A load whose first reading breaks off before any byte, and a load of the same script up to the
end of its stream. -/
def thrownAtOnce : List Step :=
  [.getCode "report.pl", .getResource true, .lastModified, .openStream true, .readThrows] ++
    load "report.pl" 16 ++ [.closeOut]

theorem thrownAtOnce_decrypts : ∃ s, Run (step blocks) LoadsNew (start scripts) thrownAtOnce s ∧
    returned s .put = some ("report.pl", [1, 2, 3, 4, 5, 6, 7, 8]) ∧ Decrypts blocks scripts s := by
  have hany : (exec (fun s a => if decide (LoadsNew [] s a) then step blocks s a else none)
      (start scripts) thrownAtOnce).any fun s =>
        returned s .put = some ("report.pl", [1, 2, 3, 4, 5, 6, 7, 8]) := by decide +kernel
  obtain ⟨s, hs, hreturned⟩ := (Option.any_eq_true _ _).mp hany
  have hr : Run (step blocks) LoadsNew (start scripts) thrownAtOnce s :=
    run_of_exec_checked (fun h s a hc => of_decide_eq_true hc) hs
  exact ⟨s, hr, of_decide_eq_true hreturned, loads_decrypt blocks scripts hr⟩

/-- The same, but the first stream throws behind ten bytes. -/
def thrownLater : List Step :=
  load "report.pl" 10 ++ [.readThrows] ++ load "report.pl" 16 ++ [.closeOut]

/-- The second load returns and caches the bytes left over with its own. -/
theorem left_over_bytes_returned :
    ∃ s, Run (step blocks) Unwritten (start scripts) thrownLater s ∧
      ¬ Decrypts blocks scripts s := by
  have hany : (exec (fun s a => if decide (¬ Writes a) then step blocks s a else none)
      (start scripts) thrownLater).any fun s => returned s .put =
        some ("report.pl", [8, 8, 1, 2, 3, 4, 5, 6, 7, 8, 8, 8, 8, 8, 8, 8]) := by decide +kernel
  obtain ⟨s, hs, hreturned⟩ := (Option.any_eq_true _ _).mp hany
  refine ⟨s, run_of_exec_checked (fun h s a hc => by simpa [Unwritten] using hc) hs, fun hall => ?_⟩
  have hcode := hall.results .put _ _ (of_decide_eq_true hreturned)
  revert hcode
  decide +kernel

end InsightsAssist.ScriptLoads
