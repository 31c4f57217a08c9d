import InsightsAssist.JavaStrings
import InsightsAssist.Runs
import Mathlib.Logic.Function.Basic

/-! The cache of decrypted scripts beside the script files, which change at any time. The two maps
are only reached under the lock of the one CryptHandler, so that the changes that a call makes to
both of them are one step. -/
namespace InsightsAssist.ScriptCodes
open Runs

/-- The decipher of the scripts, by the bytes that it has been given since it was last as new: what
its updates have given for them; what `doFinal` adds, none where it throws; and the bytes it is
left with then. -/
structure Cipher where
  update : List UInt8 → List UInt8
  doFinal : List UInt8 → Option (List UInt8)
  kept : List UInt8 → List UInt8
  update_nil : update [] = []
  update_prefix : ∀ p q, update p <+: update (p ++ q)

def Cipher.output (c : Cipher) (given buf : List UInt8) : List UInt8 :=
  (c.update (given ++ buf)).drop (c.update given).length

/-- The bytes that a decipher as new makes of a content; the stream ignores that `doFinal`
throws. -/
def Cipher.decryption (c : Cipher) (content : List UInt8) : List UInt8 :=
  c.update content ++ (c.doFinal content).getD []

structure ScriptFile where
  content : List UInt8
  lastModified : Int
  deriving DecidableEq, Repr

/-- An open stream, and what it goes on reading once another file has taken the name. -/
structure Stream where
  position : Nat
  replaced : Option (List UInt8)
  deriving DecidableEq, Repr

/-- A call of `getCode`, which has the lock. -/
inductive Call where
  /-- the maps looked at: the code there is and its time stamp -/
  | lookedUp (scriptName : String) (cached : Option (List UInt8 × Int))
  | located (scriptName : String) (cached : Option (List UInt8 × Int))
  | opening (scriptName : String) (modifiedTS : Int)
  | loading (scriptName : String) (modifiedTS : Int) (stream : Stream) (bo : List UInt8)
  | decrypted (scriptName : String) (modifiedTS : Int) (code : List UInt8)
  /-- the code stored, the stream still open -/
  | storing
  deriving DecidableEq, Repr

/-- `scriptDecipher` stands for the bytes that the decipher has been given. -/
structure State where
  files : String → ScriptFile
  decryptedCodes : String → Option (List UInt8)
  decryptedCodeTimeStamp : String → Option Int
  scriptDecipher : List UInt8
  call : Option Call

inductive Step where
  /-- another content under the name, in the same file or in a new one -/
  | write (scriptName : String) (content : List UInt8) (lastModified : Int) (inPlace : Bool)
  | forgetCode (scriptName : String)
  | getCode (scriptName : String)
  | getResource (found : Bool)
  | lastModified
  | openStream (opened : Bool)
  | read (numRead : Nat)
  | readThrows
  /-- the end of the stream: `doFinal` -/
  | closeOut
  | put
  /-- the other stream closed, or not -/
  | closeIn
  deriving DecidableEq, Repr

/-- A stream of a file that is replaced keeps the content it has been opened on. -/
def Call.afterWrite (scriptName : String) (content : List UInt8) (inPlace : Bool) : Call → Call
  | .loading name modifiedTS stream bo =>
    if name = scriptName ∧ inPlace = false then
      .loading name modifiedTS { stream with replaced := some (stream.replaced.getD content) } bo
    else .loading name modifiedTS stream bo
  | call => call

/-- What the call in progress returns from the cache when it reads the time stamp of the file. -/
def cachedAnswer (s : State) : Option (String × List UInt8) :=
  match s.call with
  | some (.located scriptName (some (code, existingTS))) =>
    if existingTS = (s.files scriptName).lastModified then some (scriptName, code) else none
  | _ => none

def State.source (s : State) (scriptName : String) (stream : Stream) : List UInt8 :=
  stream.replaced.getD (s.files scriptName).content

variable (c : Cipher)

def advance (s : State) : Call → Step → Option State
  | .lookedUp scriptName cached, .getResource found =>
    some { s with call := if found then some (.located scriptName cached) else none }
  | .located scriptName _, .lastModified =>
    match cachedAnswer s with
    | some _ => some { s with call := none }
    | none => some { s with call := some (.opening scriptName (s.files scriptName).lastModified) }
  | .opening scriptName modifiedTS, .openStream opened =>
    some { s with
      call := if opened then some (.loading scriptName modifiedTS ⟨0, none⟩ []) else none }
  | .loading scriptName modifiedTS stream bo, .read numRead =>
    let buf := ((s.source scriptName stream).drop stream.position).take numRead
    if numRead ≤ 1024 ∧ buf ≠ [] then
      some { s with
        scriptDecipher := s.scriptDecipher ++ buf
        call := some (.loading scriptName modifiedTS
          { stream with position := stream.position + buf.length }
          (bo ++ c.output s.scriptDecipher buf)) }
    else none
  | .loading _ _ _ _, .readThrows => some { s with call := none }
  | .loading scriptName modifiedTS stream bo, .closeOut =>
    if (s.source scriptName stream).length ≤ stream.position then
      match c.doFinal s.scriptDecipher with
      | some last => some { s with
          scriptDecipher := []
          call := some (.decrypted scriptName modifiedTS (bo ++ last)) }
      | none => some { s with
          scriptDecipher := c.kept s.scriptDecipher
          call := some (.decrypted scriptName modifiedTS bo) }
    else none
  | .decrypted scriptName modifiedTS code, .put =>
    -- the message is a format
    if Java.formats ("Caching code for script " ++ scriptName).toList then
      some { s with
        decryptedCodes := Function.update s.decryptedCodes scriptName (some code)
        decryptedCodeTimeStamp :=
          Function.update s.decryptedCodeTimeStamp scriptName (some modifiedTS)
        call := some .storing }
    else some { s with call := none }
  | .storing, .closeIn => some { s with call := none }
  | _, _ => none

/-- A write is newer than what it replaces. The other calls wait for the lock; a time stamp that is
not there throws. -/
def step (s : State) : Step → Option State
  | .write scriptName content lastModified inPlace =>
    if (s.files scriptName).lastModified < lastModified then
      some { s with
        files := Function.update s.files scriptName ⟨content, lastModified⟩
        call := s.call.map (Call.afterWrite scriptName (s.files scriptName).content inPlace) }
    else none
  | .forgetCode scriptName =>
    if s.call.isNone then
      some { s with
        decryptedCodes := Function.update s.decryptedCodes scriptName none
        decryptedCodeTimeStamp := Function.update s.decryptedCodeTimeStamp scriptName none }
    else none
  | .getCode scriptName =>
    if s.call.isNone then
      match s.decryptedCodes scriptName with
      | none => some { s with call := some (.lookedUp scriptName none) }
      | some code => some { s with
          call := (s.decryptedCodeTimeStamp scriptName).map fun existingTS =>
            .lookedUp scriptName (some (code, existingTS)) }
    else none
  | a => s.call.bind fun call => advance c s call a

def start (files : String → ScriptFile) : State := ⟨files, fun _ => none, fun _ => none, [], none⟩

def SameKeys (s : State) : Prop :=
  ∀ scriptName, (s.decryptedCodes scriptName).isSome =
    (s.decryptedCodeTimeStamp scriptName).isSome

/-- Code from the cache is the decryption of the content of the file. -/
def AnswersDecryption (s : State) : Prop :=
  ∀ scriptName code, cachedAnswer s = some (scriptName, code) →
    code = c.decryption (s.files scriptName).content

/-- No decryption is broken off, and the decipher is as new after each. -/
def Finishes (_ : List Step) (s : State) : Step → Prop
  | .readThrows => s.scriptDecipher = []
  | .closeOut => (c.doFinal s.scriptDecipher).isSome ∨ c.kept s.scriptDecipher = []
  | _ => True

instance (h : List Step) (s : State) : (a : Step) → Decidable (Finishes c h s a)
  | .readThrows => inferInstanceAs (Decidable (_ = _))
  | .closeOut => inferInstanceAs (Decidable (_ ∨ _))
  | .write _ _ _ _ | .forgetCode _ | .getCode _ | .getResource _ | .lastModified | .openStream _
  | .read _ | .put | .closeIn => .isTrue trivial

/-- Code with its time stamp is no newer than the file, and that of its content if it is as new. -/
def Fresh (file : ScriptFile) (code : List UInt8) (ts : Int) : Prop :=
  ts ≤ file.lastModified ∧ (ts = file.lastModified → code = c.decryption file.content)

/-- What a call has read is of the file as it is, or of an older one. -/
def CallCoherent (s : State) : Call → Prop
  | .lookedUp scriptName cached | .located scriptName cached =>
    ∀ code ts, cached = some (code, ts) → Fresh c (s.files scriptName) code ts
  | .opening scriptName modifiedTS => modifiedTS ≤ (s.files scriptName).lastModified
  | .loading scriptName modifiedTS stream bo =>
    modifiedTS ≤ (s.files scriptName).lastModified ∧
      (modifiedTS = (s.files scriptName).lastModified → stream.replaced = none ∧
        s.scriptDecipher = (s.files scriptName).content.take stream.position ∧
        bo = c.update s.scriptDecipher)
  | .decrypted scriptName modifiedTS code => Fresh c (s.files scriptName) code modifiedTS
  | .storing => True

def Call.isLoading : Call → Bool
  | .loading _ _ _ _ => true
  | _ => false

structure Coherent (s : State) : Prop where
  stored : ∀ scriptName code ts, s.decryptedCodes scriptName = some code →
    s.decryptedCodeTimeStamp scriptName = some ts → Fresh c (s.files scriptName) code ts
  called : ∀ call, s.call = some call → CallCoherent c s call
  clean : s.call.any Call.isLoading = false → s.scriptDecipher = []

variable {c} {s s' : State} {call : Call} {a : Step} {h : List Step} {file : ScriptFile}
  {code content : List UInt8} {ts lastModified : Int} {scriptName : String}

/-! ### The keys -/

theorem sameKeys_update (hkeys : SameKeys s) (scriptName : String) (code : Option (List UInt8))
    (ts : Option Int) (hsome : code.isSome = ts.isSome) (other : String) :
    (Function.update s.decryptedCodes scriptName code other).isSome =
      (Function.update s.decryptedCodeTimeStamp scriptName ts other).isSome := by
  by_cases hother : other = scriptName
  · subst hother
    simpa using hsome
  · rw [Function.update_of_ne hother, Function.update_of_ne hother]
    exact hkeys other

theorem advance_maps (hs : advance c s call a = some s') :
    s'.files = s.files ∧
    ((s'.decryptedCodes = s.decryptedCodes ∧
      s'.decryptedCodeTimeStamp = s.decryptedCodeTimeStamp) ∨
    ∃ scriptName modifiedTS code, call = .decrypted scriptName modifiedTS code ∧
      s'.decryptedCodes = Function.update s.decryptedCodes scriptName (some code) ∧
      s'.decryptedCodeTimeStamp =
        Function.update s.decryptedCodeTimeStamp scriptName (some modifiedTS)) := by
  cases call with
  | lookedUp scriptName cached =>
    cases a with
    | getResource found => cases hs; exact ⟨rfl, .inl ⟨rfl, rfl⟩⟩
    | _ => cases hs
  | located scriptName cached =>
    cases a with
    | lastModified => rw [advance] at hs; split at hs <;> cases hs <;> exact ⟨rfl, .inl ⟨rfl, rfl⟩⟩
    | _ => cases hs
  | opening scriptName modifiedTS =>
    cases a with
    | openStream opened => cases hs; exact ⟨rfl, .inl ⟨rfl, rfl⟩⟩
    | _ => cases hs
  | loading scriptName modifiedTS stream bo =>
    cases a with
    | read numRead =>
      obtain ⟨-, hs⟩ := Option.ite_none_right_eq_some.mp hs
      cases hs
      exact ⟨rfl, .inl ⟨rfl, rfl⟩⟩
    | readThrows => cases hs; exact ⟨rfl, .inl ⟨rfl, rfl⟩⟩
    | closeOut =>
      obtain ⟨-, hs⟩ := Option.ite_none_right_eq_some.mp hs
      split at hs <;> cases hs <;> exact ⟨rfl, .inl ⟨rfl, rfl⟩⟩
    | _ => cases hs
  | decrypted scriptName modifiedTS code =>
    cases a with
    | put =>
      rw [advance] at hs
      split at hs <;> cases hs
      · exact ⟨rfl, .inr ⟨scriptName, modifiedTS, code, rfl, rfl, rfl⟩⟩
      · exact ⟨rfl, .inl ⟨rfl, rfl⟩⟩
    | _ => cases hs
  | storing =>
    cases a with
    | closeIn => cases hs; exact ⟨rfl, .inl ⟨rfl, rfl⟩⟩
    | _ => cases hs

theorem advance_sameKeys (hs : advance c s call a = some s') (hkeys : SameKeys s) :
    SameKeys s' := by
  intro scriptName
  obtain ⟨-, ⟨hcodes, hts⟩ | ⟨name, modifiedTS, code, -, hcodes, hts⟩⟩ := advance_maps hs
  · rw [hcodes, hts]
    exact hkeys scriptName
  · rw [hcodes, hts]
    exact sameKeys_update hkeys name (some code) (some modifiedTS) rfl scriptName

theorem step_sameKeys (hs : step c s a = some s') (hkeys : SameKeys s) : SameKeys s' := by
  cases a with
  | write scriptName content lastModified inPlace =>
    obtain ⟨-, hs⟩ := Option.ite_none_right_eq_some.mp hs
    cases hs
    exact hkeys
  | forgetCode scriptName =>
    obtain ⟨-, hs⟩ := Option.ite_none_right_eq_some.mp hs
    cases hs
    exact sameKeys_update hkeys scriptName none none rfl
  | getCode scriptName =>
    obtain ⟨-, hs⟩ := Option.ite_none_right_eq_some.mp hs
    split at hs <;> cases hs <;> exact hkeys
  | _ =>
    obtain ⟨call, -, hs⟩ := Option.bind_eq_some_iff.mp hs
    exact advance_sameKeys hs hkeys

/-! ### Writes -/

theorem Fresh.write (hfresh : Fresh c file code ts) (hlt : file.lastModified < lastModified) :
    Fresh c ⟨content, lastModified⟩ code ts := by
  obtain ⟨hle, -⟩ := hfresh
  refine ⟨?_, fun heq => ?_⟩
  · simp only
    omega
  · simp only at heq
    omega

theorem fresh_write {files : String → ScriptFile} {name : String}
    (hfresh : Fresh c (files name) code ts)
    (hlt : (files scriptName).lastModified < lastModified) :
    Fresh c (Function.update files scriptName ⟨content, lastModified⟩ name) code ts := by
  by_cases hname : name = scriptName
  · subst hname
    rw [Function.update_self]
    exact hfresh.write hlt
  · rwa [Function.update_of_ne hname]

theorem isLoading_afterWrite (content : List UInt8) (inPlace : Bool) (call : Call) :
    (call.afterWrite scriptName content inPlace).isLoading = call.isLoading := by
  cases call with
  | loading name modifiedTS stream bo =>
    rw [Call.afterWrite]
    split <;> rfl
  | _ => rfl

theorem callCoherent_write {inPlace : Bool} (hcall : CallCoherent c s call)
    (hlt : (s.files scriptName).lastModified < lastModified)
    (hs : s' = { s with
      files := Function.update s.files scriptName ⟨content, lastModified⟩
      call := s.call.map (Call.afterWrite scriptName (s.files scriptName).content inPlace) }) :
    CallCoherent c s' (call.afterWrite scriptName (s.files scriptName).content inPlace) := by
  have hle {name : String} {ts : Int} (h : ts ≤ (s.files name).lastModified) :
      ts ≤ (s'.files name).lastModified ∧
        (ts = (s'.files name).lastModified → name ≠ scriptName ∧ s'.files name = s.files name) := by
    by_cases hname : name = scriptName
    · have hnew : s'.files name = ⟨content, lastModified⟩ := by
        rw [hs, hname]
        exact Function.update_self ..
      rw [hnew]
      rw [hname] at h
      exact ⟨by simp only; omega, fun heq => by simp only at heq; omega⟩
    · have hsame : s'.files name = s.files name := by
        rw [hs]
        exact Function.update_of_ne hname ..
      rw [hsame]
      exact ⟨h, fun _ => ⟨hname, rfl⟩⟩
  have hfresh {name : String} {code : List UInt8} {ts : Int}
      (h : Fresh c (s.files name) code ts) : Fresh c (s'.files name) code ts := by
    subst hs
    exact fresh_write h hlt
  cases call with
  | lookedUp name cached => exact fun code ts hcached => hfresh (hcall code ts hcached)
  | located name cached => exact fun code ts hcached => hfresh (hcall code ts hcached)
  | opening name modifiedTS => exact (hle hcall).1
  | loading name modifiedTS stream bo =>
    obtain ⟨hts, hread⟩ := hcall
    have hdecipher : s'.scriptDecipher = s.scriptDecipher := by rw [hs]
    by_cases hreplace : name = scriptName ∧ inPlace = false
    · rw [Call.afterWrite, if_pos hreplace]
      refine ⟨(hle hts).1, fun heq => absurd hreplace.1 ((hle hts).2 heq).1⟩
    · rw [Call.afterWrite, if_neg hreplace]
      refine ⟨(hle hts).1, fun heq => ?_⟩
      obtain ⟨-, hsame⟩ := (hle hts).2 heq
      rw [hsame] at heq ⊢
      rw [hdecipher]
      exact hread heq
  | decrypted name modifiedTS code => exact hfresh hcall
  | storing => trivial

/-! ### The call -/

theorem Cipher.update_append (c : Cipher) (given buf : List UInt8) :
    c.update given ++ c.output given buf = c.update (given ++ buf) :=
  List.prefix_iff_eq_append.mp (c.update_prefix given buf)

theorem read_coherent (content : List UInt8) (position numRead : Nat) :
    content.take position ++ (content.drop position).take numRead =
      content.take (position + ((content.drop position).take numRead).length) := by
  rw [List.take_add, ← List.prefix_iff_eq_take.mp (List.take_prefix numRead _)]

theorem eq_of_cachedAnswer {r : String × List UInt8} (h : cachedAnswer s = some r) :
    s.call = some (.located r.1 (some (r.2, (s.files r.1).lastModified))) := by
  unfold cachedAnswer at h
  split at h
  · rename_i scriptName code existingTS hcall
    obtain ⟨hts, heq⟩ := Option.ite_none_right_eq_some.mp h
    cases heq
    rw [hcall, hts]
  · cases h

theorem CallCoherent.read {stream : Stream} {bo buf : List UInt8} {numRead : Nat}
    (h : CallCoherent c s (.loading scriptName ts stream bo))
    (hbuf : buf = ((s.source scriptName stream).drop stream.position).take numRead)
    (hs : s'.files = s.files ∧ s'.scriptDecipher = s.scriptDecipher ++ buf) :
    CallCoherent c s' (.loading scriptName ts
      { stream with position := stream.position + buf.length }
      (bo ++ c.output s.scriptDecipher buf)) := by
  obtain ⟨hle, hread⟩ := h
  rw [CallCoherent, hs.1, hs.2]
  refine ⟨hle, fun heq => ?_⟩
  obtain ⟨hreplaced, hdecipher, hbo⟩ := hread heq
  have hcontent : buf = ((s.files scriptName).content.drop stream.position).take numRead := by
    rw [hbuf, State.source, hreplaced, Option.getD_none]
  refine ⟨hreplaced, ?_, ?_⟩
  · rw [hdecipher, hcontent]
    exact read_coherent _ _ _
  · rw [hbo]
    exact c.update_append _ _

theorem CallCoherent.decrypted {stream : Stream} {bo : List UInt8}
    (h : CallCoherent c s (.loading scriptName ts stream bo))
    (hend : (s.source scriptName stream).length ≤ stream.position) :
    Fresh c (s.files scriptName) (bo ++ (c.doFinal s.scriptDecipher).getD []) ts := by
  obtain ⟨hle, hread⟩ := h
  refine ⟨hle, fun heq => ?_⟩
  obtain ⟨hreplaced, hdecipher, hbo⟩ := hread heq
  rw [State.source, hreplaced, Option.getD_none] at hend
  rw [List.take_of_length_le hend] at hdecipher
  rw [hbo, hdecipher]
  rfl

theorem advance_called (hs : advance c s call a = some s') (hcoherent : Coherent c s)
    (hcall : s.call = some call) (hfinishes : Finishes c h s a) :
    (∀ call', s'.call = some call' → CallCoherent c s' call') ∧
      (s'.call.any Call.isLoading = false → s'.scriptDecipher = []) := by
  have hcalled := hcoherent.called call hcall
  have hclean (hnot : call.isLoading = false) : s.scriptDecipher = [] :=
    hcoherent.clean (by simp [hcall, hnot])
  have hover {t : State} (hnone : t.call = none) (call' : Call) (hcall' : t.call = some call') :
      CallCoherent c t call' := by
    rw [hnone] at hcall'
    cases hcall'
  cases call with
  | lookedUp scriptName cached =>
    cases a with
    | getResource found =>
      cases hs
      refine ⟨?_, fun _ => hclean rfl⟩
      cases found <;> rintro call' ⟨⟩
      exact hcalled
    | _ => cases hs
  | located scriptName cached =>
    cases a with
    | lastModified =>
      rw [advance] at hs
      split at hs <;> cases hs
      · exact ⟨hover rfl, fun _ => hclean rfl⟩
      · refine ⟨?_, fun _ => hclean rfl⟩
        rintro call' ⟨⟩
        exact Int.le_refl _
    | _ => cases hs
  | opening scriptName modifiedTS =>
    cases a with
    | openStream opened =>
      cases hs
      refine ⟨?_, fun _ => hclean rfl⟩
      cases opened <;> rintro call' ⟨⟩
      refine ⟨hcalled, fun _ => ⟨rfl, ?_, ?_⟩⟩
      · exact hclean rfl
      · exact (c.update_nil.symm.trans (congrArg c.update (hclean rfl).symm))
    | _ => cases hs
  | loading scriptName modifiedTS stream bo =>
    cases a with
    | read numRead =>
      obtain ⟨-, hs⟩ := Option.ite_none_right_eq_some.mp hs
      cases hs
      refine ⟨?_, fun hnot => by cases hnot⟩
      rintro call' ⟨⟩
      exact hcalled.read rfl ⟨rfl, rfl⟩
    | readThrows =>
      cases hs
      exact ⟨hover rfl, fun _ => hfinishes⟩
    | closeOut =>
      obtain ⟨hend, hs⟩ := Option.ite_none_right_eq_some.mp hs
      have hdecrypted := hcalled.decrypted hend
      split at hs <;> cases hs
      · rename_i last hlast
        rw [hlast] at hdecrypted
        refine ⟨?_, fun _ => rfl⟩
        rintro call' ⟨⟩
        exact hdecrypted
      · rename_i hlast
        rw [hlast, Option.getD_none, List.append_nil] at hdecrypted
        refine ⟨?_, fun _ => ?_⟩
        · rintro call' ⟨⟩
          exact hdecrypted
        · exact hfinishes.resolve_left (by simp [hlast])
    | _ => cases hs
  | decrypted scriptName modifiedTS code =>
    cases a with
    | put =>
      rw [advance] at hs
      split at hs <;> cases hs
      · refine ⟨?_, fun _ => hclean rfl⟩
        rintro call' ⟨⟩
        trivial
      · exact ⟨hover rfl, fun _ => hclean rfl⟩
    | _ => cases hs
  | storing =>
    cases a with
    | closeIn =>
      cases hs
      exact ⟨hover rfl, fun _ => hclean rfl⟩
    | _ => cases hs

theorem advance_coherent (hs : advance c s call a = some s') (hcoherent : Coherent c s)
    (hcall : s.call = some call) (hfinishes : Finishes c h s a) : Coherent c s' := by
  obtain ⟨hcalled, hclean⟩ := advance_called hs hcoherent hcall hfinishes
  refine ⟨?_, hcalled, hclean⟩
  intro scriptName code ts hcode hts
  obtain ⟨hfiles, ⟨hcodes, hstamps⟩ | ⟨name, modifiedTS, stored, hdecrypted, hcodes, hstamps⟩⟩ :=
    advance_maps hs
  · rw [hcodes] at hcode
    rw [hstamps] at hts
    rw [hfiles]
    exact hcoherent.stored scriptName code ts hcode hts
  · rw [hcodes] at hcode
    rw [hstamps] at hts
    rw [hfiles]
    by_cases hname : scriptName = name
    · subst hname
      rw [Function.update_self] at hcode hts
      cases hcode
      cases hts
      have hfresh := hcoherent.called call hcall
      rw [hdecrypted] at hfresh
      exact hfresh
    · rw [Function.update_of_ne hname] at hcode hts
      exact hcoherent.stored scriptName code ts hcode hts

theorem step_coherent (hs : step c s a = some s') (hcoherent : Coherent c s)
    (hfinishes : Finishes c h s a) : Coherent c s' := by
  cases a with
  | write scriptName content lastModified inPlace =>
    obtain ⟨hlt, hs⟩ := Option.ite_none_right_eq_some.mp hs
    refine ⟨?_, ?_, ?_⟩
    · intro name code ts hcode hts
      cases hs
      exact fresh_write (hcoherent.stored name code ts hcode hts) hlt
    · intro call hcall
      have hwritten := Option.some.inj hs
      rw [← hwritten] at hcall
      obtain ⟨before, hbefore, rfl⟩ := Option.map_eq_some_iff.mp hcall
      exact callCoherent_write (hcoherent.called before hbefore) hlt hwritten.symm
    · cases hs
      intro hnot
      refine hcoherent.clean ?_
      rw [← hnot]
      cases s.call with
      | none => rfl
      | some call => exact (isLoading_afterWrite _ _ call).symm
  | forgetCode scriptName =>
    obtain ⟨-, hs⟩ := Option.ite_none_right_eq_some.mp hs
    cases hs
    refine ⟨?_, hcoherent.called, hcoherent.clean⟩
    intro name code ts hcode hts
    by_cases hname : name = scriptName
    · subst hname
      simp at hcode
    · simp only [Function.update_of_ne hname] at hcode hts
      exact hcoherent.stored name code ts hcode hts
  | getCode scriptName =>
    obtain ⟨hfree, hs⟩ := Option.ite_none_right_eq_some.mp hs
    have hclean : s.scriptDecipher = [] :=
      hcoherent.clean (by rw [Option.isNone_iff_eq_none.mp hfree]; rfl)
    cases hcode : s.decryptedCodes scriptName with
    | none =>
      rw [hcode] at hs
      cases hs
      refine ⟨hcoherent.stored, ?_, fun _ => hclean⟩
      rintro call ⟨⟩ code ts ⟨⟩
    | some code =>
      rw [hcode] at hs
      cases hs
      refine ⟨hcoherent.stored, ?_, fun _ => hclean⟩
      intro call hcall
      obtain ⟨existingTS, hts, rfl⟩ := Option.map_eq_some_iff.mp hcall
      rintro code' ts ⟨⟩
      exact hcoherent.stored scriptName code existingTS hcode hts
  | _ =>
    obtain ⟨call, hcall, hs⟩ := Option.bind_eq_some_iff.mp hs
    exact advance_coherent hs hcoherent hcall hfinishes

/-! ### Runs -/

theorem sameKeys_start (files : String → ScriptFile) : SameKeys (start files) := fun _ => rfl

theorem coherent_start (files : String → ScriptFile) : Coherent c (start files) where
  stored _ _ _ hcode _ := by cases hcode
  called _ hcall := by cases hcall
  clean _ := rfl

theorem sameKeys_run {files : String → ScriptFile} {cond : List Step → State → Step → Prop}
    (hr : Run (step c) cond (start files) h s) : SameKeys s :=
  hr.invariant (fun _ s => SameKeys s) (sameKeys_start files)
    fun _ _ _ _ _ hkeys _ hs => step_sameKeys hs hkeys

/-- In every run in which no decryption is broken off, code from the cache is the decryption of the
content that the file has when its time stamp is read, and the maps have the same keys. -/
theorem cached_code_decrypts (c : Cipher) (files : String → ScriptFile)
    (hr : Run (step c) (Finishes c) (start files) h s) : AnswersDecryption c s ∧ SameKeys s := by
  refine ⟨?_, sameKeys_run hr⟩
  have hcoherent : Coherent c s := hr.invariant (fun _ s => Coherent c s) (coherent_start files)
    fun _ _ _ _ _ hcoherent hfinishes hs => step_coherent hs hcoherent hfinishes
  intro scriptName code hanswer
  have hcall := eq_of_cachedAnswer hanswer
  exact (hcoherent.called _ hcall code _ rfl).2 rfl

/-! ### A decipher of padded blocks -/

/-- The blocks of 8 bytes before the last one, which may hold the padding. -/
def front (given : List UInt8) : List UInt8 := given.take (8 * ((given.length - 1) / 8))

/-- The last block without its padding, none if it is cut or not padded. -/
def lastBlock (given : List UInt8) : Option (List UInt8) :=
  if given = [] then some []
  else if given.length % 8 ≠ 0 then none
  else
    let block := given.drop (front given).length
    let padding := block.getLastD 0
    if 1 ≤ padding ∧ padding ≤ 8 ∧ (block.drop (8 - padding.toNat)).all (· == padding) then
      some (block.take (8 - padding.toNat))
    else none

theorem take_prefix_take_append {p q : List UInt8} {m n : Nat} (hm : m ≤ p.length) (hmn : m ≤ n) :
    p.take m <+: (p ++ q).take n := by
  rw [← List.take_append_of_le_length hm]
  exact List.take_prefix_take_left hmn

theorem front_prefix (p q : List UInt8) : front p <+: front (p ++ q) := by
  refine take_prefix_take_append (by omega) ?_
  rw [List.length_append]
  omega

/-- CBC and padding of blocks that encrypt to themselves; `doFinal` keeps what it throws at. -/
def blocks : Cipher where
  update := front
  doFinal := lastBlock
  kept given := given
  update_nil := rfl
  update_prefix := front_prefix

def scripts : String → ScriptFile := fun scriptName =>
  if scriptName = "cut.pl" then ⟨[9, 9, 9, 9, 9], 7⟩
  else ⟨[1, 2, 3, 4, 5, 6, 7, 8, 8, 8, 8, 8, 8, 8, 8, 8], 3⟩

def load (scriptName : String) (numRead : Nat) : List Step :=
  [.getCode scriptName, .getResource true, .lastModified, .openStream true, .read numRead]

def again (scriptName : String) : List Step := [.getCode scriptName, .getResource true]

/-- The first reading of a script breaks off; and a script is loaded after one that was cut. -/
def brokenOff : List Step :=
  load "report.pl" 10 ++ [.readThrows] ++ load "report.pl" 16 ++ [.closeOut, .put, .closeIn] ++
    again "report.pl"

def afterCut : List Step :=
  load "cut.pl" 5 ++ [.closeOut, .put, .closeIn] ++ load "report.pl" 16 ++
    [.closeOut, .put, .closeIn] ++ again "report.pl"

theorem not_answersDecryption {h : List Step} {code : List UInt8}
    (hfiles : (exec (step blocks) (start scripts) h).map State.files = some scripts)
    (hany : (exec (step blocks) (start scripts) h).any fun s =>
      cachedAnswer s = some ("report.pl", code))
    (hcode : code ≠ blocks.decryption (scripts "report.pl").content) :
    ∃ s, Run (step blocks) AnyStep (start scripts) h s ∧ ¬ AnswersDecryption blocks s := by
  obtain ⟨s, hs, hanswer⟩ := (Option.any_eq_true _ _).mp hany
  refine ⟨s, run_anyStep_iff.mpr hs, fun hall => hcode ?_⟩
  rw [hs] at hfiles
  rw [hall _ _ (of_decide_eq_true hanswer), Option.some.inj hfiles]

/-- In both runs the cache then answers with code that begins with the bytes left over. -/
theorem left_over_bytes_answered :
    (∃ s, Run (step blocks) AnyStep (start scripts) brokenOff s ∧ ¬ AnswersDecryption blocks s) ∧
    ∃ s, Run (step blocks) AnyStep (start scripts) afterCut s ∧ ¬ AnswersDecryption blocks s := by
  constructor
  · have hany : (exec (step blocks) (start scripts) brokenOff).any fun s => cachedAnswer s =
        some ("report.pl", [8, 8, 1, 2, 3, 4, 5, 6, 7, 8, 8, 8, 8, 8, 8, 8]) := by decide +kernel
    exact not_answersDecryption rfl hany (by decide +kernel)
  · have hany : (exec (step blocks) (start scripts) afterCut).any fun s => cachedAnswer s =
        some ("report.pl", [9, 9, 9, 9, 9, 1, 2, 3, 4, 5, 6, 7, 8, 8, 8, 8]) := by decide +kernel
    exact not_answersDecryption rfl hany (by decide +kernel)

/-- A write before the stream is opened, one while it is read, another load, and then code from
the cache. -/
def rewritten : List Step :=
  [.getCode "report.pl", .getResource true, .lastModified,
    .write "report.pl" [7, 7, 7, 7, 7, 7, 7, 7, 6, 2, 2, 2, 2, 2, 2, 2] 4 true, .openStream true,
    .read 3, .write "report.pl" [1, 1, 1, 1, 1, 1, 1, 1, 1, 1, 1, 1, 1, 1, 2, 2] 5 false, .read 13,
    .closeOut, .put, .closeIn] ++ load "report.pl" 16 ++ [.closeOut, .put, .closeIn] ++
    again "report.pl"

theorem rewritten_decrypts : ∃ s, Run (step blocks) (Finishes blocks) (start scripts) rewritten s ∧
    cachedAnswer s = some ("report.pl", [1, 1, 1, 1, 1, 1, 1, 1, 1, 1, 1, 1, 1, 1]) ∧
    AnswersDecryption blocks s ∧ SameKeys s := by
  have hany : (exec (fun s a => if decide (Finishes blocks [] s a) then step blocks s a else none)
      (start scripts) rewritten).any fun s => cachedAnswer s =
        some ("report.pl", [1, 1, 1, 1, 1, 1, 1, 1, 1, 1, 1, 1, 1, 1]) := by decide +kernel
  obtain ⟨s, hs, hanswer⟩ := (Option.any_eq_true _ _).mp hany
  have hr : Run (step blocks) (Finishes blocks) (start scripts) rewritten s :=
    run_of_exec_checked (fun h s a hc => of_decide_eq_true hc) hs
  exact ⟨s, hr, of_decide_eq_true hanswer, cached_code_decrypts blocks scripts hr⟩

end InsightsAssist.ScriptCodes
