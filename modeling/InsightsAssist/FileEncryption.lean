import InsightsAssist.ScriptCodes

/-! The encryption and decryption of a file in its place: the result is written beside it, the file
is deleted, and the result takes its name. Each of the steps may fail. -/
namespace InsightsAssist.FileProcUtil
open Runs ScriptCodes

inductive Mode where
  | encrypt | decrypt
  deriving DecidableEq, Repr

/-- The file, or `cryptoFile`, whose name has `.encrypted` or `.decrypted` behind it. -/
inductive Name where
  | file
  | crypto (mode : Mode)
  deriving DecidableEq, Repr

abbrev Files := Name → Option (List UInt8)

inductive Outcome where
  | done | refused | throws
  deriving DecidableEq, Repr

/-- What comes next; a position is the number of bytes that have been read and given to the
cipher. -/
inductive Phase where
  | initialise
  | openIn
  | openOut
  | read (position : Nat)
  | write (position : Nat) (buf : List UInt8)
  | close (position : Nat)
  | delete
  | rename
  | returned
  deriving DecidableEq, Repr

structure State where
  files : Files
  phase : Phase

/-- A step with how it goes. A read gives so many bytes at most, or throws; a write is cut after so
many bytes and throws, or is complete. What throws while the last block is written on closing is
ignored. -/
inductive Step where
  | initialise (done : Bool)
  | openIn (done : Bool)
  | openOut (done : Bool)
  | read (numRead : Option Nat)
  | write (cut : Option Nat)
  | close (cut : Option Nat) (done : Bool)
  | delete (outcome : Outcome)
  | rename (outcome : Outcome)
  deriving DecidableEq, Repr

def upTo (cut : Option Nat) (bytes : List UInt8) : List UInt8 :=
  match cut with
  | none => bytes
  | some n => bytes.take n

def Files.append (files : Files) (name : Name) (bytes : List UInt8) : Files :=
  Function.update files name ((files name).map (· ++ bytes))

variable (c : Cipher) (mode : Mode) (deleteSourceFile : Bool)

/-- `doEncryptionDecryptionWithStream` with the steps before and after it; an exception is caught
and logged. -/
def step (s : State) : Step → Option State
  | .initialise done =>
    if s.phase = .initialise then some { s with phase := if done then .openIn else .returned }
    else none
  | .openIn done =>
    if s.phase = .openIn ∧ (done → (s.files .file).isSome) then
      some { s with phase := if done then .openOut else .returned }
    else none
  | .openOut done =>
    if s.phase = .openOut then
      some (if done then ⟨Function.update s.files (.crypto mode) (some []), .read 0⟩
        else { s with phase := .returned })
    else none
  | .read numRead =>
    match s.phase, numRead with
    | .read _, none => some { s with phase := .returned }
    | .read position, some n =>
      let rest := ((s.files .file).getD []).drop position
      if rest = [] then some { s with phase := .close position }
      else if 0 < n ∧ n ≤ 1024 then some { s with phase := .write position (rest.take n) }
      else none
    | _, _ => none
  | .write cut =>
    match s.phase with
    | .write position buf =>
      let output := c.output (((s.files .file).getD []).take position) buf
      some ⟨s.files.append (.crypto mode) (upTo cut output),
        if cut.isNone then .read (position + buf.length) else .returned⟩
    | _ => none
  | .close cut done =>
    match s.phase with
    | .close position =>
      let last := (c.doFinal (((s.files .file).getD []).take position)).getD []
      some ⟨s.files.append (.crypto mode) (upTo cut last),
        if done && deleteSourceFile then .delete else .returned⟩
    | _ => none
  | .delete outcome =>
    if s.phase = .delete then
      match outcome with
      | .done => some ⟨Function.update s.files .file none, .rename⟩
      | .refused => some { s with phase := .rename }
      | .throws => some { s with phase := .returned }
    else none
  | .rename outcome =>
    if s.phase = .rename then
      match outcome with
      | .done => some ⟨Function.update (Function.update s.files .file (s.files (.crypto mode)))
          (.crypto mode) none, .returned⟩
      | .refused | .throws => some { s with phase := .returned }
    else none

def encryptFile (ecipher : Cipher) := step ecipher .encrypt

def decryptFile (ecipher : Cipher) := step ecipher .decrypt

def start (files : Files) : State := ⟨files, .initialise⟩

/-! ### What should hold -/

/-- All that the cipher makes of a content, none if it cannot finish. -/
def complete (content : List UInt8) : Option (List UInt8) :=
  (c.doFinal content).map (c.update content ++ ·)

/-- What the other file holds when it is closed. -/
def written (content : List UInt8) (cut : Option Nat) : List UInt8 :=
  c.update content ++ upTo cut ((c.doFinal content).getD [])

/-- The file is there, as it was or transformed. -/
def Keeps (content : List UInt8) (files : Files) : Prop :=
  ∃ bytes, files .file = some bytes ∧ (bytes = content ∨ complete c content = some bytes)

/-- Closing has finished what the cipher makes of the content, or has left what is the content. -/
def ClosedWell (content : List UInt8) (cut : Option Nat) : Prop :=
  (∃ last, c.doFinal content = some last ∧ ∀ n, cut = some n → last.length ≤ n) ∨
    written c content cut = content

/-- A file that is deleted is replaced, and by nothing but a result that closing has left well. -/
def ReplacedWell (content : List UInt8) (h : List Step) : Prop :=
  (.delete .done ∈ h → .rename .done ∈ h) ∧
    (.rename .done ∈ h → ∀ cut done, .close cut done ∈ h → ClosedWell c content cut)

def Step.succeeds : Step → Bool
  | .initialise done | .openIn done | .openOut done => done
  | .read numRead => numRead.isSome
  | .write cut => cut.isNone
  | .close cut done => cut.isNone && done
  | .delete outcome | .rename outcome => outcome = .done

/-! ### What the steps preserve -/

def Step.isLate : Step → Bool
  | .close .. | .delete _ | .rename _ => true
  | _ => false

/-- The file is as it was, and the other one holds what the cipher has given for so many bytes. -/
structure Copied (content : List UInt8) (position : Nat) (h : List Step) (s : State) : Prop where
  file : s.files .file = some content
  crypto : s.files (.crypto mode) = some (c.update (content.take position))
  early : ∀ a ∈ h, a.isLate = false

structure Closed (content : List UInt8) (cut : Option Nat) (later h : List Step) (s : State) :
    Prop where
  crypto : s.files (.crypto mode) = some (written c content cut)
  history : ∃ pre, h = pre ++ .close cut true :: later ∧ ∀ a ∈ pre, a.isLate = false

def Inv (content : List UInt8) (h : List Step) (s : State) : Prop :=
  match s.phase with
  | .initialise | .openIn | .openOut =>
    s.files .file = some content ∧ ∀ a ∈ h, a.isLate = false
  | .read position => Copied c mode content position h s
  | .write position buf =>
    Copied c mode content position h s ∧ ∃ n, buf = (content.drop position).take n
  | .close position => Copied c mode content position h s ∧ content.length ≤ position
  | .delete => s.files .file = some content ∧ ∃ cut, Closed c mode content cut [] h s
  | .rename => ∃ cut outcome, Closed c mode content cut [.delete outcome] h s ∧
      s.files .file = if outcome = .done then none else some content
  | .returned => Keeps c content s.files ↔ ReplacedWell c content h

variable {c mode deleteSourceFile} {content : List UInt8} {h : List Step} {s s' : State}

theorem keeps_original {files : Files} (hfile : files .file = some content) :
    Keeps c content files := ⟨content, hfile, .inl rfl⟩

theorem replacedWell_of_kept (hdelete : .delete .done ∉ h) (hrename : .rename .done ∉ h) :
    ReplacedWell c content h :=
  ⟨fun hmem => absurd hmem hdelete, fun hmem => absurd hmem hrename⟩

theorem inv_returned (hphase : s.phase = .returned) (hfile : s.files .file = some content)
    (hdelete : .delete .done ∉ h) (hrename : .rename .done ∉ h) :
    Inv c mode content h s := by
  rw [Inv, hphase]
  exact iff_of_true (keeps_original hfile) (replacedWell_of_kept hdelete hrename)

theorem early_concat {a : Step} (hearly : ∀ b ∈ h, b.isLate = false) (ha : a.isLate = false) :
    ∀ b ∈ h ++ [a], b.isLate = false := by
  rw [List.forall_mem_append, List.forall_mem_singleton]
  exact ⟨hearly, ha⟩

theorem not_mem_of_early {a : Step} (hearly : ∀ b ∈ h, b.isLate = false) (ha : a.isLate) :
    a ∉ h := fun hmem => Bool.false_ne_true ((hearly a hmem).symm.trans ha)

theorem inv_early {a : Step} (hphase : s.phase = .returned) (hfile : s.files .file = some content)
    (hearly : ∀ b ∈ h, b.isLate = false) (ha : a.isLate = false) :
    Inv c mode content (h ++ [a]) s :=
  have hall := early_concat hearly ha
  inv_returned hphase hfile (not_mem_of_early hall rfl) (not_mem_of_early hall rfl)

theorem complete_eq_written {cut : Option Nat} :
    complete c content = some (written c content cut) ↔
      ∃ last, c.doFinal content = some last ∧ ∀ n, cut = some n → last.length ≤ n := by
  rw [complete, Option.map_eq_some_iff]
  refine exists_congr fun last => and_congr_right fun hlast => ?_
  rw [written, hlast, Option.getD_some, List.append_cancel_left_eq]
  cases cut with
  | none => simp [upTo]
  | some n =>
    have htake : last = last.take n ↔ last.length ≤ n := by
      constructor
      · intro hsame
        have hlength := congrArg List.length hsame
        rw [List.length_take] at hlength
        omega
      · exact fun hle => (List.take_of_length_le hle).symm
    simp [upTo, htake]

theorem files_append {files : Files} {name : Name} {front bytes : List UInt8}
    (h : files name = some front) : files.append name bytes name = some (front ++ bytes) := by
  simp [Files.append, h]

theorem file_append {files : Files} {bytes : List UInt8} :
    files.append (.crypto mode) bytes .file = files .file := by
  simp [Files.append]

theorem inv_initialise {done : Bool} (hfile : s.files .file = some content)
    (hearly : ∀ a ∈ h, a.isLate = false)
    (hs : step c mode deleteSourceFile s (.initialise done) = some s') :
    Inv c mode content (h ++ [.initialise done]) s' := by
  simp only [step] at hs
  split at hs
  · cases hs
    cases done with
    | false => exact inv_early rfl hfile hearly rfl
    | true => exact ⟨hfile, early_concat hearly rfl⟩
  · cases hs

theorem inv_openIn {done : Bool} (hfile : s.files .file = some content)
    (hearly : ∀ a ∈ h, a.isLate = false)
    (hs : step c mode deleteSourceFile s (.openIn done) = some s') :
    Inv c mode content (h ++ [.openIn done]) s' := by
  simp only [step] at hs
  split at hs
  · cases hs
    cases done with
    | false => exact inv_early rfl hfile hearly rfl
    | true => exact ⟨hfile, early_concat hearly rfl⟩
  · cases hs

theorem inv_openOut {done : Bool} (hfile : s.files .file = some content)
    (hearly : ∀ a ∈ h, a.isLate = false)
    (hs : step c mode deleteSourceFile s (.openOut done) = some s') :
    Inv c mode content (h ++ [.openOut done]) s' := by
  simp only [step] at hs
  split at hs
  · cases hs
    cases done with
    | false => exact inv_early rfl hfile hearly rfl
    | true =>
      refine ⟨?_, ?_, early_concat hearly rfl⟩
      · simpa using hfile
      · simp [c.update_nil]
  · cases hs

theorem inv_read {position : Nat} {numRead : Option Nat}
    (hcopied : Copied c mode content position h s) (hphase : s.phase = .read position)
    (hs : step c mode deleteSourceFile s (.read numRead) = some s') :
    Inv c mode content (h ++ [.read numRead]) s' := by
  have hcopied' : Copied c mode content position (h ++ [.read numRead]) s :=
    ⟨hcopied.file, hcopied.crypto, early_concat hcopied.early rfl⟩
  simp only [step, hphase] at hs
  cases numRead with
  | none =>
    cases hs
    exact inv_early rfl hcopied.file hcopied.early rfl
  | some n =>
    simp only [hcopied.file, Option.getD_some] at hs
    split at hs
    · rename_i hend
      cases hs
      exact ⟨⟨hcopied'.file, hcopied'.crypto, hcopied'.early⟩, List.drop_eq_nil_iff.mp hend⟩
    · split at hs
      · cases hs
        exact ⟨⟨hcopied'.file, hcopied'.crypto, hcopied'.early⟩, n, rfl⟩
      · cases hs

theorem inv_write {position : Nat} {buf : List UInt8} {cut : Option Nat}
    (hcopied : Copied c mode content position h s)
    (hbuf : ∃ n, buf = (content.drop position).take n) (hphase : s.phase = .write position buf)
    (hs : step c mode deleteSourceFile s (.write cut) = some s') :
    Inv c mode content (h ++ [.write cut]) s' := by
  obtain ⟨n, rfl⟩ := hbuf
  simp only [step, hphase, hcopied.file, Option.getD_some] at hs
  cases hs
  have hfile : s.files.append (.crypto mode) (upTo cut (c.output (content.take position)
      ((content.drop position).take n))) .file = some content := by rw [file_append, hcopied.file]
  cases cut with
  | none =>
    refine ⟨hfile, (files_append hcopied.crypto).trans ?_, early_concat hcopied.early rfl⟩
    rw [upTo, Cipher.update_append, read_coherent]
  | some k => exact inv_early rfl hfile hcopied.early rfl

theorem inv_close {position : Nat} {cut : Option Nat} {done : Bool}
    (hcopied : Copied c mode content position h s) (hall : content.length ≤ position)
    (hphase : s.phase = .close position)
    (hs : step c mode deleteSourceFile s (.close cut done) = some s') :
    Inv c mode content (h ++ [.close cut done]) s' := by
  have hcontent : content.take position = content := List.take_of_length_le hall
  have hcrypto := hcopied.crypto
  rw [hcontent] at hcrypto
  simp only [step, hphase, hcopied.file, Option.getD_some, hcontent] at hs
  cases hs
  have hfile : s.files.append (.crypto mode) (upTo cut ((c.doFinal content).getD [])) .file =
      some content := by rw [file_append, hcopied.file]
  by_cases hnext : (done && deleteSourceFile) = true
  · simp only [hnext, if_true, Inv]
    refine ⟨hfile, cut, files_append hcrypto, h, ?_, hcopied.early⟩
    rw [((Bool.and_eq_true _ _).mp hnext).1]
  · refine inv_returned (if_neg hnext) hfile ?_ ?_
    · simpa using not_mem_of_early hcopied.early (a := .delete .done) rfl
    · simpa using not_mem_of_early hcopied.early (a := .rename .done) rfl

theorem inv_delete {outcome : Outcome} {cut : Option Nat} (hfile : s.files .file = some content)
    (hclosed : Closed c mode content cut [] h s) (hphase : s.phase = .delete)
    (hs : step c mode deleteSourceFile s (.delete outcome) = some s') :
    Inv c mode content (h ++ [.delete outcome]) s' := by
  obtain ⟨pre, rfl, hearly⟩ := hclosed.history
  simp only [step, if_pos hphase] at hs
  cases outcome with
  | done =>
    cases hs
    refine ⟨cut, .done, ⟨?_, pre, by simp, hearly⟩, ?_⟩
    · simpa using hclosed.crypto
    · simp
  | refused =>
    cases hs
    exact ⟨cut, .refused, ⟨hclosed.crypto, pre, by simp, hearly⟩, hfile⟩
  | throws =>
    cases hs
    refine inv_returned rfl hfile ?_ ?_
    · simpa using not_mem_of_early hearly (a := .delete .done) rfl
    · simpa using not_mem_of_early hearly (a := .rename .done) rfl

theorem inv_rename {outcome deletion : Outcome} {cut : Option Nat}
    (hclosed : Closed c mode content cut [.delete deletion] h s)
    (hfile : s.files .file = if deletion = .done then none else some content)
    (hphase : s.phase = .rename)
    (hs : step c mode deleteSourceFile s (.rename outcome) = some s') :
    Inv c mode content (h ++ [.rename outcome]) s' := by
  obtain ⟨pre, rfl, hearly⟩ := hclosed.history
  have hdelete := not_mem_of_early hearly (a := .delete .done) rfl
  have hrename := not_mem_of_early hearly (a := .rename .done) rfl
  have hclose (cut' : Option Nat) (done : Bool) :=
    not_mem_of_early hearly (a := .close cut' done) rfl
  simp only [step, if_pos hphase] at hs
  by_cases hdone : outcome = .done
  · subst hdone
    cases hs
    -- the file is the other one, complete or not
    have hkeeps : Keeps c content (Function.update (Function.update s.files .file
        (s.files (.crypto mode))) (.crypto mode) none) ↔ ClosedWell c content cut := by
      simp only [Keeps, ne_eq, reduceCtorEq, not_false_eq_true, Function.update_of_ne,
        Function.update_self, hclosed.crypto, Option.some_inj, exists_eq_left']
      rw [complete_eq_written, or_comm, ClosedWell]
    simp only [Inv, hkeeps, ReplacedWell]
    simp [hclose, eq_comm]
  · have hkept : s' = { s with phase := .returned } := by
      cases outcome with
      | done => exact absurd rfl hdone
      | refused | throws => exact (Option.some.inj hs).symm
    subst hkept
    simp only [Inv, ReplacedWell, Keeps, hfile]
    by_cases hdeleted : deletion = .done
    · simp [hdeleted, hrename, eq_comm, hdone]
    · simp [hdeleted, hrename, hdelete, eq_comm, hdone]

theorem inv_step {a : Step} (hinv : Inv c mode content h s)
    (hs : step c mode deleteSourceFile s a = some s') : Inv c mode content (h ++ [a]) s' := by
  cases hphase : s.phase with
  | initialise =>
    simp only [Inv, hphase] at hinv
    cases a with
    | initialise done => exact inv_initialise hinv.1 hinv.2 hs
    | _ => simp [step, hphase] at hs
  | openIn =>
    simp only [Inv, hphase] at hinv
    cases a with
    | openIn done => exact inv_openIn hinv.1 hinv.2 hs
    | _ => simp [step, hphase] at hs
  | openOut =>
    simp only [Inv, hphase] at hinv
    cases a with
    | openOut done => exact inv_openOut hinv.1 hinv.2 hs
    | _ => simp [step, hphase] at hs
  | read position =>
    simp only [Inv, hphase] at hinv
    cases a with
    | read numRead => exact inv_read hinv hphase hs
    | _ => simp [step, hphase] at hs
  | write position buf =>
    simp only [Inv, hphase] at hinv
    cases a with
    | write cut => exact inv_write hinv.1 hinv.2 hphase hs
    | _ => simp [step, hphase] at hs
  | close position =>
    simp only [Inv, hphase] at hinv
    cases a with
    | close cut done => exact inv_close hinv.1 hinv.2 hphase hs
    | _ => simp [step, hphase] at hs
  | delete =>
    simp only [Inv, hphase] at hinv
    obtain ⟨hfile, cut, hclosed⟩ := hinv
    cases a with
    | delete outcome => exact inv_delete hfile hclosed hphase hs
    | _ => simp [step, hphase] at hs
  | rename =>
    simp only [Inv, hphase] at hinv
    obtain ⟨cut, deletion, hclosed, hfile⟩ := hinv
    cases a with
    | rename outcome => exact inv_rename hclosed hfile hphase hs
    | _ => simp [step, hphase] at hs
  | returned => cases a <;> simp [step, hphase] at hs

theorem inv_run {files : Files} (hfile : files .file = some content)
    (hr : Run (step c mode deleteSourceFile) AnyStep (start files) h s) :
    Inv c mode content h s :=
  hr.invariant (fun h s => Inv c mode content h s)
    (show Inv c mode content [] (start files) from ⟨hfile, by simp⟩)
    fun _ _ _ _ _ hinv _ hs => inv_step hinv hs

/-! ### There and back -/

/-- Whatever the one cipher has made of a content, the other one makes that content of. -/
def Inverts (decipher encipher : Cipher) : Prop :=
  ∀ content bytes, complete encipher content = some bytes → complete decipher bytes = some content

theorem renamed_of_returned {a : Step} (hs : step c mode true s a = some s')
    (hreturned : s'.phase = .returned) (ha : a.succeeds) :
    s.phase = .rename ∧ s'.files .file = s.files (.crypto mode) := by
  cases a with
  | initialise done | openIn done | openOut done =>
    simp only [Step.succeeds] at ha
    subst ha
    simp only [step, if_true] at hs
    split at hs
    · cases hs
      cases hreturned
    · cases hs
  | read numRead =>
    obtain ⟨n, rfl⟩ := Option.isSome_iff_exists.mp ha
    simp only [step] at hs
    split at hs
    · rename_i heq
      cases heq
    · split at hs
      · cases hs
        cases hreturned
      · split at hs
        · cases hs
          cases hreturned
        · cases hs
    · cases hs
  | write cut =>
    simp only [Step.succeeds] at ha
    simp only [step] at hs
    split at hs
    · cases hs
      simp only [ha, if_true] at hreturned
      cases hreturned
    · cases hs
  | close cut done =>
    simp only [Step.succeeds, Bool.and_eq_true] at ha
    simp only [step] at hs
    split at hs
    · cases hs
      simp only [ha.2, Bool.and_true, if_true] at hreturned
      cases hreturned
    · cases hs
  | delete outcome =>
    obtain rfl : outcome = .done := of_decide_eq_true ha
    simp only [step] at hs
    split at hs
    · cases hs
      cases hreturned
    · cases hs
  | rename outcome =>
    obtain rfl : outcome = .done := of_decide_eq_true ha
    simp only [step] at hs
    split at hs
    · rename_i hphase
      cases hs
      exact ⟨hphase, by simp⟩
    · cases hs

theorem file_of_succeeds {files : Files} (hfile : files .file = some content)
    (hr : Run (step c mode true) AnyStep (start files) h s) (hreturned : s.phase = .returned)
    (hsucceeds : ∀ a ∈ h, a.succeeds) : s.files .file = some (written c content none) := by
  cases hr with
  | nil => cases hreturned
  | @snoc h before _ a hr _ hs =>
    have hinv := inv_run hfile hr
    obtain ⟨hphase, hfile⟩ := renamed_of_returned hs hreturned (hsucceeds a (by simp))
    simp only [Inv, hphase] at hinv
    obtain ⟨cut, deletion, hclosed, -⟩ := hinv
    obtain ⟨pre, rfl, -⟩ := hclosed.history
    have hclose : (Step.close cut true).succeeds := hsucceeds _ (by simp)
    obtain rfl : cut = none := by simpa [Step.succeeds] using hclose
    rw [hfile, hclosed.crypto]

theorem complete_of_finishes (hfinishes : (c.doFinal content).isSome) :
    complete c content = some (written c content none) := by
  obtain ⟨last, hlast⟩ := Option.isSome_iff_exists.mp hfinishes
  rw [complete_eq_written]
  exact ⟨last, hlast, by simp⟩

/-- When a call returns, the file is as it was or transformed as a whole iff it was not deleted
without being replaced, nor replaced by a result that closing has left incomplete; and a decryption
undoes an encryption if all their steps succeed. -/
theorem cryptFile_keeps_iff {files : Files} {content : List UInt8}
    (hfile : files .file = some content) :
    (∀ (ecipher : Cipher) (h : List Step) (s : State),
      Run (encryptFile ecipher true) AnyStep (start files) h s → s.phase = .returned →
        (Keeps ecipher content s.files ↔ ReplacedWell ecipher content h)) ∧
    (∀ (ecipher : Cipher) (h : List Step) (s : State),
      Run (decryptFile ecipher true) AnyStep (start files) h s → s.phase = .returned →
        (Keeps ecipher content s.files ↔ ReplacedWell ecipher content h)) ∧
    ∀ (encipher decipher : Cipher) (h h' : List Step) (s s' : State),
      Inverts decipher encipher → (encipher.doFinal content).isSome →
      Run (encryptFile encipher true) AnyStep (start files) h s → s.phase = .returned →
      (∀ a ∈ h, a.succeeds) →
      Run (decryptFile decipher true) AnyStep (start s.files) h' s' → s'.phase = .returned →
      (∀ a ∈ h', a.succeeds) → s'.files .file = some content := by
  have hkeeps (mode : Mode) (ecipher : Cipher) (h : List Step) (s : State)
      (hr : Run (step ecipher mode true) AnyStep (start files) h s)
      (hreturned : s.phase = .returned) :
      Keeps ecipher content s.files ↔ ReplacedWell ecipher content h := by
    have hinv := inv_run hfile hr
    simpa only [Inv, hreturned] using hinv
  refine ⟨hkeeps .encrypt, hkeeps .decrypt, ?_⟩
  intro encipher decipher h h' s s' hinverts hfinishes hr hreturned hsucceeds hr' hreturned'
    hsucceeds'
  have hencrypted := file_of_succeeds hfile hr hreturned hsucceeds
  have hplain := hinverts content _ (complete_of_finishes hfinishes)
  have hfinishes' : (decipher.doFinal (written encipher content none)).isSome := by
    obtain ⟨last, hlast, -⟩ := Option.map_eq_some_iff.mp hplain
    rw [hlast]
    rfl
  rw [file_of_succeeds hencrypted hr' hreturned' hsucceeds', ← complete_of_finishes hfinishes',
    hplain]

/-! ### A cipher of padded blocks -/

/-- The blocks of 8 bytes that are whole. -/
def whole (given : List UInt8) : List UInt8 := given.take (8 * (given.length / 8))

/-- So many bytes of that value fill up the last block. -/
def padding (n : Nat) : List UInt8 := List.replicate (8 - n % 8) (8 - n % 8).toUInt8

theorem whole_prefix (p q : List UInt8) : whole p <+: whole (p ++ q) := by
  refine take_prefix_take_append (by omega) ?_
  rw [List.length_append]
  omega

/-- CBC and padding of blocks that encrypt to themselves, the other way than `blocks`. -/
def padded : Cipher where
  update := whole
  doFinal given := some (given.drop (whole given).length ++ padding given.length)
  kept _ := []
  update_nil := rfl
  update_prefix := whole_prefix

theorem complete_padded (content : List UInt8) :
    complete padded content = some (content ++ padding content.length) := by
  have hwhole : whole content <+: content := List.take_prefix _ _
  change some (whole content ++ _) = _
  rw [← List.append_assoc, List.prefix_iff_eq_append.mp hwhole]

theorem lastBlock_padded {given rest : List UInt8} {n : Nat} (hn : 1 ≤ n ∧ n ≤ 8)
    (hlength : given.length % 8 = 0) (hrest : rest.length = 8 - n)
    (hblock : given.drop (front given).length = rest ++ List.replicate n n.toUInt8) :
    lastBlock given = some rest := by
  have hne : given ≠ [] := by
    rintro rfl
    have hempty := congrArg List.length hblock
    simp at hempty
    omega
  have hlast : (rest ++ List.replicate n n.toUInt8).getLastD 0 = n.toUInt8 := by
    obtain ⟨m, rfl⟩ := Nat.exists_eq_succ_of_ne_zero (by omega : n ≠ 0)
    rw [List.replicate_succ', ← List.append_assoc, List.getLastD_concat]
  have hnat : n.toUInt8.toNat = n := by
    rw [Nat.toUInt8, UInt8.toNat_ofNat']
    omega
  have hbounds : 1 ≤ n.toUInt8 ∧ n.toUInt8 ≤ 8 := by
    rw [UInt8.le_iff_toNat_le, UInt8.le_iff_toNat_le, hnat]
    exact hn
  rw [lastBlock, if_neg hne, if_neg (by omega)]
  simp only [hblock, hlast, hnat]
  rw [List.drop_left' hrest, List.take_left' hrest, if_pos]
  exact ⟨hbounds.1, hbounds.2, by simp⟩

theorem blocks_inverts_padded : Inverts blocks padded := by
  intro content bytes hbytes
  rw [complete_padded, Option.some_inj] at hbytes
  subst hbytes
  have hlength : (content ++ padding content.length).length = 8 * (content.length / 8) + 8 := by
    rw [List.length_append, padding, List.length_replicate]
    omega
  have hfront : front (content ++ padding content.length) =
      content.take (8 * (content.length / 8)) := by
    have hindex : 8 * (((content ++ padding content.length).length - 1) / 8) =
        8 * (content.length / 8) := by
      rw [hlength]
      omega
    rw [front, hindex, List.take_append_of_le_length (by omega)]
  have hlast : lastBlock (content ++ padding content.length) =
      some (content.drop (8 * (content.length / 8))) := by
    refine lastBlock_padded (n := 8 - content.length % 8) (by omega) (by omega) ?_ ?_
    · rw [List.length_drop]
      omega
    · rw [hfront, List.length_take, Nat.min_eq_left (by omega),
        List.drop_append_of_le_length (by omega), padding]
  change (lastBlock _).map (front _ ++ ·) = _
  rw [hlast, hfront, Option.map_some, List.take_append_drop]

def alone : Files := fun name => if name = .file then some [1, 2, 3] else none

def run (last : Outcome) : List Step :=
  [.initialise true, .openIn true, .openOut true, .read (some 1024), .write none, .read (some 1024),
    .close none true, .delete .done, .rename last]

theorem cryptFile_keeps_iff_alone : ∃ s s',
    Run (encryptFile padded true) AnyStep (start alone) (run .done) s ∧
      Run (decryptFile blocks true) AnyStep (start s.files) (run .done) s' ∧
      s'.files .file = some [1, 2, 3] := by
  have hruns : (exec (encryptFile padded true) (start alone) (run .done)).any fun s =>
      s.phase = .returned && (exec (decryptFile blocks true) (start s.files) (run .done)).any
        fun s' => s'.phase = .returned := by decide +kernel
  obtain ⟨s, hs, hruns⟩ := (Option.any_eq_true _ _).mp hruns
  obtain ⟨hreturned, hruns⟩ := (Bool.and_eq_true _ _).mp hruns
  obtain ⟨s', hs', hreturned'⟩ := (Option.any_eq_true _ _).mp hruns
  have hr := run_anyStep_iff.mpr hs
  have hr' := run_anyStep_iff.mpr hs'
  exact ⟨s, s', hr, hr', (cryptFile_keeps_iff (show alone .file = some [1, 2, 3] from rfl)).2.2
    padded blocks _ _ s s' blocks_inverts_padded rfl hr (of_decide_eq_true hreturned) (by decide)
    hr' (of_decide_eq_true hreturned') (by decide)⟩

/-- The renaming may be refused after the file is gone; and where the cipher cannot finish, as with
a file that is not encrypted, what there is of the result takes the file's place. -/
theorem file_lost :
    (∃ s, Run (encryptFile padded true) AnyStep (start alone) (run .refused) s ∧
      s.phase = .returned ∧ ¬ Keeps padded [1, 2, 3] s.files) ∧
    ∃ s, Run (decryptFile blocks true) AnyStep (start alone) (run .done) s ∧
      s.phase = .returned ∧ ¬ Keeps blocks [1, 2, 3] s.files := by
  constructor
  · have hrun : (exec (encryptFile padded true) (start alone) (run .refused)).any fun s =>
        s.phase = .returned && s.files .file = none := by decide +kernel
    obtain ⟨s, hs, hrun⟩ := (Option.any_eq_true _ _).mp hrun
    obtain ⟨hreturned, hfile⟩ := (Bool.and_eq_true _ _).mp hrun
    refine ⟨s, run_anyStep_iff.mpr hs, of_decide_eq_true hreturned, ?_⟩
    rintro ⟨bytes, hbytes, -⟩
    rw [of_decide_eq_true hfile] at hbytes
    cases hbytes
  · have hrun : (exec (decryptFile blocks true) (start alone) (run .done)).any fun s =>
        s.phase = .returned && s.files .file = some [] := by decide +kernel
    obtain ⟨s, hs, hrun⟩ := (Option.any_eq_true _ _).mp hrun
    obtain ⟨hreturned, hfile⟩ := (Bool.and_eq_true _ _).mp hrun
    refine ⟨s, run_anyStep_iff.mpr hs, of_decide_eq_true hreturned, ?_⟩
    rintro ⟨bytes, hbytes, hwell⟩
    rw [of_decide_eq_true hfile, Option.some_inj] at hbytes
    subst hbytes
    revert hwell
    decide

end InsightsAssist.FileProcUtil
