import InsightsAssist.ReportDelivery
import InsightsAssist.Runs

/-! Any number of report retrievals for one transaction at work together, whether the return URL
or the completedReport callback has started them: what its recorded location says of its file. -/
namespace InsightsAssist.ReportFiles
open ApiCalls ReportDelivery Runs

inductive Progress where
  /-- an attempt, by its number, about to send its request -/
  | attempting (n : Nat)
  | refused (n : Nat)
  | selected
  | fetched (read : HttpResponse)
  | created (read : HttpResponse)
  /-- the file open and so many bytes written -/
  | writing (read : HttpResponse) (bytes : Nat)
  | stored (read : HttpResponse)
  /-- no directory made, and no file written -/
  | skipped (read : HttpResponse)
  | recorded (read : HttpResponse)
  | finished
  deriving DecidableEq

structure State where
  store : Store
  retrievals : Nat → Progress

def init : State where
  store := ⟨[], false, none⟩
  retrievals _ := .attempting 0

inductive Action where
  /-- the exchange whose status is tested for 200 -/
  | test (response : HttpResponse)
  /-- the other tests, and the body given to `logError` if one of them succeeds -/
  | refuse (response : Option String) (executed : Bool)
  /-- the exchange whose body is read -/
  | fetch (read : HttpResponse)
  | mkdirs (created : Bool)
  | openFile
  | write (bytes : Nat)
  | close
  /-- an exchange, the opening or a write throws: the attempt answers true -/
  | throws
  | record (executed : Bool)
  deriving DecidableEq

inductive Step where
  /-- a transaction's row is inserted by the request for its link -/
  | request (clientTransactionId : String) (userId : Int) (formDataJson : Option String)
      (executed : Bool)
  | act (retrieval : Nat) (action : Action)
  deriving DecidableEq

def overwrite (content : List UInt8) (position : Nat) (data : List UInt8) : List UInt8 :=
  content.take position ++ data ++ content.drop (position + data.length)

/-- After an answer of false there are ten attempts in all. -/
def retry (n : Nat) : Progress := if n + 1 < 10 then .attempting (n + 1) else .finished

variable (db : Database) (readers : Readers) (id : String)

def act (store : Store) : Progress → Action → Option (Store × Progress)
  | .attempting n, .test response =>
    some (store, if response.status = 200 then .selected else .refused n)
  | .refused n, .refuse none _ => some (store, retry n)
  | .refused n, .refuse (some response) executed =>
    let r := (RetrieveReportPostProcess.logError db readers response id executed).run
      store.iaTransactions
    some ({ store with iaTransactions := r.2 }, match r.1 with
      | .ok _ => retry n
      | .error _ => .finished)
  | .selected, .fetch read => some (store, .fetched read)
  | .fetched read, .mkdirs created =>
    if store.directory || !created then some (store, .skipped read)
    else some ({ store with directory := true }, .created read)
  | .created read, .openFile => some ({ store with file := some [] }, .writing read 0)
  | .writing read n, .write bytes =>
    let data := (read.rawBody.drop n).take bytes
    some ({ store with file := store.file.map (overwrite · n data) },
      .writing read (n + data.length))
  | .writing read n, .close =>
    if n = read.rawBody.length then some (store, .stored read) else none
  | .attempting _, .throws | .refused _, .throws | .selected, .throws | .created _, .throws
  | .writing _ _, .throws => some (store, .finished)
  | .stored read, .record executed =>
    some (store.update (RetrieveReportPostProcess.updateReportLocation db id "pdf" executed),
      .recorded read)
  | .skipped _, .record executed =>
    some (store.update (RetrieveReportPostProcess.updateReportLocation db id "pdf" executed),
      .finished)
  | _, _ => none

def step (s : State) : Step → Option State
  | .request clientTransactionId userId formDataJson executed =>
    some { s with store := s.store.update (DatabaseUtil.insertIntoTransactions db
      clientTransactionId userId .INITIATED formDataJson 0 (some "Initial Request sent")
      executed) }
  | .act r action => (act db readers id s.store (s.retrievals r) action).map fun (store, p) =>
    ⟨store, Function.update s.retrievals r p⟩

/-- The response whose body the retrieval was given. -/
def Progress.read : Progress → Option HttpResponse
  | .fetched read | .created read | .writing read _ | .stored read | .skipped read
  | .recorded read => some read
  | .attempting _ | .refused _ | .selected | .finished => none

/-- The response whose body the retrieval has written from beginning to end. -/
def Progress.wrote : Progress → Option HttpResponse
  | .stored read | .recorded read => some read
  | _ => none

/-- A location of the transaction is that of the report file, which holds the complete body of a
response with status 200 that one of its retrievals has received. -/
def LocationHoldsReport (s : State) : Prop :=
  ∀ row ∈ s.store.iaTransactions, DatabaseUtil.hasId db id row → ∀ location ∈ row.reportLocation,
    location = RetrieveReportPostProcess.fileName id "pdf" ∧
      ∃ r, ∃ read ∈ (s.retrievals r).read, read.status = 200 ∧ s.store.file = some read.rawBody

/-- Some retrieval has written the body of a response with status 200. -/
def Written (s : State) : Prop :=
  ∃ r, ∃ read ∈ (s.retrievals r).wrote, read.status = 200

/-- A location is recorded only when that has happened. -/
def RecordsWritten (_ : List Step) (s : State) : Step → Prop
  | .act _ (.record executed) => executed → Written s
  | _ => True

/-- Locations are that of the report file, and recorded only if `W`. -/
def Located (W : Prop) (table : Table) : Prop :=
  ∀ row ∈ table, DatabaseUtil.hasId db id row → ∀ location ∈ row.reportLocation,
    location = RetrieveReportPostProcess.fileName id "pdf" ∧ W

variable {db readers id} {W W' : Prop} {table : Table} {executed : Bool}

theorem Located.mono (h : Located db id W table) (hW : W → W') : Located db id W' table :=
  fun row hrow hid location hl => (h row hrow hid location hl).imp_right hW

theorem Located.insert {clientTransactionId : String} {userId : Int} {status : Status}
    {formDataJson message : Option String} {isDeleted : Int} (h : Located db id W table) :
    Located db id W (DatabaseUtil.insertIntoTransactions db clientTransactionId userId status
      formDataJson isDeleted message executed table) := by
  cases executed with
  | false => exact h
  | true =>
    intro row hrow hid location hl
    obtain hrow | hrow := List.mem_append.mp hrow
    · exact h row hrow hid location hl
    · rw [List.mem_singleton.mp hrow] at hl
      cases hl

theorem Located.update {condition : Transaction → Bool} {set : Transaction → Transaction}
    (h : Located db id W table)
    (hset : ∀ row, condition row → (set row).transactionId = row.transactionId ∧
      ∀ location ∈ (set row).reportLocation, executed → location ∈ row.reportLocation ∨
        location = RetrieveReportPostProcess.fileName id "pdf" ∧ W) :
    Located db id W (DatabaseUtil.update condition set executed table) := by
  cases executed with
  | false => exact h
  | true =>
    intro row hrow hid location hl
    obtain ⟨old, hold, rfl⟩ := List.mem_map.mp hrow
    split at hl
    · rename_i hc
      rw [if_pos hc] at hid
      obtain ⟨hsame, hlocation⟩ := hset old hc
      obtain hl | hl := hlocation location hl rfl
      · refine h old hold ?_ location hl
        rwa [DatabaseUtil.hasId, hsame] at hid
      · exact hl
    · rename_i hc
      rw [if_neg hc] at hid
      exact h old hold hid location hl

theorem Located.record (h : Located db id W table) (hW : executed → W) :
    Located db id W
      (RetrieveReportPostProcess.updateReportLocation db id "pdf" executed table) := by
  refine h.update fun row _ => ⟨rfl, ?_⟩
  rintro _ ⟨⟩ hx
  exact .inr ⟨rfl, hW hx⟩

theorem keeps_logError {response : String} :
    Prog.Keeps (Located db id W)
      (RetrieveReportPostProcess.logError db readers response id executed) :=
  RetrieveReportPostProcess.keeps_logError _ _ fun _ _ h =>
    h.update fun _ _ => ⟨rfl, fun _ hl _ => .inl hl⟩

/-- The retrieval has made the directory. -/
def Progress.owns : Progress → Bool
  | .created _ | .writing .. | .stored _ | .recorded _ => true
  | _ => false

def Progress.content : Progress → Option (List UInt8)
  | .writing read n => some (read.rawBody.take n)
  | .stored read | .recorded read => some read.rawBody
  | _ => none

/-- What one action does to the store, by what it does to the hold on the file; locations are
recorded only if `W`. -/
inductive Effect (db : Database) (id : String) (W : Prop) (store : Store) (p : Progress) :
    Store → Progress → Prop
  /-- the file is not the retrieval's, or no longer -/
  | away {table : Table} {p' : Progress}
      (hw : p.wrote = none) (hp' : p'.owns = false)
      (ht : ∀ W, Located db id W store.iaTransactions → Located db id W table) :
      Effect db id W store p { store with iaTransactions := table } p'
  | create (read : HttpResponse) (hp : p.owns = false) (hd : store.directory = false) :
      Effect db id W store p { store with directory := true } (.created read)
  | file (content : List UInt8) {p' : Progress} (hp : p.owns) (hp' : p'.owns)
      (hw : p.wrote = none) (hw' : p'.wrote = none) (hc : p'.content = some content) :
      Effect db id W store p { store with file := some content } p'
  | keep {p' : Progress} (hp : p.owns) (hc : p'.content = p.content) (hw : p.wrote = none) :
      Effect db id W store p store p'
  | record {executed : Bool} {p' : Progress} (hW : executed → W) (hp : p'.owns = p.owns)
      (hc : p'.content = p.content) (hw : p'.wrote = p.wrote) :
      Effect db id W store p
        (store.update (RetrieveReportPostProcess.updateReportLocation db id "pdf" executed)) p'

theorem overwrite_take (body : List UInt8) (n bytes : Nat) :
    overwrite (body.take n) n ((body.drop n).take bytes) =
      body.take (n + ((body.drop n).take bytes).length) := by
  have hrest : (body.take n).drop (n + ((body.drop n).take bytes).length) = [] :=
    List.drop_eq_nil_of_le (by rw [List.length_take]; omega)
  rw [overwrite, hrest, List.append_nil, List.take_take, Nat.min_self, List.take_add]
  congr 1
  rw [List.length_take, List.take_eq_take_iff]
  omega

@[simp] theorem overwrite_nil (data : List UInt8) : overwrite [] 0 data = data := by
  simp [overwrite]

/-- The post-processing of a body, run without interruption, is a sequence of these actions. -/
theorem autheticate_acts (store : Store) (read : HttpResponse) (created : Bool) (write : Write)
    (executed : Bool) :
    ∃ actions p, exec (fun s a => act db readers id s.1 s.2 a) (store, .fetched read) actions =
      some (((RetrieveReportPostProcess.autheticate db id "pdf" created write executed
        read.rawBody).run store).2, p) := by
  obtain ⟨table, directory, file⟩ := store
  obtain _ | _ := directory
  · obtain _ | _ := created
    · exact ⟨[.mkdirs false, .record executed], .finished, rfl⟩
    · obtain _ | _ | bytes := write
      · refine ⟨[.mkdirs true, .openFile, .write read.rawBody.length, .close, .record executed],
          .recorded read, ?_⟩
        simp only [exec, act, overwrite_nil, List.drop_zero, List.take_length, Option.map_some,
          Option.bind_some, Bool.not_true, Bool.or_self, Bool.false_eq_true, if_false, Nat.zero_add,
          if_true]
        rfl
      · exact ⟨[.mkdirs true, .throws], .finished, rfl⟩
      · refine ⟨[.mkdirs true, .openFile, .write bytes, .throws], .finished, ?_⟩
        simp only [exec, act, overwrite_nil, List.drop_zero, Option.map_some, Option.bind_some,
          Bool.not_true, Bool.or_self, Bool.false_eq_true, if_false]
        rfl
  · exact ⟨[.mkdirs created, .record executed], .finished, rfl⟩

theorem retry_owns (n : Nat) : (retry n).owns = false := by
  unfold retry
  split <;> rfl

theorem act_effect {store store' : Store} {p p' : Progress} {a : Action}
    (hc : ∀ content, p.content = some content → store.file = some content)
    (hW : ∀ executed, a = .record executed → executed → W)
    (h : act db readers id store p a = some (store', p')) : Effect db id W store p store' p' := by
  have away : ∀ {p p' : Progress}, p.wrote = none → p'.owns = false →
      Effect db id W store p store p' := fun hw hp' => .away hw hp' fun _ ht => ht
  cases p with
  | attempting n =>
    cases a with
    | test response =>
      cases h
      exact away rfl (by split <;> rfl)
    | throws =>
      cases h
      exact away rfl rfl
    | _ => cases h
  | refused n =>
    cases a with
    | refuse response executed =>
      cases response with
      | none =>
        cases h
        exact away rfl (retry_owns n)
      | some response =>
        cases h
        refine .away rfl ?_ fun _ ht => keeps_logError _ ht
        split
        · exact retry_owns n
        · rfl
    | throws =>
      cases h
      exact away rfl rfl
    | _ => cases h
  | selected =>
    cases a with
    | fetch | throws =>
      cases h
      exact away rfl rfl
    | _ => cases h
  | fetched read =>
    cases a with
    | mkdirs created =>
      simp only [act] at h
      split at h
      · cases h
        exact away rfl rfl
      · rename_i hmade
        cases h
        have hd : store.directory = false := by
          rw [Bool.or_eq_true, not_or] at hmade
          simpa using hmade.1
        exact .create read rfl hd
    | _ => cases h
  | created read =>
    cases a with
    | openFile =>
      cases h
      exact .file [] rfl rfl rfl rfl rfl
    | throws =>
      cases h
      exact away rfl rfl
    | _ => cases h
  | writing read n =>
    cases a with
    | write bytes =>
      cases h
      rw [hc _ rfl, Option.map_some, overwrite_take]
      exact .file _ rfl rfl rfl rfl rfl
    | close =>
      obtain ⟨hn, h⟩ := Option.ite_none_right_eq_some.mp h
      cases h
      have hall : read.rawBody.take n = read.rawBody := by rw [hn, List.take_length]
      exact .keep rfl (congrArg some hall.symm) rfl
    | throws =>
      cases h
      exact away rfl rfl
    | _ => cases h
  | stored read | skipped read =>
    cases a with
    | record executed =>
      cases h
      exact .record (hW _ rfl) rfl rfl rfl
    | _ => cases h
  | recorded read => cases a <;> cases h
  | finished => cases a <;> cases h

/-- Only the retrieval that made the directory writes to the file. -/
structure Inv (db : Database) (id : String) (s : State) : Prop where
  directory : ∀ r, (s.retrievals r).owns → s.store.directory
  single : ∀ r r', (s.retrievals r).owns → (s.retrievals r').owns → r = r'
  content : ∀ r content, (s.retrievals r).content = some content → s.store.file = some content
  located : Located db id (Written s) s.store.iaTransactions

theorem owns_of_content {p : Progress} {content : List UInt8} (h : p.content = some content) :
    p.owns := by
  cases p <;> first | rfl | cases h

theorem wrote_of_not_owns {p : Progress} (h : p.owns = false) : p.wrote = none := by
  cases p <;> first | rfl | cases h

theorem read_of_wrote {p : Progress} {read : HttpResponse} (h : p.wrote = some read) :
    p.read = some read := by
  cases p <;> first | exact h | cases h

theorem content_of_wrote {p : Progress} {read : HttpResponse} (h : p.wrote = some read) :
    p.content = some read.rawBody := by
  cases p <;> cases h <;> rfl

variable {s s' : State} {r : Nat} {store : Store} {p : Progress}

theorem Written.advance (hw : (s.retrievals r).wrote = none ∨ p.wrote = (s.retrievals r).wrote)
    (h : Written s) : Written ⟨store, Function.update s.retrievals r p⟩ := by
  obtain ⟨r', read, hread, hstatus⟩ := h
  refine ⟨r', read, ?_, hstatus⟩
  by_cases hr : r' = r
  · subst hr
    obtain hw | hw := hw
    · rw [hw] at hread
      cases hread
    · simpa [hw] using hread
  · simpa [Function.update_of_ne hr] using hread

theorem Inv.advance (hi : Inv db id s) (hd : s.store.directory → store.directory)
    (hp : p.owns → store.directory ∧ ∀ r', (s.retrievals r').owns → r' = r)
    (hc : ∀ content, p.content = some content → store.file = some content)
    (hf : ∀ r' ≠ r, ∀ content, (s.retrievals r').content = some content →
      store.file = some content)
    (hw : (s.retrievals r).wrote = none ∨ p.wrote = (s.retrievals r).wrote)
    (hl : Located db id (Written s) store.iaTransactions) :
    Inv db id ⟨store, Function.update s.retrievals r p⟩ := by
  refine ⟨fun a ha => ?_, fun a b ha hb => ?_, fun a content ha => ?_, hl.mono (.advance hw)⟩
  · by_cases har : a = r
    · subst har
      exact (hp (by simpa using ha)).1
    · exact hd (hi.directory a (by simpa [har] using ha))
  · by_cases har : a = r <;> by_cases hbr : b = r
    · rw [har, hbr]
    · subst har
      exact ((hp (by simpa using ha)).2 b (by simpa [hbr] using hb)).symm
    · subst hbr
      exact (hp (by simpa using hb)).2 a (by simpa [har] using ha)
    · exact hi.single a b (by simpa [har] using ha) (by simpa [hbr] using hb)
  · by_cases har : a = r
    · subst har
      exact hc content (by simpa using ha)
    · exact hf a har content (by simpa [har] using ha)

theorem Inv.sole (hi : Inv db id s) (hp : (s.retrievals r).owns) :
    s.store.directory ∧ ∀ r', (s.retrievals r').owns → r' = r :=
  ⟨hi.directory r hp, fun r' hr' => hi.single r' r hr' hp⟩

theorem Inv.effect (hi : Inv db id s)
    (he : Effect db id (Written s) s.store (s.retrievals r) store p) :
    Inv db id ⟨store, Function.update s.retrievals r p⟩ := by
  have hothers : ∀ r' ≠ r, ∀ content, (s.retrievals r').content = some content →
      s.store.file = some content := fun r' _ => hi.content r'
  cases he with
  | away hw hp' ht =>
    have hnot : ¬ p.owns := by
      rw [hp']
      exact Bool.false_ne_true
    exact hi.advance (fun hd => hd) (fun hp => absurd hp hnot)
      (fun _ hc => absurd (owns_of_content hc) hnot) hothers (.inl hw) (ht _ hi.located)
  | create read hp hd =>
    -- where there is no directory nobody owns it
    have hnobody : ∀ r', ¬ (s.retrievals r').owns := by
      intro r' hr'
      have hdir := hi.directory r' hr'
      rw [hd] at hdir
      cases hdir
    exact hi.advance (fun _ => rfl) (fun _ => ⟨rfl, fun r' hr' => absurd hr' (hnobody r')⟩)
      (fun _ hc => nomatch hc) hothers (.inl (wrote_of_not_owns hp)) hi.located
  | file content hp hp' hw hw' hc =>
    -- whoever has written to the file owns the directory, and that is this retrieval alone
    have hsole := hi.sole hp
    have hnone : ∀ r' ≠ r, ∀ content, (s.retrievals r').content ≠ some content :=
      fun r' hr _ hcontent => hr (hsole.2 r' (owns_of_content hcontent))
    exact hi.advance (fun hd => hd) (fun _ => hsole) (fun _ h => hc ▸ h)
      (fun r' hr c h => absurd h (hnone r' hr c)) (.inl hw) hi.located
  | keep hp hc hw =>
    have hsame : ∀ content, p.content = some content → s.store.file = some content := by
      rw [hc]
      exact hi.content r
    exact hi.advance (fun hd => hd) (fun _ => hi.sole hp) hsame hothers (.inl hw) hi.located
  | record hW hp hc hw =>
    have hsame : ∀ content, p.content = some content → s.store.file = some content := by
      rw [hc]
      exact hi.content r
    exact hi.advance (fun hd => hd) (fun h => hi.sole (hp ▸ h)) hsame hothers (.inr hw)
      (hi.located.record hW)

theorem Inv.step {a : Step} (hi : Inv db id s)
    (hc : RecordsWritten [] s a) (hs : step db readers id s a = some s') : Inv db id s' := by
  cases a with
  | request clientTransactionId userId formDataJson executed =>
    cases hs
    exact ⟨hi.directory, hi.single, hi.content, hi.located.insert⟩
  | act r action =>
    obtain ⟨⟨store, p⟩, hact, rfl⟩ := Option.map_eq_some_iff.mp hs
    refine hi.effect (act_effect (hi.content r) ?_ hact)
    rintro executed rfl
    exact hc

/-- In every interleaving in which a location is recorded only once the file has been written, by
whichever retrieval, each location is that of a file with a complete report. -/
theorem location_holds_report {h : List Step}
    (hr : Run (step db readers id) RecordsWritten init h s) : LocationHoldsReport db id s := by
  have hi : Inv db id s := by
    refine hr.invariant (fun _ s => Inv db id s) ?_ ?_
    · exact ⟨fun _ h => (nomatch h), fun _ _ h => (nomatch h), fun _ _ h => (nomatch h),
        fun _ h => (nomatch h)⟩
    · exact fun h s a s' _ hi hc hs => hi.step hc hs
  intro row hrow hid location hl
  obtain ⟨hname, r, read, hread, hstatus⟩ := hi.located row hrow hid location hl
  exact ⟨hname, r, read, read_of_wrote hread, hstatus,
    hi.content r _ (content_of_wrote hread)⟩

def report : HttpResponse := ⟨200, "%PDF", [37, 80, 68, 70]⟩

/-- One retrieval writes the file and records its location, another one finds the directory. -/
def oneAfterAnother : List Step :=
  [.request "T1" 1 none true, .act 0 (.test report), .act 0 (.fetch report), .act 0 (.mkdirs true),
    .act 0 .openFile, .act 0 (.write 3), .act 0 (.write 3), .act 0 .close, .act 1 (.test report),
    .act 1 (.fetch report), .act 1 (.mkdirs true), .act 1 (.record true), .act 0 (.record true)]

def afterFirst (s : State) : Step → Bool
  | .act _ (.record _) => (s.retrievals 0).wrote = some report
  | _ => true

theorem location_holds_report_written :
    ∃ s, Run (step .plain plainReaders "T1") RecordsWritten init oneAfterAnother s ∧
      LocationHoldsReport .plain "T1" s := by
  have hcheck : ∀ h s a, afterFirst s a → RecordsWritten h s a := by
    rintro h s (_ | ⟨r, action⟩) hc
    · trivial
    · cases action with
      | record executed => exact fun _ => ⟨0, report, of_decide_eq_true hc, rfl⟩
      | _ => trivial
  obtain ⟨s, hr⟩ : ∃ s, Run (step .plain plainReaders "T1") RecordsWritten init oneAfterAnother s :=
    ⟨_, run_of_exec_checked hcheck rfl⟩
  exact ⟨s, hr, location_holds_report hr⟩

/-- The second retrieval records the location while the first one has the file still to write. -/
def oneBeforeAnother : List Step :=
  [.request "T1" 1 none true, .act 0 (.test report), .act 0 (.fetch report), .act 0 (.mkdirs true),
    .act 1 (.test report), .act 1 (.fetch report), .act 1 (.mkdirs true), .act 1 (.record true)]

theorem location_without_file :
    ∃ s, Run (step .plain plainReaders "T1") AnyStep init oneBeforeAnother s ∧
      ¬ LocationHoldsReport .plain "T1" s := by
  refine ⟨_, run_anyStep_iff.mpr rfl, fun h => ?_⟩
  obtain ⟨_, _, _, _, _, hfile⟩ := h _ (List.mem_singleton.mpr rfl) rfl _ rfl
  cases hfile

end InsightsAssist.ReportFiles
