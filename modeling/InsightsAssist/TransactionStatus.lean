import InsightsAssist.PostProcessing
import InsightsAssist.Runs

/-! All writers of the transactions table at work together: link generations, status answers,
report retrievals and expiry sweeps, in any order. -/
namespace InsightsAssist.TransactionStatus
open Runs

inductive LinkProgress where
  | requested
  /-- the answer is read, the expiry date not yet assigned to the shared field -/
  | parsed (url : Option String) (expires : Int)
  | assigned (url : Option String)
  | received (url : Option String)
  | mailed (url : Option String)
  | done
  deriving DecidableEq, Repr

structure LinkThread where
  clientTransactionId : String
  progress : LinkProgress
  deriving DecidableEq, Repr

/-- `expiryDate` is the field of the one GenerateLinkPostProcess; `retrievals` are the report
retrievals that were started, by client and perfios transaction id. -/
structure State where
  iaTransactions : Table
  expiryDate : Option Int
  links : List LinkThread
  retrievals : List (Option String × Option String)
  deriving DecidableEq

def init : State := ⟨[], none, [], []⟩

/-- Each flag `executed` tells whether the database carries the step's statement out. -/
inductive Step where
  /-- a link is asked for: the row is inserted and the thread started -/
  | request (clientTransactionId : String) (userId : Int) (formDataJson : Option String)
      (executed : Bool)
  /-- the thread's answer is read; an error is recorded at once -/
  | answer (thread : Nat) (xml : String) (executed : Bool)
  /-- an answer with status 400 or 404 -/
  | refusal (thread : Nat) (response : String) (executed : Bool)
  | assign (thread : Nat)
  | firstUpdate (thread : Nat) (executed : Bool)
  /-- `sendMail`, which returns or throws -/
  | mail (thread : Nat) (sent : Bool)
  | secondUpdate (thread : Nat) (executed : Bool)
  /-- the answer to a status query of the return URL -/
  | status (xml clientTransactionId : Option String) (executed : Bool)
  /-- the provider's completedReport callback -/
  | callback (clientTransactionId perfiosTransactionId : Option String)
  | reportStored (retrieval : Nat) (executed : Bool)
  | reportFailed (retrieval : Nat) (response : String) (executed : Bool)
  | sweep (now : Int) (executed : Bool)
  deriving DecidableEq

def State.advance (s : State) (t : Nat) (p : LinkProgress) : State :=
  { s with links := s.links.modify t fun thread => { thread with progress := p } }

def State.write (s : State) (f : Table → Table) : State :=
  { s with iaTransactions := f s.iaTransactions }

variable (db : Database) (readers : Readers)

/-- The thread's next action, if it is at the progress the action is for. -/
def onThread (s : State) (t : Nat) (action : LinkThread → Option State) : Option State :=
  s.links[t]?.bind action

def step (s : State) : Step → Option State
  | .request clientTransactionId userId formDataJson executed =>
    some { s.write (DatabaseUtil.insertIntoTransactions db clientTransactionId userId .INITIATED
        formDataJson 0 (some "Initial Request sent") executed) with
      links := s.links ++ [⟨clientTransactionId, .requested⟩] }
  | .answer t xml executed => onThread s t fun thread =>
    match thread.progress with
    | .requested =>
      match GenerateLinkPostProcess.read readers xml with
      | .success url expires => some (s.advance t (.parsed url expires))
      | .error => some ((s.write (GenerateLinkPostProcess.errorUpdate db
          thread.clientTransactionId executed)).advance t .done)
      | .caught | .neither => some (s.advance t .done)
    | _ => none
  | .refusal t response executed => onThread s t fun thread =>
    match thread.progress with
    | .requested =>
      let table := ((GenerateLinkPostProcess.logError db readers response
        thread.clientTransactionId executed).run s.iaTransactions).2
      some ((s.write fun _ => table).advance t .done)
    | _ => none
  | .assign t => onThread s t fun thread =>
    match thread.progress with
    | .parsed url expires => some ({ s with expiryDate := some expires }.advance t (.assigned url))
    | _ => none
  | .firstUpdate t executed => onThread s t fun thread =>
    match thread.progress, s.expiryDate with
    | .assigned url, some expiryDate => some ((s.write (GenerateLinkPostProcess.firstUpdate db
        thread.clientTransactionId url expiryDate executed)).advance t (.received url))
    | _, _ => none
  | .mail t sent => onThread s t fun thread =>
    match thread.progress with
    | .received url => some (s.advance t (if sent then .mailed url else .done))
    | _ => none
  | .secondUpdate t executed => onThread s t fun thread =>
    match thread.progress, s.expiryDate with
    | .mailed url, some expiryDate => some ((s.write (GenerateLinkPostProcess.secondUpdate db
        thread.clientTransactionId url expiryDate executed)).advance t .done)
    | _, _ => none
  | .status xml clientTransactionId executed =>
    let r := (HandleReturnUrlPostProcess.autheticate db readers xml clientTransactionId
      executed).run s.iaTransactions
    let started := match r.1 with
      | .ok (some perfiosTransactionId) => [(clientTransactionId, perfiosTransactionId)]
      | _ => []
    some { s.write fun _ => r.2 with retrievals := s.retrievals ++ started }
  | .callback clientTransactionId perfiosTransactionId =>
    some { s with retrievals := s.retrievals ++ [(clientTransactionId, perfiosTransactionId)] }
  | .reportStored r executed => s.retrievals[r]?.map fun retrieval =>
    s.write (DatabaseUtil.updateReportLocation db retrieval.1
      (some (RetrieveReportPostProcess.fileName retrieval.1 "pdf")) executed)
  | .reportFailed r response executed => s.retrievals[r]?.map fun retrieval =>
    s.write fun table => ((RetrieveReportPostProcess.logError db readers response retrieval.1
      executed).run table).2
  | .sweep now executed => some (s.write (DatabaseUtil.updateExpiryDateStatus now executed))

def reverted (status : Status) : Bool :=
  status = .INIT_RESPONSE_RECEIVED || status = .EMAIL_SENT || status = .EXPIRED

def Reverts (table table' : Table) : Prop :=
  ∃ (i : Nat) (row row' : Transaction), table[i]? = some row ∧ table'[i]? = some row' ∧
    row.status = .COMPLETED ∧ reverted row'.status

/-- The step's statement is carried out and selects a row that is COMPLETED: an update of a
link generation of that transaction, or a sweep that finds its expiry date reached. -/
def OverwritesCompleted (s : State) : Step → Prop
  | .firstUpdate t executed | .secondUpdate t executed => executed ∧ ∃ thread ∈ s.links[t]?,
      ∃ row ∈ s.iaTransactions, row.status = .COMPLETED ∧
        DatabaseUtil.hasId db thread.clientTransactionId row
  | .sweep now executed => executed ∧
      ∃ row ∈ s.iaTransactions, row.status = .COMPLETED ∧ DatabaseUtil.expired now row
  | _ => False

instance (s : State) : (a : Step) → Decidable (OverwritesCompleted db s a)
  | .firstUpdate _ _ | .secondUpdate _ _ | .sweep _ _ => inferInstanceAs (Decidable (_ ∧ _))
  | .request .. | .answer .. | .refusal .. | .assign _ | .mail .. | .status .. | .callback ..
  | .reportStored .. | .reportFailed .. => inferInstanceAs (Decidable False)

def CompletedKept (s : State) (a : Step) : Prop :=
  ∀ s', step db readers s a = some s' → ¬ Reverts s.iaTransactions s'.iaTransactions

def Harmless (table table' : Table) : Prop :=
  ∀ (i : Nat) (row row' : Transaction), table[i]? = some row → table'[i]? = some row' →
    reverted row'.status → reverted row.status

variable {db readers} {table table' : Table} {condition : Transaction → Bool}
  {set : Transaction → Transaction} {executed : Bool}

theorem Harmless.refl (table : Table) : Harmless table table := by
  intro i row row' h h' hr
  rw [h] at h'
  cases h'
  exact hr

theorem Harmless.not_reverts (h : Harmless table table') : ¬ Reverts table table' := by
  rintro ⟨i, row, row', hrow, hrow', hc, hr⟩
  have := h i row row' hrow hrow' hr
  rw [hc] at this
  cases this

theorem Harmless.update (h : Harmless table table')
    (hset : ∀ row, reverted (set row).status → reverted row.status) :
    Harmless table (DatabaseUtil.update condition set executed table') := by
  intro i row row' hrow hrow' hr
  rw [DatabaseUtil.getElem?_update] at hrow'
  obtain ⟨mid, hmid, rfl⟩ := Option.map_eq_some_iff.mp hrow'
  refine h i row mid hrow hmid ?_
  split at hr
  · exact hset mid hr
  · exact hr

theorem reverts_update_iff (hset : ∀ row, reverted (set row).status) :
    Reverts table (DatabaseUtil.update condition set executed table) ↔
      executed ∧ ∃ row ∈ table, row.status = .COMPLETED ∧ condition row := by
  constructor
  · rintro ⟨i, row, row', hrow, hrow', hc, hr⟩
    obtain rfl := DatabaseUtil.update_row hrow hrow'
    split at hr
    · rename_i hsel
      rw [Bool.and_eq_true] at hsel
      exact ⟨hsel.1, row, List.mem_of_getElem? hrow, hc, hsel.2⟩
    · rw [hc] at hr
      cases hr
  · rintro ⟨hx, row, hmem, hc, hsel⟩
    obtain ⟨i, hi⟩ := List.getElem?_of_mem hmem
    refine ⟨i, row, set row, hi, ?_, hc, hset row⟩
    rw [DatabaseUtil.getElem?_update, hi]
    simp [hx, hsel]

theorem Harmless.insert {clientTransactionId : String} {userId : Int} {status : Status}
    {formDataJson message : Option String} {isDeleted : Int} :
    Harmless table (DatabaseUtil.insertIntoTransactions db clientTransactionId userId status
      formDataJson isDeleted message executed table) := by
  intro i row row' hrow hrow' hr
  rwa [← DatabaseUtil.insert_row db hrow hrow']

theorem keeps_updateTransactions {id perfiosTransactionId insightsStatus message : Option String}
    {status : Status} {isDeleted : Int} (hs : reverted status = false) :
    Prog.Keeps (Harmless table) (modify (DatabaseUtil.updateTransactions db id perfiosTransactionId
      status insightsStatus message isDeleted executed) : Java Table PUnit) :=
  .modify fun _ h => h.update fun _ hr => by simp [hs] at hr

theorem keeps_updateTransactionStatus {id message : Option String} {status : Status}
    (hs : reverted status = false) :
    Prog.Keeps (Harmless table) (modify (DatabaseUtil.updateTransactionStatus db id status message
      executed) : Java Table PUnit) :=
  .modify fun _ h => h.update fun _ hr => by simp [hs] at hr

theorem keeps_linkLogError {response : String} {id : Option String} :
    Prog.Keeps (Harmless table)
      (GenerateLinkPostProcess.logError db readers response id executed) :=
  .ite (.bind (Java.keeps_read _) fun _ => keeps_updateTransactions rfl)
    (keeps_updateTransactions rfl)

theorem keeps_reportLogError {response : String} {id : Option String} :
    Prog.Keeps (Harmless table)
      (RetrieveReportPostProcess.logError db readers response id executed) :=
  RetrieveReportPostProcess.keeps_logError _ _ fun _ _ h => h.update fun _ hr => by cases hr

theorem keeps_filesAvailable {response : TransactionStatusResponseXml} {status : String} :
    Prog.Keeps (Harmless table) (HandleReturnUrlPostProcess.filesAvailable response status) := by
  refine .ite (.bind (Java.keeps_deref _) fun processing => ?_) (.pure _)
  exact .ite (.bind (Java.keeps_deref _) fun files => .pure _) (.pure _)

theorem keeps_checkFilesAvailable {response : TransactionStatusResponseXml} {id : Option String} :
    Prog.Keeps (Harmless table)
      (HandleReturnUrlPostProcess.checkFilesAvailable db response id executed) := by
  refine .bind (Java.keeps_deref _) fun part => .bind (Java.keeps_deref _) fun status =>
    .bind keeps_filesAvailable fun completed => ?_
  refine .ite ?_ (.ite ?_ (.ite ?_ (.ite ?_ ?_))) <;>
  exact .bind (keeps_updateTransactions rfl) fun _ => .pure _

theorem keeps_autheticate {xml id : Option String} :
    Prog.Keeps (Harmless table)
      (HandleReturnUrlPostProcess.autheticate db readers xml id executed) := by
  refine .ite (.bind (Java.keeps_deref _) fun _ => .bind (Java.keeps_read _) fun _ =>
    keeps_checkFilesAvailable) (.ite ?_ ?_)
  · exact .bind (Java.keeps_deref _) fun _ => .bind (Java.keeps_read _) fun _ =>
      .bind (keeps_updateTransactions rfl) fun _ => .pure _
  · exact .bind (keeps_updateTransactionStatus rfl) fun _ => .pure _

/-- Besides the two link updates and the sweep, no step brings a row to a reverted status. -/
theorem harmless_of_step {s s' : State} {a : Step} (hs : step db readers s a = some s')
    (ha : ∀ t executed, a ≠ .firstUpdate t executed) (hb : ∀ t executed, a ≠ .secondUpdate t executed)
    (hc : ∀ now executed, a ≠ .sweep now executed) :
    Harmless s.iaTransactions s'.iaTransactions := by
  cases a with
  | request =>
    cases hs
    exact .insert
  | answer t xml executed =>
    obtain ⟨thread, ht, hs⟩ := Option.bind_eq_some_iff.mp hs
    split at hs
    · split at hs <;> cases hs
      · exact .refl _
      · exact Harmless.update (.refl _) fun _ hr => by cases hr
      · exact .refl _
      · exact .refl _
    · cases hs
  | refusal t response executed =>
    obtain ⟨thread, ht, hs⟩ := Option.bind_eq_some_iff.mp hs
    split at hs
    · cases hs
      exact keeps_linkLogError _ (.refl _)
    · cases hs
  | firstUpdate t executed => exact absurd rfl (ha t executed)
  | assign t | mail t =>
    obtain ⟨thread, ht, hs⟩ := Option.bind_eq_some_iff.mp hs
    split at hs <;> cases hs
    exact .refl _
  | secondUpdate t executed => exact absurd rfl (hb t executed)
  | status xml clientTransactionId executed =>
    cases hs
    exact keeps_autheticate _ (.refl _)
  | callback =>
    cases hs
    exact .refl _
  | reportStored r executed =>
    obtain ⟨retrieval, _, rfl⟩ := Option.map_eq_some_iff.mp hs
    exact Harmless.update (.refl _) fun _ hr => hr
  | reportFailed r response executed =>
    obtain ⟨retrieval, _, rfl⟩ := Option.map_eq_some_iff.mp hs
    exact keeps_reportLogError _ (.refl _)
  | sweep now executed => exact absurd rfl (hc now executed)

theorem reverts_link_iff {s s' : State} {t : Nat} {thread : LinkThread} {url : Option String}
    {status : Status} {message : Option String} {expiryDate : Int} (ht : s.links[t]? = some thread)
    (hs : s'.iaTransactions = DatabaseUtil.updateTransactionsLink db thread.clientTransactionId none
      status none message 0 url expiryDate executed s.iaTransactions) (hr : reverted status) :
    Reverts s.iaTransactions s'.iaTransactions ↔ executed ∧ ∃ thread ∈ s.links[t]?,
      ∃ row ∈ s.iaTransactions, row.status = .COMPLETED ∧
        DatabaseUtil.hasId db thread.clientTransactionId row := by
  rw [hs, DatabaseUtil.updateTransactionsLink, reverts_update_iff fun _ => hr, ht]
  simp

theorem reverts_iff {s s' : State} {a : Step} (hs : step db readers s a = some s') :
    Reverts s.iaTransactions s'.iaTransactions ↔ OverwritesCompleted db s a := by
  by_cases ha : ∃ t executed, a = .firstUpdate t executed
  · obtain ⟨t, executed, rfl⟩ := ha
    obtain ⟨thread, ht, hs⟩ := Option.bind_eq_some_iff.mp hs
    split at hs <;> cases hs
    exact reverts_link_iff ht rfl rfl
  by_cases hb : ∃ t executed, a = .secondUpdate t executed
  · obtain ⟨t, executed, rfl⟩ := hb
    obtain ⟨thread, ht, hs⟩ := Option.bind_eq_some_iff.mp hs
    split at hs <;> cases hs
    exact reverts_link_iff ht rfl rfl
  by_cases hc : ∃ now executed, a = .sweep now executed
  · obtain ⟨now, executed, rfl⟩ := hc
    cases hs
    exact reverts_update_iff fun _ => rfl
  have hno : ¬ OverwritesCompleted db s a := by
    cases a <;> simp_all [OverwritesCompleted]
  refine iff_of_false (harmless_of_step hs ?_ ?_ ?_).not_reverts hno
  · exact fun t x h => ha ⟨t, x, h⟩
  · exact fun t x h => hb ⟨t, x, h⟩
  · exact fun now x h => hc ⟨now, x, h⟩

/-- A run keeps every completed row from INIT_RESPONSE_RECEIVED, EMAIL_SENT and EXPIRED exactly
when none of its steps is an update of a link generation of a completed transaction, or a sweep
at or after the expiry date of one. -/
theorem completed_kept_iff {h : List Step} {s : State} :
    Run (step db readers) (fun _ s a => CompletedKept db readers s a) init h s ↔
      Run (step db readers) (fun _ s a => ¬ OverwritesCompleted db s a) init h s := by
  constructor
  · exact Run.weaken fun _ s a s' hs hk => fun ho => hk s' hs ((reverts_iff hs).mpr ho)
  · exact Run.weaken fun _ s a s' _ ho s'' hs'' hr => ho ((reverts_iff hs'').mp hr)

def successXml : String :=
  "<Success><url>https://link</url><expires>2018-01-01 10:00</expires></Success>"

def statusXml : String :=
  "<Status files=\"available\" processing=\"completed\">" ++
    "<Part status=\"success\" perfiosTransactionId=\"P1\"/></Status>"

def documentReaders : Readers where
  generateUrlSuccess xml :=
    if xml = successXml then some ⟨some "https://link", some "2018-01-01 10:00"⟩ else none
  errorResponse _ := none
  transactionStatus xml :=
    if xml = statusXml then
      some ⟨some "available", some "completed", some ⟨some "success", some "P1", none⟩⟩
    else none
  convert date := if date = some "2018-01-01 10:00" then some 1514800800000 else none

def linkRequested : List Step :=
  [.request "T1" 1 none true, .answer 0 successXml true, .assign 0, .firstUpdate 0 true, .mail 0 true]

def statusArrives : Step := .status (some statusXml) (some "T1") true

theorem reverts_of_exec {h : List Step} {a : Step}
    (hx : (exec (step db readers) init h).any fun s =>
      (step db readers s a).isSome && decide (OverwritesCompleted db s a)) :
    ∃ s s', Run (step db readers) AnyStep init h s ∧ step db readers s a = some s' ∧
      Reverts s.iaTransactions s'.iaTransactions := by
  obtain ⟨s, s', hr, hs, ho⟩ := exists_run_of_exec hx
  exact ⟨s, s', hr, hs, (reverts_iff hs).mpr (of_decide_eq_true ho)⟩

/-- A sweep after the expiry date, and a second update that comes after the completion. -/
theorem completed_row_reverts :
    (∃ s s', Run (step .plain documentReaders) AnyStep init
        (linkRequested ++ [.secondUpdate 0 true, statusArrives]) s ∧
      step .plain documentReaders s (.sweep 1514800800000 true) = some s' ∧
      Reverts s.iaTransactions s'.iaTransactions) ∧
    (∃ s s', Run (step .plain documentReaders) AnyStep init
        (linkRequested ++ [statusArrives]) s ∧
      step .plain documentReaders s (.secondUpdate 0 true) = some s' ∧
      Reverts s.iaTransactions s'.iaTransactions) :=
  ⟨reverts_of_exec (by decide +kernel), reverts_of_exec (by decide +kernel)⟩

end InsightsAssist.TransactionStatus
