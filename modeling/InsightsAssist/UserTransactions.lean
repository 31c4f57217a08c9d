import InsightsAssist.LinkGeneration
import InsightsAssist.SessionMaps

/-! What is shown of the transactions: FetchUserData answers with those of the user who is logged
in, DownloadReport with the report of any of them, while links are generated, sessions come and go
and every statement of DatabaseUtil is run, in any order. -/
namespace InsightsAssist.UserTransactions
open Java
open AdminReplies (GenericResultBean)
open SessionService (User Call getUser)
variable {Key : Type}

/-- The bean that jOOQ reads a row into. No column has the name of the field for the link. -/
structure UserData where
  transactionId : String
  perfiosTranscationId : Option String
  userId : Int
  genratedLink : Option String
  expiryDate : Option Int
  status : Status
  insightsStatus : Option String
  message : Option String
  reportLocation : Option String
  isDeleted : Bool
  formDataJson : Option String
  deriving DecidableEq, Repr

def UserData.into (row : Transaction) : UserData where
  transactionId := row.transactionId
  perfiosTranscationId := row.perfiosTransactionId
  userId := row.userId
  genratedLink := none
  expiryDate := row.expiryDate
  status := row.status
  insightsStatus := row.insightsStatus
  message := row.message
  reportLocation := row.reportLocation
  isDeleted := row.isDeleted = 1
  formDataJson := row.formDataJson

/-- The statements of DatabaseUtil on rows that are there. -/
inductive Statement where
  | updateReportLocation (clientTransactionId reportLocation : Option String)
  | updateTransactions (clientTransactionId perfiosTransactionId : Option String) (status : Status)
      (insightsStatus message : Option String) (isDeleted : Int)
  | updateTransactionsLink (clientTransactionId perfiosTransactionId : Option String)
      (status : Status) (insightsStatus message : Option String) (isDeleted : Int)
      (generatedUrl : Option String) (expiryDate : Int)
  | updateTransactionStatus (clientTransactionId : Option String) (status : Status)
      (message : Option String)
  | updateExpiryDateStatus (now : Int)

def Statement.run (db : Database) : Statement → Bool → Table → Table
  | .updateReportLocation id reportLocation =>
    DatabaseUtil.updateReportLocation db id reportLocation
  | .updateTransactions id perfiosTransactionId status insightsStatus message isDeleted =>
    DatabaseUtil.updateTransactions db id perfiosTransactionId status insightsStatus message
      isDeleted
  | .updateTransactionsLink id perfiosTransactionId status insightsStatus message isDeleted
      generatedUrl expiryDate =>
    DatabaseUtil.updateTransactionsLink db id perfiosTransactionId status insightsStatus message
      isDeleted generatedUrl expiryDate
  | .updateTransactionStatus id status message =>
    DatabaseUtil.updateTransactionStatus db id status message
  | .updateExpiryDateStatus now => DatabaseUtil.updateExpiryDateStatus now

structure State where
  sessions : SessionService.State User
  iaTransactions : Table

def init : State := ⟨SessionService.init, []⟩

/-- A call of the session service, a request for a link from a session, or a statement, with the
flag whether the database carries it out. -/
inductive Event where
  | call (c : Call User)
  | generate (sessionId : Option String) (request : LinkGeneration.Request)
  | statement (st : Statement) (executed : Bool)

def ofSession (s : State) (sessionId : Option String) (request : LinkGeneration.Request) :
    LinkGeneration.Request :=
  { request with user := getUser s.sessions sessionId }

variable (db : Database) (p : LinkGeneration.Platform Key)

def step (s : State) : Event → State
  | .call c => { s with sessions := ((SessionService.call User.userId c).run s.sessions).2 }
  | .generate sessionId request =>
    let after := LinkGeneration.after db p (ofSession s sessionId request) s.iaTransactions
    { s with iaTransactions := after.iaTransactions }
  | .statement st executed => { s with iaTransactions := st.run db executed s.iaTransactions }

/-! ### The two actions that read the table -/

/-- `selectFrom`, in the order of the keys; a select that throws is logged. -/
def getUserData (toJson : List UserData → String) (userId : Int) (executed : Bool)
    (table : Table) : Option String :=
  if executed then some (toJson ((table.filter (·.userId = userId)).map UserData.into)) else none

/-- `FetchUserData.execute`. -/
def fetchUserData (toJson : List UserData → String) (s : State) (sessionId : Option String)
    (executed : Bool) : GenericResultBean :=
  match getUser s.sessions sessionId with
  | none => ⟨some "LOGIN_REQUIRED", false⟩
  | some user => ⟨getUserData toJson user.userId executed s.iaTransactions, true⟩

/-- `fetchValue` throws where more than one row is found, and that is caught. -/
def fetchReportLocation (clientTransactionId : Option String) (executed : Bool) (table : Table) :
    Option String :=
  if executed then
    match table.filter (DatabaseUtil.hasId db clientTransactionId) with
    | [row] => row.reportLocation
    | _ => none
  else none

structure Response where
  status : Nat
  contentType : Option String
  disposition : Option String
  contentLength : Option Int32
  body : List UInt8
  deriving DecidableEq, Repr

def newResponse : Response := ⟨200, none, none, none, []⟩

/-- `DownloadReport.execute`; a file that is not there has length 0 and cannot be opened. -/
def downloadReport (files : String → Option (List UInt8)) (table : Table)
    (clientTransactionId : Option String) (executed : Bool) : Response :=
  match fetchReportLocation db clientTransactionId executed table with
  | none => newResponse
  | some reportLocation =>
    let response := { newResponse with
      contentType := some "application/pdf"
      disposition := some ("attachment; filename=" ++ clientTransactionId.getD "null" ++ ".pdf")
      contentLength := some (Int32.ofNat ((files reportLocation).getD []).length) }
    match files reportLocation with
    | some content => { response with body := content }
    | none => { response with status := 500 }

/-! ### The transactions as they were created -/

/-- What the row of a transaction keeps, and the one column that the download reads. -/
structure Entry where
  transactionId : String
  userId : Int
  formDataJson : Option String
  reportLocation : Option String
  deriving DecidableEq, Repr

def Entry.of (row : Transaction) : Entry :=
  ⟨row.transactionId, row.userId, row.formDataJson, row.reportLocation⟩

def UserData.entry (data : UserData) : Entry :=
  ⟨data.transactionId, data.userId, data.formDataJson, data.reportLocation⟩

/-- The form is valid and the key of its organisation can be read. -/
def accepted (request : LinkGeneration.Request) : Bool :=
  match request.fromJson, LinkGeneration.buildPrivateKey p request.insightsKey with
  | .ok (some form), .ok _ => form.validate
  | _, _ => false

/-- The transaction that an event creates, for the user of the session. -/
def creation (s : State) : Event → Option Entry
  | .generate sessionId request =>
    (getUser s.sessions sessionId).bind fun user =>
      if accepted p request && request.inserted then
        some ⟨request.clientTransactionId, user.userId, request.json, none⟩
      else none
  | .call _ | .statement _ _ => none

/-- The report location of a transaction after an event: only the statement for its id sets it. -/
def recorded (transactionId : String) (reportLocation : Option String) : Event → Option String
  | .statement (.updateReportLocation id location) executed =>
    if executed && id.any (db.equal transactionId) then location else reportLocation
  | _ => reportLocation

def Entry.after (h : List Event) (entry : Entry) : Entry :=
  { entry with
    reportLocation := h.foldl (recorded db entry.transactionId) entry.reportLocation }

/-- All transactions that the events create, each with the location recorded last after it. -/
def ledger : State → List Event → List Entry
  | _, [] => []
  | s, e :: h => ((creation p s e).map (Entry.after db h)).toList ++ ledger (step db p s e) h

section Entries
variable {db p} {table : Table} {s : State} {entry : Entry}

theorem update_entries (condition : Transaction → Bool) (set : Transaction → Transaction)
    (executed : Bool) (table : Table) :
    (DatabaseUtil.update condition set executed table).map Entry.of =
      table.map fun row => Entry.of (if executed && condition row then set row else row) := by
  cases executed with
  | false => simp [DatabaseUtil.update]
  | true => simp [DatabaseUtil.update]

theorem update_entries_of_kept {condition : Transaction → Bool} {set : Transaction → Transaction}
    (hset : ∀ row, Entry.of (set row) = Entry.of row) (executed : Bool) (table : Table) :
    (DatabaseUtil.update condition set executed table).map Entry.of = table.map Entry.of := by
  rw [update_entries]
  refine List.map_congr_left fun row _ => ?_
  split
  · exact hset row
  · rfl

theorem statement_entries (st : Statement) (executed : Bool) (table : Table) :
    (st.run db executed table).map Entry.of =
      (table.map Entry.of).map (Entry.after db [.statement st executed]) := by
  rw [List.map_map]
  cases st with
  | updateReportLocation id location =>
    refine (update_entries _ _ _ _).trans (List.map_congr_left fun row _ => ?_)
    have hset : Entry.of (if executed && id.any (db.equal row.transactionId) then
        { row with reportLocation := location } else row) =
        Entry.after db [.statement (.updateReportLocation id location) executed]
          (Entry.of row) := by
      simp only [Entry.after, Entry.of, List.foldl_cons, List.foldl_nil, recorded]
      split <;> rfl
    exact hset
  | updateTransactions => exact update_entries_of_kept (fun _ => by rfl) _ _
  | updateTransactionsLink => exact update_entries_of_kept (fun _ => by rfl) _ _
  | updateTransactionStatus => exact update_entries_of_kept (fun _ => by rfl) _ _
  | updateExpiryDateStatus => exact update_entries_of_kept (fun _ => by rfl) _ _

theorem refuse_table (request : LinkGeneration.Request) (message : Option String) :
    ((LinkGeneration.refuse request message).run (LinkGeneration.start table)).2.iaTransactions =
      table := by
  rw [LinkGeneration.refuse, LinkGeneration.setStatus, Prog.run_bind_ok (Prog.run_modify _ _)]
  cases request.delivered <;> rfl

theorem after_of_user {request : LinkGeneration.Request} {user : User}
    (huser : request.user = some user) :
    (LinkGeneration.after db p request table).iaTransactions =
      DatabaseUtil.insertIntoTransactions db request.clientTransactionId user.userId .INITIATED
        request.json 0 (some "Initial Request sent") (accepted p request && request.inserted)
        table := by
  rw [LinkGeneration.after, LinkGeneration.execute, huser, accepted]
  rcases request.fromJson with e | _ | form
  · exact refuse_table request _
  · exact refuse_table request _
  · simp only
    cases hvalid : form.validate with
    | false =>
      rw [if_neg Bool.false_ne_true, refuse_table]
      cases LinkGeneration.buildPrivateKey p request.insightsKey with
      | error e => rfl
      | ok key =>
        simp only [hvalid]
        rfl
    | true =>
      rw [if_pos rfl]
      cases hkey : LinkGeneration.buildPrivateKey p request.insightsKey with
      | error e =>
        rw [LinkGeneration.generate_error hkey]
        rfl
      | ok key =>
        simp only [hvalid, Bool.true_and]
        exact (LinkGeneration.generate_ok hkey).2

theorem generate_entries (sessionId : Option String) (request : LinkGeneration.Request)
    (s : State) :
    (step db p s (.generate sessionId request)).iaTransactions.map Entry.of =
      s.iaTransactions.map Entry.of ++ (creation p s (.generate sessionId request)).toList := by
  cases huser : getUser s.sessions sessionId with
  | none =>
    simp only [step, creation, LinkGeneration.after, LinkGeneration.execute, ofSession, huser]
    cases request.delivered <;> exact (List.append_nil _).symm
  | some user =>
    have hafter : (LinkGeneration.after db p (ofSession s sessionId request)
        s.iaTransactions).iaTransactions = _ := after_of_user huser
    rw [step, hafter, creation, huser]
    change List.map Entry.of (DatabaseUtil.insertIntoTransactions _ _ _ _ _ _ _
      (accepted p request && request.inserted) _) = _
    cases haccepted : accepted p request && request.inserted with
    | false => simp [DatabaseUtil.insertIntoTransactions]
    | true => simp [DatabaseUtil.insertIntoTransactions, Entry.of, ofSession]

theorem step_entries (s : State) (e : Event) :
    (step db p s e).iaTransactions.map Entry.of =
      (s.iaTransactions.map Entry.of).map (Entry.after db [e]) ++ (creation p s e).toList := by
  have hkept : ∀ e : Event, (∀ id location, recorded db id location e = location) →
      ∀ entries : List Entry, entries.map (Entry.after db [e]) = entries := by
    intro e he entries
    refine (List.map_congr_left fun entry _ => ?_).trans (List.map_id entries)
    simp only [Entry.after, List.foldl_cons, List.foldl_nil, he, id]
  cases e with
  | call c =>
    rw [hkept _ fun _ _ => rfl]
    exact (List.append_nil _).symm
  | generate sessionId request =>
    rw [hkept _ fun _ _ => rfl]
    exact generate_entries sessionId request s
  | statement st executed =>
    exact (statement_entries st executed s.iaTransactions).trans (List.append_nil _).symm

/-- The rows of the table are the transactions created so far, over any run. -/
theorem table_entries (h : List Event) (s : State) :
    (h.foldl (step db p) s).iaTransactions.map Entry.of =
      (s.iaTransactions.map Entry.of).map (Entry.after db h) ++ ledger db p s h := by
  induction h generalizing s with
  | nil => simp [ledger, Entry.after]
  | cons e h ih =>
    rw [List.foldl_cons, ih, step_entries, List.map_append, List.map_map, List.append_assoc]
    congr 1
    rw [ledger]
    cases creation p s e <;> rfl

theorem table_ledger (h : List Event) :
    (h.foldl (step db p) init).iaTransactions.map Entry.of = ledger db p init h :=
  table_entries h init

end Entries

/-- A user is answered with the transactions that were created in sessions of his own, all of them
and no others, and a session without a user with none. -/
theorem fetched_own (toJson : List UserData → String) (h : List Event)
    (sessionId : Option String) :
    (getUser (h.foldl (step db p) init).sessions sessionId = none ∧
      fetchUserData toJson (h.foldl (step db p) init) sessionId true =
        ⟨some "LOGIN_REQUIRED", false⟩) ∨
    ∃ user rows, getUser (h.foldl (step db p) init).sessions sessionId = some user ∧
      fetchUserData toJson (h.foldl (step db p) init) sessionId true =
        ⟨some (toJson rows), true⟩ ∧
      rows.map UserData.entry = (ledger db p init h).filter (·.userId = user.userId) := by
  cases huser : getUser (h.foldl (step db p) init).sessions sessionId with
  | none =>
    refine .inl ⟨rfl, ?_⟩
    rw [fetchUserData, huser]
  | some user =>
    refine .inr ⟨user, ((h.foldl (step db p) init).iaTransactions.filter
      (·.userId = user.userId)).map UserData.into, rfl, ?_, ?_⟩
    · rw [fetchUserData, huser]
      rfl
    · rw [← table_ledger, List.filter_map, List.map_map]
      rfl

def report (clientTransactionId : Option String) (content : List UInt8) : Response where
  status := 200
  contentType := some "application/pdf"
  disposition := some ("attachment; filename=" ++ clientTransactionId.getD "null" ++ ".pdf")
  contentLength := some (Int32.ofNat content.length)
  body := content

theorem downloadReport_eq_report {files : String → Option (List UInt8)} {table : Table}
    {clientTransactionId : Option String} {content : List UInt8} :
    downloadReport db files table clientTransactionId true = report clientTransactionId content ↔
      ∃ reportLocation, fetchReportLocation db clientTransactionId true table =
        some reportLocation ∧ files reportLocation = some content := by
  unfold downloadReport
  cases hlocation : fetchReportLocation db clientTransactionId true table with
  | none => simp [newResponse, report]
  | some reportLocation =>
    cases hfile : files reportLocation with
    | none => simp [hfile, newResponse, report]
    | some found =>
      simp only [hfile, Option.some.injEq, exists_eq_left']
      constructor
      · exact fun h => congrArg Response.body h
      · rintro rfl
        rfl

theorem fetchReportLocation_eq_some {table : Table} {clientTransactionId : Option String}
    {reportLocation : String} :
    fetchReportLocation db clientTransactionId true table = some reportLocation ↔
      ∃ entry : Entry, (table.map Entry.of).filter (fun entry =>
        clientTransactionId.any (db.equal entry.transactionId)) = [entry] ∧
        entry.reportLocation = some reportLocation := by
  have hfilter : (table.map Entry.of).filter (fun entry =>
      clientTransactionId.any (db.equal entry.transactionId)) =
      (table.filter (DatabaseUtil.hasId db clientTransactionId)).map Entry.of := List.filter_map ..
  rw [hfilter, fetchReportLocation, if_pos rfl]
  rcases table.filter (DatabaseUtil.hasId db clientTransactionId) with _ | ⟨row, _ | ⟨other, rows⟩⟩
  · simp
  · simp [Entry.of]
  · simp

/-- Whoever asks is answered with the report of a transaction exactly if it is the only one created
with that id, at the location recorded last after it was created. -/
theorem downloaded_iff (files : String → Option (List UInt8)) (h : List Event)
    (clientTransactionId : Option String) (content : List UInt8) :
    downloadReport db files (h.foldl (step db p) init).iaTransactions clientTransactionId true =
        report clientTransactionId content ↔
      ∃ entry reportLocation, (ledger db p init h).filter (fun entry =>
          clientTransactionId.any (db.equal entry.transactionId)) = [entry] ∧
        entry.reportLocation = some reportLocation ∧ files reportLocation = some content := by
  simp only [downloadReport_eq_report, fetchReportLocation_eq_some, table_ledger]
  constructor
  · rintro ⟨reportLocation, ⟨entry, hentry, hlocation⟩, hfile⟩
    exact ⟨entry, reportLocation, hentry, hlocation, hfile⟩
  · rintro ⟨entry, reportLocation, hentry, hlocation, hfile⟩
    exact ⟨reportLocation, ⟨entry, hentry, hlocation⟩, hfile⟩

end InsightsAssist.UserTransactions
