import InsightsAssist.AdminReplies
import InsightsAssist.SessionService
import InsightsAssist.SignedPayloads
import InsightsAssist.Transactions

/-! The action that starts a link generation: the checks, the row, the request to the provider
and the answer. What the insert returns is not looked at. -/
namespace InsightsAssist.LinkGeneration
open Java SignedPayloads
open AdminReplies (GenericResultBean SC_BAD_REQUEST)
open SessionService (User)

structure LoanForm where
  emailId : Option String
  name : Option String
  mobileNumber : Option String
  organisation : Option String
  loanType : Option String
  loanAmount : Int32
  loanDuration : Int32
  deriving DecidableEq, Repr

/-- `@NotBlank`: neither null nor without a character besides blanks. -/
def violatesNotBlank (text : Option String) : Bool := text.all (trim · = "")

def LoanForm.errorMessages (form : LoanForm) : List String :=
  ([(violatesNotBlank form.emailId, "EMPTY_EMAIL_ID"), (violatesNotBlank form.name, "EMPTY_NAME"),
    (violatesNotBlank form.mobileNumber, "EMPTY_MOBILE_NUMBER"),
    (violatesNotBlank form.loanType, "EMPTY_LOAN_TYPE"),
    (form.loanAmount < 1, "INVALID_LOAN_AMOUNT"),
    (form.loanDuration < 1, "INVALID_LOAN_DURATION")].filter Prod.fst).map Prod.snd

def LoanForm.validate (form : LoanForm) : Bool := form.errorMessages.isEmpty

structure ProviderRequest where
  signature : String
  payload : List Char
  clientTransactionId : String
  userId : Int
  emailId : Option String
  deriving DecidableEq, Repr

/-- The table, the requests that have been started, and the response so far. -/
structure State where
  iaTransactions : Table
  requests : List ProviderRequest
  status : Nat
  written : List GenericResultBean
  deriving DecidableEq

def SC_FORBIDDEN : Nat := 403

/-- What the action takes from outside: XStream, the configured URLs, the map's choice of a first
message, the reader of serialised keys, which may throw or, after an IOException, leave null, and
the signing with a key. -/
structure Platform (Key : Type) where
  xstream : XStream
  returnUrlInsights : String
  transactioncompleteUrl : String
  first : List String → Option String
  readPrivateKey : String → Except Throwable (Option Key)
  sign : Option Key → List Char → String

/-- A request with what it meets: the user of its session, the form or what its reading throws,
the random id, the organisation's key, and whether the insert and the writing of the answer are
carried out. -/
structure Request where
  user : Option User
  fromJson : Except Throwable (Option LoanForm)
  json : Option String
  clientTransactionId : String
  insightsKey : Option String
  inserted : Bool
  delivered : Bool

/-- An answer that cannot be written is logged and made a 403. -/
def sendResponse (delivered : Bool) (result : GenericResultBean) : Java State Unit :=
  modify fun s =>
    if delivered then { s with written := s.written ++ [result] }
    else { s with status := SC_FORBIDDEN }

def setStatus (sc : Nat) : Java State Unit := modify fun s => { s with status := sc }

/-- `insertIntoTransactions`; an insert that throws is logged and returns false. -/
def insertIntoTransactions (db : Database) (r : Request) (userId : Int) : Java State Bool :=
  modifyGet fun s => (r.inserted, { s with
    iaTransactions := DatabaseUtil.insertIntoTransactions db r.clientTransactionId userId .INITIATED
      r.json 0 (some "Initial Request sent") r.inserted s.iaTransactions })

def executeAsync (request : ProviderRequest) : Java State Unit :=
  modify fun s => { s with requests := s.requests ++ [request] }

variable {Key : Type} (db : Database) (p : Platform Key) (r : Request)

/-- `new StringReader(null)` throws. -/
def buildPrivateKey (privateKeySerialized : Option String) : Except Throwable (Option Key) :=
  match privateKeySerialized with
  | some serialized => p.readPrivateKey serialized
  | none => .error .nullPointer

def getInsightsPayload (form : LoanForm) : List Char :=
  p.xstream.toXML (insightsPayload p.transactioncompleteUrl form.organisation
    (some r.clientTransactionId) form.loanAmount form.loanDuration form.loanType
    (some (p.returnUrlInsights ++ r.clientTransactionId))).fields

def generate (user : User) (form : LoanForm) : Java State Unit := do
  let payload := cleaned (getInsightsPayload p r form)
  let key ← MonadExcept.ofExcept (buildPrivateKey p r.insightsKey)
  let signature := p.sign key payload
  -- the result of the insert is dropped
  let _ ← insertIntoTransactions db r user.userId
  executeAsync ⟨signature, payload, r.clientTransactionId, user.userId, form.emailId⟩
  sendResponse r.delivered ⟨some "EMAIL_SENT", true⟩

def refuse (message : Option String) : Java State Unit := do
  setStatus SC_BAD_REQUEST
  sendResponse r.delivered ⟨message, false⟩

def execute : Java State Unit :=
  match r.user with
  | none => sendResponse r.delivered ⟨some "User null", false⟩
  | some user =>
    match r.fromJson with
    | .error _ => refuse r (some "INVALID_JSON")
    | .ok none => refuse r (some "INVALID_PARAMETER")
    | .ok (some form) =>
      if form.validate then generate db p r user form
      else refuse r (p.first form.errorMessages)

def start (iaTransactions : Table) : State := ⟨iaTransactions, [], 200, []⟩

/-- The state that the request leads to, whether the action returns or throws. -/
def after (iaTransactions : Table) : State := ((execute db p r).run (start iaTransactions)).2

/-- Success is answered and the provider is asked only with the row stored. -/
def OnlyIfStored (iaTransactions : Table) (t : State) : Prop :=
  (∃ result ∈ t.written, result.success) ∨ t.requests ≠ [] →
    ∃ row, t.iaTransactions = iaTransactions ++ [row] ∧
      row.transactionId = r.clientTransactionId ∧ row.status = .INITIATED

/-- The request is of a user who is logged in, its form is valid, and its key can be read. -/
def Accepted : Prop :=
  r.user.isSome ∧ (∃ form, r.fromJson = .ok (some form) ∧ form.validate) ∧
    ∃ key, buildPrivateKey p r.insightsKey = .ok key

variable {db p r} {iaTransactions : Table}

theorem onlyIfStored_of_quiet {t : State} (hwritten : ∀ result ∈ t.written, result.success = false)
    (hrequests : t.requests = []) : OnlyIfStored r iaTransactions t := by
  rintro (⟨result, hmem, hsuccess⟩ | hstarted)
  · simp [hwritten result hmem] at hsuccess
  · exact absurd hrequests hstarted

theorem sendResponse_quiet (delivered : Bool) (message : Option String) (sc : Nat) :
    OnlyIfStored r iaTransactions ((sendResponse delivered ⟨message, false⟩).run
      { start iaTransactions with status := sc }).2 := by
  cases delivered <;> exact onlyIfStored_of_quiet (by simp [sendResponse, start]) rfl

theorem refuse_quiet (message : Option String) :
    OnlyIfStored r iaTransactions ((refuse r message).run (start iaTransactions)).2 := by
  rw [refuse, setStatus, Prog.run_bind_ok (Prog.run_modify _ _)]
  exact sendResponse_quiet _ _ _

theorem generate_error {user : User} {form : LoanForm} {e : Throwable}
    (h : buildPrivateKey p r.insightsKey = .error e) (s : State) :
    (generate db p r user form).run s = (.error e, s) := by
  simp [generate, h, Prog.run_bind]

/-- With a readable key the provider is asked, whatever became of the insert. -/
theorem generate_ok {user : User} {form : LoanForm} {key : Option Key}
    (h : buildPrivateKey p r.insightsKey = .ok key) :
    let t := ((generate db p r user form).run (start iaTransactions)).2
    t.requests ≠ [] ∧ t.iaTransactions =
      DatabaseUtil.insertIntoTransactions db r.clientTransactionId user.userId .INITIATED r.json 0
        (some "Initial Request sent") r.inserted iaTransactions := by
  simp only [generate, h]
  cases hdelivered : r.delivered <;> exact ⟨List.cons_ne_nil _ _, rfl⟩

theorem onlyIfStored_of_started {t : State} {userId : Int} (hstarted : t.requests ≠ [])
    (htable : t.iaTransactions = DatabaseUtil.insertIntoTransactions db r.clientTransactionId userId
      .INITIATED r.json 0 (some "Initial Request sent") r.inserted iaTransactions) :
    OnlyIfStored r iaTransactions t ↔ r.inserted := by
  constructor
  · intro h
    obtain ⟨row, hrow, _⟩ := h (.inr hstarted)
    by_contra hfailed
    rw [htable, DatabaseUtil.insertIntoTransactions, if_neg hfailed] at hrow
    simpa using congrArg List.length hrow
  · intro hinserted _
    rw [htable, DatabaseUtil.insertIntoTransactions, if_pos hinserted]
    exact ⟨_, rfl, rfl, rfl⟩

/-- Success and the provider request depend on the row exactly where the insert succeeds or the
action does not get as far as the insert. -/
theorem onlyIfStored_iff (db : Database) (p : Platform Key) (r : Request)
    (iaTransactions : Table) :
    OnlyIfStored r iaTransactions (after db p r iaTransactions) ↔ (Accepted p r → r.inserted) := by
  cases huser : r.user with
  | none =>
    rw [after, execute, huser]
    refine iff_of_true (sendResponse_quiet _ _ 200) fun hacc => ?_
    simp [Accepted, huser] at hacc
  | some user =>
    have hno {message : Option String}
        (hrun : execute db p r = refuse r message)
        (hform : ∀ form, r.fromJson = .ok (some form) → form.validate = false) :
        OnlyIfStored r iaTransactions (after db p r iaTransactions) ↔
          (Accepted p r → r.inserted) := by
      rw [after, hrun]
      refine iff_of_true (refuse_quiet _) fun ⟨_, ⟨form, hjson, hvalid⟩, _⟩ => ?_
      simp [hform form hjson] at hvalid
    cases hjson : r.fromJson with
    | error e =>
      refine hno (by rw [execute, huser, hjson]) fun form hform => ?_
      simp [hjson] at hform
    | ok form =>
      cases form with
      | none =>
        refine hno (by rw [execute, huser, hjson]) fun form hform => ?_
        simp [hjson] at hform
      | some form =>
        cases hvalid : form.validate with
        | false =>
          refine hno (by simp only [execute, huser, hjson, hvalid]; rfl) fun form' hform => ?_
          rw [hjson] at hform
          cases hform
          exact hvalid
        | true =>
          have hrun : execute db p r = generate db p r user form := by
            simp [execute, huser, hjson, hvalid]
          rw [after, hrun]
          cases hkey : buildPrivateKey p r.insightsKey with
          | error e =>
            rw [generate_error hkey]
            refine iff_of_true (onlyIfStored_of_quiet (by simp [start]) rfl) fun hacc => ?_
            obtain ⟨key, hkey'⟩ := hacc.2.2
            simp [hkey] at hkey'
          | ok key =>
            obtain ⟨hstarted, htable⟩ := generate_ok hkey
            have hacc : Accepted p r := ⟨by simp [huser], ⟨form, hjson, hvalid⟩, key, hkey⟩
            rw [onlyIfStored_of_started hstarted htable]
            exact ⟨fun hinserted _ => hinserted, fun himp => himp hacc⟩

def plainPlatform : Platform Unit where
  xstream := flatXStream
  returnUrlInsights := "https://acme.com/return?id="
  transactioncompleteUrl := "https://acme.com/complete"
  first := List.head?
  readPrivateKey _ := .ok (some ())
  sign _ _ := "5e11"

def lostRequest : Request where
  user := some SessionService.user1
  fromJson := .ok (some ⟨some "ann@acme.com", some "Ann", some "5550100", some "acme",
    some "Home", 500000, 24⟩)
  json := some "\x7b\x7d"
  clientTransactionId := "P4X7ABCDEFG"
  insightsKey := some "KEY"
  inserted := false
  delivered := true

/-- Without its row the transaction is requested and answered as a success. -/
theorem lost_row_reported :
    let t := after .plain plainPlatform lostRequest []
    Accepted plainPlatform lostRequest ∧ t.iaTransactions = [] ∧
      t.written = [⟨some "EMAIL_SENT", true⟩] ∧ t.requests ≠ [] ∧
      ¬ OnlyIfStored lostRequest [] t := by
  have hkey : buildPrivateKey plainPlatform lostRequest.insightsKey = .ok (some ()) := rfl
  have hvalid : ∃ form, lostRequest.fromJson = .ok (some form) ∧ form.validate :=
    ⟨_, rfl, by decide⟩
  have htable : (after .plain plainPlatform lostRequest []).iaTransactions = [] := rfl
  refine ⟨⟨rfl, hvalid, _, hkey⟩, htable, rfl, List.cons_ne_nil _ _, fun h => ?_⟩
  obtain ⟨row, hrow, _⟩ := h (.inr (List.cons_ne_nil _ _))
  simp [htable] at hrow

end InsightsAssist.LinkGeneration
