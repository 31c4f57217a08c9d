import InsightsAssist.LinkRequests

/-! Which kind of answer a document of the provider is taken for. The post-processing looks for
names of root elements anywhere in the text. -/
namespace InsightsAssist.DocumentKinds
open Java

/-- What is known of XStream and of the XML parser under it: `root` is the name of the root
element of a well-formed document, and an Error document is read as no other bean. -/
structure XStream (readers : Readers) (root : String → Option String) : Prop where
  start_tag : ∀ {xml name}, root xml = some name → contains xml ("<" ++ name)
  not_status : ∀ {xml}, root xml = some "Error" → readers.transactionStatus xml = none
  not_success : ∀ {xml}, root xml = some "Error" → readers.generateUrlSuccess xml = none

structure IsError (readers : Readers) (root : String → Option String) (xml : String)
    (error : ErrorResponseXml) : Prop where
  root_eq : root xml = some "Error"
  read_eq : readers.errorResponse xml = some error

structure IsStatus (readers : Readers) (root : String → Option String) (xml : String)
    (status : TransactionStatusResponseXml) : Prop where
  root_eq : root xml = some "Status"
  read_eq : readers.transactionStatus xml = some status

structure IsSuccess (readers : Readers) (root : String → Option String) (xml : String)
    (success : GenerateUrlSuccess) : Prop where
  root_eq : root xml = some "Success"
  read_eq : readers.generateUrlSuccess xml = some success

def ReturnUrlRecords (readers : Readers) (xml : String) (error : ErrorResponseXml) : Prop :=
  ∀ db clientTransactionId executed table,
    (HandleReturnUrlPostProcess.autheticate db readers (some xml) clientTransactionId executed).run
        table =
      (.ok none, DatabaseUtil.updateTransactions db clientTransactionId none .ERROR error.code
        error.message 0 executed table)

def LinkRecordsError (readers : Readers) (xml : String) : Prop :=
  ∀ db clientTransactionId effects s,
    (GenerateLinkPostProcess.autheticate db readers clientTransactionId effects xml).run s =
      (.ok (), { s with
        iaTransactions := DatabaseUtil.updateTransactions db clientTransactionId none .ERROR none
          (some "ERROR") 0 effects.error s.iaTransactions })

def ProcessedAsStatus (readers : Readers) (xml : String) (status : TransactionStatusResponseXml) :
    Prop :=
  ∀ db clientTransactionId executed table,
    (HandleReturnUrlPostProcess.autheticate db readers (some xml) clientTransactionId executed).run
        table =
      (HandleReturnUrlPostProcess.checkFilesAvailable db status clientTransactionId executed).run
        table

/-- The document is processed as this Success; a date that cannot be converted is logged. -/
def ProcessedAsSuccess (readers : Readers) (xml : String) (success : GenerateUrlSuccess) : Prop :=
  GenerateLinkPostProcess.read readers xml = match readers.convert success.expires with
    | some expires => .success success.url expires
    | none => .caught

variable {readers : Readers} {root : String → Option String} {xml : String}
  {error : ErrorResponseXml} {status : TransactionStatusResponseXml} {success : GenerateUrlSuccess}

theorem contains_root (hx : XStream readers root) {name : String} (h : root xml = some name) :
    contains xml name := by
  have htag := hx.start_tag h
  rw [contains, decide_eq_true_iff] at htag ⊢
  refine List.IsInfix.trans ?_ htag
  rw [String.toList_append]
  exact (List.suffix_append _ _).isInfix

theorem returnUrl_status (hstatus : contains xml "Status") (db : Database)
    (clientTransactionId : Option String) (executed : Bool) :
    HandleReturnUrlPostProcess.autheticate db readers (some xml) clientTransactionId executed =
      (Java.deref (some xml) >>= fun xml => Java.read (readers.transactionStatus xml) >>=
        fun response => HandleReturnUrlPostProcess.checkFilesAvailable db response
          clientTransactionId executed) := by
  rw [HandleReturnUrlPostProcess.autheticate, if_pos (by simpa using hstatus)]

theorem returnUrlRecords_iff (hx : XStream readers root) (h : IsError readers root xml error) :
    ReturnUrlRecords readers xml error ↔ contains xml "Status" = false := by
  constructor
  · intro hrecords
    by_contra hstatus
    rw [Bool.not_eq_false] at hstatus
    have hrun := hrecords .plain none true []
    rw [returnUrl_status hstatus] at hrun
    simp [Prog.run_bind, hx.not_status h.root_eq] at hrun
  · intro hstatus db clientTransactionId executed table
    have herror := contains_root hx h.root_eq
    rw [HandleReturnUrlPostProcess.autheticate, if_neg (by simp [hstatus]),
      if_pos (by simpa using herror)]
    simp [Prog.run_bind, h.read_eq]

def oneRow : LinkStore where
  iaTransactions := DatabaseUtil.insertIntoTransactions .plain "t" 1 .INITIATED none 0 none true []
  expiryDate := none

theorem linkRecordsError_iff (hx : XStream readers root) (h : IsError readers root xml error) :
    LinkRecordsError readers xml ↔ contains xml "Success" = false := by
  constructor
  · intro hrecords
    by_contra hsuccess
    rw [Bool.not_eq_false] at hsuccess
    have hread : GenerateLinkPostProcess.read readers xml = .caught := by
      rw [GenerateLinkPostProcess.read, if_pos hsuccess, hx.not_success h.root_eq]
    have hrun := hrecords .plain "t" ⟨true, true, true, true⟩ oneRow
    rw [GenerateLinkPostProcess.autheticate, hread] at hrun
    exact absurd (congrArg (fun r => r.2.iaTransactions.map (·.status)) hrun) (by decide)
  · intro hsuccess db clientTransactionId effects s
    have herror := contains_root hx h.root_eq
    have hread : GenerateLinkPostProcess.read readers xml = .error := by
      rw [GenerateLinkPostProcess.read, if_neg (by simp [hsuccess]), if_pos herror]
    rw [GenerateLinkPostProcess.autheticate, hread]
    rfl

theorem processedAsStatus (hx : XStream readers root) (h : IsStatus readers root xml status) :
    ProcessedAsStatus readers xml status := by
  intro db clientTransactionId executed table
  rw [returnUrl_status (contains_root hx h.root_eq)]
  simp [Prog.run_bind, h.read_eq]

theorem processedAsSuccess (hx : XStream readers root) (h : IsSuccess readers root xml success) :
    ProcessedAsSuccess readers xml success := by
  rw [ProcessedAsSuccess, GenerateLinkPostProcess.read, if_pos (contains_root hx h.root_eq),
    h.read_eq]
  simp only
  cases readers.convert success.expires <;> rfl

/-- A Status and a Success are always taken for what they are. An Error is, by each of the two,
iff its text does not hold the name that is looked for first. -/
theorem kind_taken_iff (hx : XStream readers root) (xml : String) :
    (∀ status, IsStatus readers root xml status → ProcessedAsStatus readers xml status) ∧
    (∀ success, IsSuccess readers root xml success → ProcessedAsSuccess readers xml success) ∧
    ∀ error, IsError readers root xml error →
      (ReturnUrlRecords readers xml error ↔ contains xml "Status" = false) ∧
        (LinkRecordsError readers xml ↔ contains xml "Success" = false) :=
  ⟨fun _ => processedAsStatus hx, fun _ => processedAsSuccess hx,
    fun _ h => ⟨returnUrlRecords_iff hx h, linkRecordsError_iff hx h⟩⟩

/-! ### A reader of flat documents -/

/-- The name behind the first character of a document without a prolog. -/
def flatRoot (xml : String) : Option String :=
  match xml.toList with
  | '<' :: rest => some (.ofList (rest.takeWhile fun c => c ≠ '>' ∧ c ≠ ' '))
  | _ => none

def flatText (xml name : String) : Option String :=
  xml.toList.tails.findSome? fun rest =>
    if ("<" ++ name ++ ">").toList <+: rest then
      some (.ofList ((rest.drop (name.toList.length + 2)).takeWhile (· ≠ '<')))
    else none

/-- Documents without attributes, whose elements hold plain text. -/
def flatReaders : Readers where
  generateUrlSuccess xml :=
    if flatRoot xml = some "Success" then some ⟨flatText xml "url", flatText xml "expires"⟩
    else none
  errorResponse xml :=
    if flatRoot xml = some "Error" then some ⟨flatText xml "code", flatText xml "message"⟩
    else none
  transactionStatus xml :=
    if flatRoot xml = some "Status" then some ⟨none, none, none⟩ else none
  convert _ := none

theorem flat_xStream : XStream flatReaders flatRoot := by
  refine ⟨?_, fun h => by simp [flatReaders, h], fun h => by simp [flatReaders, h]⟩
  intro xml name h
  rw [flatRoot] at h
  split at h
  · rename_i rest hrest
    cases h
    have htag (name : List Char) : ("<" ++ String.ofList name).toList = '<' :: name := by simp
    rw [contains, decide_eq_true_iff, hrest, htag]
    exact (List.cons_prefix_cons.mpr ⟨rfl, List.takeWhile_prefix _⟩).isInfix
  · cases h

def refusedDocument : String := "<Error><code>E7</code><message>Bad vendor</message></Error>"

def wordyDocument : String :=
  "<Error><code>E8</code><message>Status of Success URL unknown</message></Error>"

theorem flat_error {xml : String} (h : flatRoot xml = some "Error") :
    IsError flatReaders flatRoot xml ⟨flatText xml "code", flatText xml "message"⟩ :=
  ⟨h, by simp [flatReaders, h]⟩

theorem kind_taken_refused :
    XStream flatReaders flatRoot ∧
      IsError flatReaders flatRoot refusedDocument ⟨some "E7", some "Bad vendor"⟩ ∧
      ReturnUrlRecords flatReaders refusedDocument ⟨some "E7", some "Bad vendor"⟩ ∧
      LinkRecordsError flatReaders refusedDocument := by
  have herror : IsError flatReaders flatRoot refusedDocument ⟨some "E7", some "Bad vendor"⟩ :=
    flat_error (by decide)
  have hkinds := (kind_taken_iff flat_xStream refusedDocument).2.2 _ herror
  exact ⟨flat_xStream, herror, hkinds.1.mpr (by decide), hkinds.2.mpr (by decide)⟩

/-- An Error with the other names in its message is recorded by neither. -/
theorem wordy_not_recorded :
    XStream flatReaders flatRoot ∧
      IsError flatReaders flatRoot wordyDocument
        ⟨some "E8", some "Status of Success URL unknown"⟩ ∧
      (HandleReturnUrlPostProcess.autheticate .plain flatReaders (some wordyDocument) (some "t")
          true).run oneRow.iaTransactions =
        (.error (.external "unreadable"), oneRow.iaTransactions) ∧
      (GenerateLinkPostProcess.autheticate .plain flatReaders "t" ⟨true, true, true, true⟩
        wordyDocument).run oneRow = (.ok (), oneRow) ∧
      ¬ ReturnUrlRecords flatReaders wordyDocument
        ⟨some "E8", some "Status of Success URL unknown"⟩ ∧
      ¬ LinkRecordsError flatReaders wordyDocument := by
  have herror : IsError flatReaders flatRoot wordyDocument
      ⟨some "E8", some "Status of Success URL unknown"⟩ := flat_error (by decide)
  refine ⟨flat_xStream, herror, by decide, by decide, ?_, ?_⟩
  · rw [returnUrlRecords_iff flat_xStream herror]
    decide
  · rw [linkRecordsError_iff flat_xStream herror]
    decide

end InsightsAssist.DocumentKinds
