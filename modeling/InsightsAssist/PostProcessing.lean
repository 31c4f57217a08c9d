import Mathlib.Data.List.Infix
import InsightsAssist.Java
import InsightsAssist.Transactions

/-! What the provider's answers do to a transaction: the post-processing of link generation, of
the return URL's status query, and of a failed report retrieval. -/
namespace InsightsAssist

/-! ### The provider's documents -/

structure GenerateUrlSuccess where
  url : Option String
  expires : Option String
  deriving DecidableEq, Repr

structure ErrorResponseXml where
  code : Option String
  message : Option String
  deriving DecidableEq, Repr

structure StatusPart where
  status : Option String
  perfTxnId : Option String
  reason : Option String
  deriving DecidableEq, Repr

structure TransactionStatusResponseXml where
  files : Option String
  processing : Option String
  part : Option StatusPart
  deriving DecidableEq, Repr

/-- XStream reading a text as a bean, and the conversion of an expiry date; none where it
throws. -/
structure Readers where
  generateUrlSuccess : String → Option GenerateUrlSuccess
  errorResponse : String → Option ErrorResponseXml
  transactionStatus : String → Option TransactionStatusResponseXml
  convert : Option String → Option Int

def contains (xml text : String) : Bool := text.toList <:+: xml.toList

variable (db : Database) (readers : Readers)

/-! ### GenerateLinkPostProcess -/
namespace GenerateLinkPostProcess

/-- What is left to do after the answer has been read. -/
inductive Read where
  /-- a success: the URL and the converted expiry date -/
  | success (url : Option String) (expires : Int)
  /-- the reading threw; the exception is logged -/
  | caught
  | error
  | neither
  deriving DecidableEq, Repr

/-- `autheticate` up to its first effect. -/
def read (xml : String) : Read :=
  if contains xml "Success" then
    match readers.generateUrlSuccess xml with
    | none => .caught
    | some generateUrlSuccess =>
      match readers.convert generateUrlSuccess.expires with
      | none => .caught
      | some expires => .success generateUrlSuccess.url expires
  else if contains xml "Error" then .error
  else .neither

def firstUpdate (clientTransactionId url : Option String) (expiryDate : Int) :
    Bool → Table → Table :=
  DatabaseUtil.updateTransactionsLink db clientTransactionId none .INIT_RESPONSE_RECEIVED none
    (some "Initial Response recieved") 0 url expiryDate

def secondUpdate (clientTransactionId url : Option String) (expiryDate : Int) :
    Bool → Table → Table :=
  DatabaseUtil.updateTransactionsLink db clientTransactionId none .EMAIL_SENT none
    (some "Email has been sent to user") 0 url expiryDate

def errorUpdate (clientTransactionId : Option String) : Bool → Table → Table :=
  DatabaseUtil.updateTransactions db clientTransactionId none .ERROR none (some "ERROR") 0

/-- `logError`; an error document that cannot be read throws. -/
def logError (response : String) (clientTransactionId : Option String) (executed : Bool) :
    Java Table Unit :=
  if contains response "Error" then do
    let errorResponseXml ← Java.read (readers.errorResponse response)
    modify (DatabaseUtil.updateTransactions db clientTransactionId none .ERROR none
      errorResponseXml.message 0 executed)
  else
    modify (DatabaseUtil.updateTransactions db clientTransactionId none .ERROR none
      (some "Unable to generate link") 0 executed)

end GenerateLinkPostProcess

/-! ### HandleReturnUrlPostProcess -/
namespace HandleReturnUrlPostProcess

/-- The test for a finished transaction: from left to right, each part dereferencing what it
compares. -/
def filesAvailable {σ : Type} (response : TransactionStatusResponseXml) (status : String) :
    Java σ Bool :=
  if status = "success" then do
    let processing ← Java.deref response.processing
    if processing = "completed" then do
      let files ← Java.deref response.files
      return files = "available"
    else return false
  else return false

/-- Returns whether the report is to be retrieved, and under which id. -/
def checkFilesAvailable (response : TransactionStatusResponseXml)
    (clientTransactionId : Option String) (executed : Bool) :
    Java Table (Option (Option String)) := do
  let part ← Java.deref response.part
  let status ← Java.deref part.status
  let completed ← filesAvailable response status
  let write assistStatus insightsStatus message isDeleted :=
    DatabaseUtil.updateTransactions db clientTransactionId part.perfTxnId assistStatus
      (some insightsStatus) message isDeleted executed
  if completed then
    modify (write .COMPLETED "COMPLETED" (some "Completed, files can be retrieved") 0)
    return some part.perfTxnId
  else if status = "success" && response.processing = some "pending" then
    modify (write .PROCESSING "pending" (some "processing is pending") 0)
    return none
  else if status = "failure" then
    modify (write .ERROR "failure" part.reason 0)
    return none
  else if status = "deleted" then
    modify (write .COMPLETED "deleted" (some "transaction has been deleted.") 1)
    return none
  else
    modify (write .ERROR "Error" (some "Error") 1)
    return none

def autheticate (xml clientTransactionId : Option String) (executed : Bool) :
    Java Table (Option (Option String)) :=
  if xml.any (contains · "Status") then do
    let xml ← Java.deref xml
    let response ← Java.read (readers.transactionStatus xml)
    checkFilesAvailable db response clientTransactionId executed
  else if xml.any (contains · "Error") then do
    let xml ← Java.deref xml
    let errorResponseXml ← Java.read (readers.errorResponse xml)
    modify (DatabaseUtil.updateTransactions db clientTransactionId none .ERROR
      errorResponseXml.code errorResponseXml.message 0 executed)
    return none
  else do
    modify (DatabaseUtil.updateTransactionStatus db clientTransactionId .ERROR
      (some "Error while retrieving the transaction status.") executed)
    return none

end HandleReturnUrlPostProcess

/-! ### RetrieveReportPostProcess -/
namespace RetrieveReportPostProcess

def filePath : String := "/perfios/data/"

/-- A null id is spelt out in the name. -/
def fileName (clientTransactionId : Option String) (extension : String) : String :=
  let id := clientTransactionId.getD "null"
  filePath ++ id ++ "/" ++ id ++ "." ++ extension

def logError (response : String) (clientTransactionId : Option String) (executed : Bool) :
    Java Table Unit :=
  if contains response "Error" then do
    let errorResponseXml ← Java.read (readers.errorResponse response)
    modify (DatabaseUtil.updateTransactionStatus db clientTransactionId .REPORT_DELIVERY_FAILED
      errorResponseXml.message executed)
  else
    modify (DatabaseUtil.updateTransactionStatus db clientTransactionId .REPORT_DELIVERY_FAILED
      (some "error while retrieving the report") executed)

theorem keeps_logError {P : Table → Prop} {response : String} {clientTransactionId : Option String}
    {executed : Bool}
    (h : ∀ message table, P table → P (DatabaseUtil.updateTransactionStatus db clientTransactionId
      .REPORT_DELIVERY_FAILED message executed table)) :
    Prog.Keeps P (logError db readers response clientTransactionId executed) :=
  .ite (.bind (Java.keeps_read _) fun _ => .modify (h _)) (.modify (h _))

end RetrieveReportPostProcess
end InsightsAssist
