import Mathlib.Data.List.Basic

/-! The transactions table and the statements that DatabaseUtil runs on it. Each statement is
one update of every row it selects; none of them looks at a row's status. -/
namespace InsightsAssist

inductive Status where
  | INITIATED | INIT_RESPONSE_RECEIVED | EMAIL_SENT | PROCESSING | REPORT_DELIVERY_FAILED
  | COMPLETED | ERROR | EXPIRED
  deriving DecidableEq, Repr

structure Transaction where
  transactionId : String
  perfiosTransactionId : Option String
  userId : Int
  generatedLink : Option String
  formDataJson : Option String
  status : Status
  insightsStatus : Option String
  message : Option String
  reportLocation : Option String
  isDeleted : Int
  expiryDate : Option Int
  deriving DecidableEq, Repr

abbrev Table := List Transaction

/-- The database's comparison of strings, which need not tell all of them apart, and the expiry
date of a row that was inserted without one. -/
structure Database where
  equal : String → String → Bool
  defaultExpiryDate : Option Int

def Database.plain : Database where
  equal a b := a = b
  defaultExpiryDate := none

namespace DatabaseUtil
variable (db : Database)

/-- An update with a where clause; a statement that is not executed throws, is logged, and
changes nothing. -/
def update (condition : Transaction → Bool) (set : Transaction → Transaction) (executed : Bool)
    (table : Table) : Table :=
  if executed then table.map fun row => if condition row then set row else row else table

/-- `transaction_id = clientTransactionId`; nothing equals null. -/
def hasId (clientTransactionId : Option String) (row : Transaction) : Bool :=
  clientTransactionId.any (db.equal row.transactionId)

def insertIntoTransactions (clientTransactionId : String) (userId : Int) (status : Status)
    (formDataJson : Option String) (isDeleted : Int) (message : Option String) (executed : Bool)
    (table : Table) : Table :=
  if executed then
    table ++ [{
      transactionId := clientTransactionId
      perfiosTransactionId := none
      userId, generatedLink := none
      formDataJson, status
      insightsStatus := none
      message, reportLocation := none
      isDeleted, expiryDate := db.defaultExpiryDate }]
  else table

def updateReportLocation (clientTransactionId : Option String) (reportLocation : Option String) :
    Bool → Table → Table :=
  update (hasId db clientTransactionId) fun row => { row with reportLocation }

def updateTransactions (clientTransactionId : Option String) (perfiosTransactionId : Option String)
    (status : Status) (insightsStatus message : Option String) (isDeleted : Int) :
    Bool → Table → Table :=
  update (hasId db clientTransactionId) fun row =>
    { row with perfiosTransactionId, status, insightsStatus, isDeleted, message }

/-- `updateTransactions` with the generated link and its expiry date. -/
def updateTransactionsLink (clientTransactionId : Option String) (perfiosTransactionId : Option String)
    (status : Status) (insightsStatus message : Option String) (isDeleted : Int)
    (generatedUrl : Option String) (expiryDate : Int) : Bool → Table → Table :=
  update (hasId db clientTransactionId) fun row =>
    { row with
      perfiosTransactionId, status, insightsStatus, isDeleted, message
      generatedLink := generatedUrl
      expiryDate := some expiryDate }

def updateTransactionStatus (clientTransactionId : Option String) (status : Status)
    (message : Option String) : Bool → Table → Table :=
  update (hasId db clientTransactionId) fun row => { row with status, message }

/-- A null expiry date is not `<=` anything. -/
def expired (now : Int) (row : Transaction) : Bool := row.expiryDate.any (· ≤ now)

def updateExpiryDateStatus (now : Int) : Bool → Table → Table :=
  update (expired now) fun row =>
    { row with status := .EXPIRED, message := some "The transaction has expired" }

variable {condition : Transaction → Bool} {set : Transaction → Transaction} {executed : Bool}
  {table : Table} {i : Nat} {row row' : Transaction}

theorem getElem?_update :
    (update condition set executed table)[i]? =
      table[i]?.map fun row => if executed && condition row then set row else row := by
  cases executed with
  | false => simp [update]
  | true => simp [update]

theorem getElem?_update_of_selected (h : table[i]? = some row) (hc : condition row) :
    (update condition set executed table)[i]? = some (if executed then set row else row) := by
  simp [getElem?_update, h, hc]

theorem update_row (h : table[i]? = some row)
    (h' : (update condition set executed table)[i]? = some row') :
    row' = if executed && condition row then set row else row := by
  rw [getElem?_update, h] at h'
  simpa using h'.symm

theorem insert_row {clientTransactionId : String} {userId : Int} {status : Status}
    {formDataJson message : Option String} {isDeleted : Int} (h : table[i]? = some row)
    (h' : (insertIntoTransactions db clientTransactionId userId status formDataJson isDeleted
      message executed table)[i]? = some row') : row' = row := by
  have hi : i < table.length := (List.getElem?_eq_some_iff.mp h).1
  cases executed with
  | false => exact Option.some.inj (h'.symm.trans h)
  | true =>
    simp only [insertIntoTransactions, if_true, List.getElem?_append_left hi] at h'
    exact Option.some.inj (h'.symm.trans h)

theorem mem_insert {clientTransactionId : String} {userId : Int} {status : Status}
    {formDataJson message : Option String} {isDeleted : Int}
    (h : row ∈ insertIntoTransactions db clientTransactionId userId status formDataJson isDeleted
      message executed table) : row ∈ table ∨ row.transactionId = clientTransactionId := by
  cases executed with
  | false => exact .inl h
  | true =>
    obtain hold | hnew := List.mem_append.mp h
    · exact .inl hold
    · exact .inr (List.mem_singleton.mp hnew ▸ rfl)

end DatabaseUtil
end InsightsAssist
