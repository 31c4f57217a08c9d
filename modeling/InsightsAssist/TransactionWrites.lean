import InsightsAssist.TransactionStatus

/-! What one step writes: every step but the request of a link is one update of the rows it
selects, and what it sets the columns to can be read off the step. -/
namespace InsightsAssist

/-- What an update sets the perfios transaction id to, if it sets it, and the expiry date. -/
structure Sets (perfiosTransactionId : Option (Option String)) (expiryDate : Option Int)
    (set : Transaction → Transaction) : Prop where
  transactionId : ∀ row, (set row).transactionId = row.transactionId
  perfiosTransactionId : ∀ row,
    (set row).perfiosTransactionId = perfiosTransactionId.getD row.perfiosTransactionId
  expiryDate : ∀ row, (set row).expiryDate = expiryDate.or row.expiryDate

/-- The table is the old one after an update of the selected rows that sets these columns. -/
def Updated (condition : Transaction → Bool) (executed : Bool)
    (perfiosTransactionId : Option (Option String)) (expiryDate : Option Int)
    (table table' : Table) : Prop :=
  ∃ set, Sets perfiosTransactionId expiryDate set ∧
    table' = DatabaseUtil.update condition set executed table

section Updated
variable {db : Database} {condition : Transaction → Bool} {executed : Bool}
  {perfiosTransactionId : Option (Option String)} {expiryDate : Option Int} {table table' : Table}

theorem Updated.refl (condition : Transaction → Bool) (executed : Bool) (table : Table) :
    Updated condition executed none none table table := by
  refine ⟨id, ⟨fun _ => rfl, fun _ => rfl, fun _ => rfl⟩, ?_⟩
  simp [DatabaseUtil.update]

theorem updated_updateTransactions {id perfiosTransactionId insightsStatus message : Option String}
    {status : Status} {isDeleted : Int} :
    Updated (DatabaseUtil.hasId db id) executed (some perfiosTransactionId) none table
      (DatabaseUtil.updateTransactions db id perfiosTransactionId status insightsStatus message
        isDeleted executed table) := by
  refine ⟨_, ?_, rfl⟩
  exact ⟨fun _ => rfl, fun _ => rfl, fun _ => rfl⟩

theorem updated_updateTransactionsLink
    {id perfiosTransactionId insightsStatus message generatedUrl : Option String}
    {status : Status} {isDeleted expiryDate : Int} :
    Updated (DatabaseUtil.hasId db id) executed (some perfiosTransactionId) (some expiryDate) table
      (DatabaseUtil.updateTransactionsLink db id perfiosTransactionId status insightsStatus message
        isDeleted generatedUrl expiryDate executed table) := by
  refine ⟨_, ?_, rfl⟩
  exact ⟨fun _ => rfl, fun _ => rfl, fun _ => rfl⟩

theorem updated_updateTransactionStatus {id message : Option String} {status : Status} :
    Updated (DatabaseUtil.hasId db id) executed none none table
      (DatabaseUtil.updateTransactionStatus db id status message executed table) := by
  refine ⟨_, ?_, rfl⟩
  exact ⟨fun _ => rfl, fun _ => rfl, fun _ => rfl⟩

theorem updated_updateReportLocation {id reportLocation : Option String} :
    Updated (DatabaseUtil.hasId db id) executed none none table
      (DatabaseUtil.updateReportLocation db id reportLocation executed table) := by
  refine ⟨_, ?_, rfl⟩
  exact ⟨fun _ => rfl, fun _ => rfl, fun _ => rfl⟩

theorem updated_updateExpiryDateStatus {now : Int} :
    Updated (DatabaseUtil.expired now) executed none none table
      (DatabaseUtil.updateExpiryDateStatus now executed table) := by
  refine ⟨_, ?_, rfl⟩
  exact ⟨fun _ => rfl, fun _ => rfl, fun _ => rfl⟩

theorem Updated.row (h : Updated condition executed perfiosTransactionId expiryDate table table')
    {row' : Transaction} (hrow : row' ∈ table') :
    ∃ row ∈ table, row'.transactionId = row.transactionId ∧
      if executed && condition row then
        row'.perfiosTransactionId = perfiosTransactionId.getD row.perfiosTransactionId ∧
          row'.expiryDate = expiryDate.or row.expiryDate
      else row' = row := by
  obtain ⟨set, hset, rfl⟩ := h
  obtain ⟨i, hi⟩ := List.getElem?_of_mem hrow
  rw [DatabaseUtil.getElem?_update] at hi
  obtain ⟨row, hold, rfl⟩ := Option.map_eq_some_iff.mp hi
  refine ⟨row, List.mem_of_getElem? hold, ?_⟩
  split
  · exact ⟨hset.transactionId row, hset.perfiosTransactionId row, hset.expiryDate row⟩
  · exact ⟨rfl, rfl⟩

end Updated

/-! ### The post-processing -/
section PostProcessing
variable {db : Database} {readers : Readers} {executed : Bool} {table : Table}

/-- The error document that a refusal is read as, if it is one. -/
def GenerateLinkPostProcess.refusalRead (readers : Readers) (response : String) : Bool :=
  !contains response "Error" || (readers.errorResponse response).isSome

theorem GenerateLinkPostProcess.updated_logError {response : String} {id : Option String} :
    Updated (DatabaseUtil.hasId db id) executed
      (if refusalRead readers response then some none else none) none table
      ((logError db readers response id executed).run table).2 := by
  rw [logError, Prog.run_ite]
  cases hc : contains response "Error" with
  | false =>
    simp only [refusalRead, hc]
    exact updated_updateTransactions
  | true =>
    cases hx : readers.errorResponse response with
    | none =>
      simp only [refusalRead, hc, hx, Prog.run_bind, Java.read_none]
      exact .refl _ _ _
    | some xml =>
      simp only [refusalRead, hc, hx, Prog.run_bind, Java.read_some]
      exact updated_updateTransactions

theorem RetrieveReportPostProcess.updated_logError {response : String} {id : Option String} :
    Updated (DatabaseUtil.hasId db id) executed none none table
      ((logError db readers response id executed).run table).2 := by
  rw [logError, Prog.run_ite]
  split
  · cases hx : readers.errorResponse response with
    | none =>
      simp only [Prog.run_bind, Java.read_none]
      exact .refl _ _ _
    | some xml =>
      simp only [Prog.run_bind, Java.read_some]
      exact updated_updateTransactionStatus
  · exact updated_updateTransactionStatus

namespace HandleReturnUrlPostProcess

/-- The parts that the test for a finished transaction dereferences are there. -/
def dereferenced (response : TransactionStatusResponseXml) (status : String) : Bool :=
  status ≠ "success" || response.processing.any fun processing =>
    processing ≠ "completed" || response.files.isSome

/-- The id of a response that comes as far as an update; it may be missing. -/
def perfiosIdOf (response : TransactionStatusResponseXml) : Option (Option String) :=
  response.part.bind fun part => part.status.bind fun status =>
    if dereferenced response status then some part.perfTxnId else none

/-- What the answer to a status query sets the perfios transaction id to, if it sets it. -/
def perfiosIdWritten (readers : Readers) (xml : Option String) : Option (Option String) :=
  if xml.any (contains · "Status") then (xml.bind readers.transactionStatus).bind perfiosIdOf
  else if xml.any (contains · "Error") then (xml.bind readers.errorResponse).map fun _ => none
  else none

theorem filesAvailable_run {σ : Type} (response : TransactionStatusResponseXml) (status : String)
    (s : σ) : ∃ r, (filesAvailable response status).run s = (r, s) ∧
      (r.isOk ↔ dereferenced response status) := by
  simp only [filesAvailable, dereferenced, Prog.run_ite, Prog.run_bind, Prog.run_pure]
  split
  · cases response.processing with
    | none => exact ⟨_, rfl, by simp_all [Except.isOk, Except.toBool]⟩
    | some processing =>
      simp only [Java.deref_some]
      split
      · cases response.files with
        | none => exact ⟨_, rfl, by simp_all [Except.isOk, Except.toBool]⟩
        | some files => exact ⟨_, rfl, by simp [Except.isOk, Except.toBool]⟩
      · exact ⟨_, rfl, by simp_all [Except.isOk, Except.toBool]⟩
  · exact ⟨_, rfl, by simp_all [Except.isOk, Except.toBool]⟩

theorem updated_checkFilesAvailable {response : TransactionStatusResponseXml} {id : Option String} :
    Updated (DatabaseUtil.hasId db id) executed
      (perfiosIdOf response) none table
      ((checkFilesAvailable db response id executed).run table).2 := by
  rw [checkFilesAvailable, perfiosIdOf]
  cases response.part with
  | none => exact .refl _ _ _
  | some part =>
    rw [Prog.run_bind_ok (Java.deref_some part table), Option.bind_some]
    cases part.status with
    | none => exact .refl _ _ _
    | some status =>
      rw [Prog.run_bind_ok (Java.deref_some status table), Option.bind_some]
      obtain ⟨r, hr, hok⟩ := filesAvailable_run response status table
      cases r with
      | error e =>
        rw [Prog.run_bind_error hr, if_neg fun h => nomatch hok.mpr h]
        exact .refl _ _ _
      | ok completed =>
        rw [Prog.run_bind_ok hr, if_pos (hok.mp rfl)]
        simp only [Prog.run_ite, Prog.run_bind, Prog.run_modify, Prog.run_pure]
        repeat' split
        all_goals exact updated_updateTransactions

theorem updated_autheticate {xml id : Option String} :
    Updated (DatabaseUtil.hasId db id) executed (perfiosIdWritten readers xml) none table
      ((autheticate db readers xml id executed).run table).2 := by
  rw [autheticate, perfiosIdWritten]
  cases xml with
  | none => exact updated_updateTransactionStatus
  | some xml =>
    simp only [Option.any_some, Option.bind_some, Prog.run_ite, Prog.run_bind, Java.deref_some]
    split
    · cases readers.transactionStatus xml with
      | none => exact .refl _ _ _
      | some response => exact updated_checkFilesAvailable
    · split
      · cases readers.errorResponse xml with
        | none => exact .refl _ _ _
        | some errorResponseXml => exact updated_updateTransactions
      · exact updated_updateTransactionStatus

end HandleReturnUrlPostProcess
end PostProcessing

/-! ### The steps -/
namespace TransactionStatus
variable {db : Database} {readers : Readers}

def selects (db : Database) (s : State) : Step → Transaction → Bool
  | .answer t _ _ | .refusal t _ _ | .firstUpdate t _ | .secondUpdate t _ => fun row =>
    s.links[t]?.any fun thread => DatabaseUtil.hasId db thread.clientTransactionId row
  | .status _ clientTransactionId _ => DatabaseUtil.hasId db clientTransactionId
  | .reportStored r _ | .reportFailed r _ _ => fun row =>
    s.retrievals[r]?.any fun retrieval => DatabaseUtil.hasId db retrieval.1 row
  | .sweep now _ => DatabaseUtil.expired now
  | .request .. | .assign _ | .mail .. | .callback .. => fun _ => false

def Step.executed : Step → Bool
  | .request _ _ _ executed | .answer _ _ executed | .refusal _ _ executed
  | .firstUpdate _ executed | .secondUpdate _ executed | .status _ _ executed
  | .reportStored _ executed | .reportFailed _ _ executed | .sweep _ executed => executed
  | .assign _ | .mail .. | .callback .. => false

def perfiosIdWritten (readers : Readers) : Step → Option (Option String)
  | .answer _ xml _ =>
    if GenerateLinkPostProcess.read readers xml = .error then some none else none
  | .refusal _ response _ =>
    if GenerateLinkPostProcess.refusalRead readers response then some none else none
  | .firstUpdate .. | .secondUpdate .. => some none
  | .status xml _ _ => HandleReturnUrlPostProcess.perfiosIdWritten readers xml
  | .request .. | .assign _ | .mail .. | .callback .. | .reportStored .. | .reportFailed ..
  | .sweep .. => none

def expiryDateWritten (s : State) : Step → Option Int
  | .firstUpdate .. | .secondUpdate .. => s.expiryDate
  | _ => none

/-- The request of a link inserts a row; every other step is an update. -/
theorem updated_of_step {s s' : State} {a : Step} (hs : step db readers s a = some s')
    (ha : ∀ id userId formDataJson executed, a ≠ .request id userId formDataJson executed) :
    Updated (selects db s a) a.executed (perfiosIdWritten readers a) (expiryDateWritten s a)
      s.iaTransactions s'.iaTransactions := by
  have selects_thread {t : Nat} {thread : LinkThread} (ht : s.links[t]? = some thread) :
      (fun row => s.links[t]?.any fun thread =>
        DatabaseUtil.hasId db thread.clientTransactionId row) =
          DatabaseUtil.hasId db thread.clientTransactionId := by
    simp [ht]
  have selects_retrieval {r : Nat} {retrieval : Option String × Option String}
      (hr : s.retrievals[r]? = some retrieval) :
      (fun row => s.retrievals[r]?.any fun retrieval => DatabaseUtil.hasId db retrieval.1 row) =
          DatabaseUtil.hasId db retrieval.1 := by
    simp [hr]
  cases a with
  | request id userId formDataJson executed => exact absurd rfl (ha id userId formDataJson executed)
  | answer t xml executed =>
    obtain ⟨thread, ht, hs⟩ := Option.bind_eq_some_iff.mp hs
    split at hs
    · simp only [selects, selects_thread ht, perfiosIdWritten]
      split at hs <;> rename_i hread <;> cases hs <;> rw [hread]
      · exact .refl _ _ _
      · exact updated_updateTransactions
      · exact .refl _ _ _
      · exact .refl _ _ _
    · cases hs
  | refusal t response executed =>
    obtain ⟨thread, ht, hs⟩ := Option.bind_eq_some_iff.mp hs
    split at hs
    · cases hs
      simp only [selects, selects_thread ht]
      exact GenerateLinkPostProcess.updated_logError
    · cases hs
  | assign t | mail t =>
    obtain ⟨thread, ht, hs⟩ := Option.bind_eq_some_iff.mp hs
    split at hs <;> cases hs
    exact .refl _ _ _
  | firstUpdate t executed | secondUpdate t executed =>
    obtain ⟨thread, ht, hs⟩ := Option.bind_eq_some_iff.mp hs
    split at hs <;> cases hs
    rename_i hdate
    simp only [selects, selects_thread ht, expiryDateWritten, hdate]
    exact updated_updateTransactionsLink
  | status xml clientTransactionId executed =>
    cases hs
    exact HandleReturnUrlPostProcess.updated_autheticate
  | callback =>
    cases hs
    exact .refl _ _ _
  | reportStored r executed =>
    obtain ⟨retrieval, hr, rfl⟩ := Option.map_eq_some_iff.mp hs
    simp only [selects, selects_retrieval hr]
    exact updated_updateReportLocation
  | reportFailed r response executed =>
    obtain ⟨retrieval, hr, rfl⟩ := Option.map_eq_some_iff.mp hs
    simp only [selects, selects_retrieval hr]
    exact RetrieveReportPostProcess.updated_logError
  | sweep now executed =>
    cases hs
    exact updated_updateExpiryDateStatus

end TransactionStatus
end InsightsAssist
