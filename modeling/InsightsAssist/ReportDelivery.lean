import InsightsAssist.ApiCalls
import InsightsAssist.PostProcessing

/-! One report retrieval by itself: the report's file and its row, the post-processing that
writes them, and the retryer that makes up to ten attempts. -/
namespace InsightsAssist

/-- The transactions table, and what the file system holds for one transaction id: whether its
directory is there, and the content of its report file. -/
structure Store where
  iaTransactions : Table
  directory : Bool
  file : Option (List UInt8)
  deriving DecidableEq

namespace Store

def update (s : Store) (f : Table → Table) : Store := { s with iaTransactions := f s.iaTransactions }

def onTable {α : Type} (m : Java Table α) : Java Store α :=
  Prog.zoom iaTransactions (fun iaTransactions s => { s with iaTransactions }) m

end Store

/-- How a write ends: complete, or with an exception, before the file could be opened or after
some bytes. -/
inductive Write where
  | complete
  | throws (bytes : Option Nat)
  deriving DecidableEq, Repr

namespace RetrieveReportPostProcess
variable (db : Database) (clientTransactionId : Option String) (extension : String)

/-- `mkdirs` is true only when it makes the directory, which it may also fail to do. -/
def mkdirs (created : Bool) : Java Store Bool := do
  let s ← get
  if s.directory || !created then return false
  else do
    set { s with directory := true }
    return true

def writeByteArrayToFile (write : Write) (data : List UInt8) : Java Store Unit :=
  match write with
  | .complete => modify fun s => { s with file := some data }
  | .throws none => throw (.external "open")
  | .throws (some bytes) => do
    modify fun s => { s with file := some (data.take bytes) }
    throw (.external "write")

def updateReportLocation (executed : Bool) : Table → Table :=
  DatabaseUtil.updateReportLocation db clientTransactionId
    (some (fileName clientTransactionId extension)) executed

/-- The location is recorded whether or not the directory, and with it the file, was made. -/
def autheticate (created : Bool) (write : Write) (executed : Bool) (is : List UInt8) :
    Java Store Unit := do
  if ← mkdirs created then
    writeByteArrayToFile write is
  modify (·.update (updateReportLocation db clientTransactionId extension executed))

end RetrieveReportPostProcess

namespace ReportDelivery
open ApiCalls

/-- What one attempt meets: the provider, the file system, and whether its statement is
executed. -/
structure Attempt where
  exchange : Exchange
  created : Bool
  write : Write
  executed : Bool

variable (db : Database) (readers : Readers) (clientTransactionId : Option String)
  (extension : String)

/-- `RetrieveReportCall.call` with its post-processing. -/
def call (a : Attempt) : Java (State Store) Bool :=
  RetrieveReportCall.call a.exchange
    (RetrieveReportPostProcess.autheticate db clientTransactionId extension a.created a.write
      a.executed)
    fun response => Store.onTable
      (RetrieveReportPostProcess.logError db readers response clientTransactionId a.executed)

def attempt (a : Attempt) : Java Store Bool := fun s =>
  let r := (call db readers clientTransactionId extension a).run ⟨0, [], s⟩
  (r.1, r.2.app)

/-- `executeAsync`, its thread run to the end. -/
def executeAsync : List Attempt → Store → List Attempt × Store :=
  Retryer.call (attempt db readers clientTransactionId extension) 10

/-- The status is not 200, but one of the two tests for a refusal succeeds. -/
def Attempt.refused (a : Attempt) : Bool :=
  !answered a.exchange 0 200 && (answered a.exchange 1 404 || answered a.exchange 2 400)

def Attempt.recordsFailure (a : Attempt) : Bool := a.refused && a.executed

/-- A 200, whose body is read and, where the directory is made, written completely. -/
structure Attempt.Stores (a : Attempt) : Prop where
  accepted : answered a.exchange 0 200
  read : ∃ response, a.exchange 1 = .ok response
  written : a.write = .complete

/-- The row has a location and is not marked as failed. -/
def Delivered (i : Nat) (s : Store) : Prop :=
  ∃ row, s.iaTransactions[i]? = some row ∧ row.reportLocation ≠ none ∧
    row.status ≠ .REPORT_DELIVERY_FAILED

variable {db readers clientTransactionId extension}

theorem attempt_run (a : Attempt) (s : Store) :
    (attempt db readers clientTransactionId extension a).run s =
      (((call db readers clientTransactionId extension a).run ⟨0, [], s⟩).1,
        ((call db readers clientTransactionId extension a).run ⟨0, [], s⟩).2.app) := rfl

theorem logError_eq_ok {response : String} {executed : Bool} {table table' : Table} {u : Unit}
    (h : (RetrieveReportPostProcess.logError db readers response clientTransactionId
      executed).run table = (.ok u, table')) :
    ∃ message, table' = DatabaseUtil.updateTransactionStatus db clientTransactionId
      .REPORT_DELIVERY_FAILED message executed table := by
  rw [RetrieveReportPostProcess.logError, Prog.run_ite] at h
  split at h
  · obtain ⟨errorResponseXml, _, hread, hwrite⟩ := Prog.run_bind_eq_ok.mp h
    cases hx : readers.errorResponse response with
    | none => simp [hx] at hread
    | some xml =>
      simp only [hx, Java.read_some] at hread
      cases hread
      cases hwrite
      exact ⟨_, rfl⟩
  · cases h
    exact ⟨_, rfl⟩

theorem autheticate_complete {write : Write} (hw : write = .complete) {created executed : Bool}
    {is : List UInt8} (s : Store) :
    (RetrieveReportPostProcess.autheticate db clientTransactionId extension created write
      executed is).run s = (.ok (), {
        iaTransactions := RetrieveReportPostProcess.updateReportLocation db clientTransactionId
          extension executed s.iaTransactions
        directory := s.directory || created
        file := if s.directory || !created then s.file else some is }) := by
  subst hw
  obtain ⟨table, directory, file⟩ := s
  cases directory <;> cases created <;> rfl

theorem attempt_retried {a : Attempt} {s t : Store} {r : Except Throwable Bool}
    (h : (attempt db readers clientTransactionId extension a).run s = (r, t))
    (hr : r ≠ .ok true) :
    ∃ message, t = s.update (DatabaseUtil.updateTransactionStatus db clientTransactionId
      .REPORT_DELIVERY_FAILED message a.recordsFailure) := by
  obtain ⟨rfl, rfl⟩ := Prod.mk.inj h
  obtain ⟨selected, u, htest, hrest⟩ := Prog.run_bind_eq_ok.mp (logged_eq_false rfl hr)
  obtain ⟨first, hx, htest⟩ := anyStatus_eq_ok.mp htest
  by_cases h200 : first.status = 200
  · -- after a 200 the answer is true
    rw [if_pos h200] at htest
    obtain ⟨rfl, rfl⟩ := htest
    obtain ⟨_, _, _, hpure⟩ := Prog.run_bind_eq_ok.mp hrest
    cases hpure
  · rw [if_neg h200] at htest
    cases htest
    have hrefused := refused_eq_ok hrest
    have h0 : answered a.exchange 0 200 = false := by
      rw [answered_of_ok hx]
      simpa using h200
    simp only [Attempt.recordsFailure, Attempt.refused, h0, Bool.not_false, Bool.true_and]
    split at hrefused
    · rename_i htests
      obtain ⟨body, hlog⟩ := hrefused
      rw [Store.onTable, Prog.run_zoom] at hlog
      obtain ⟨hok, happ⟩ := Prod.mk.inj hlog
      obtain ⟨message, htable⟩ := logError_eq_ok (Prod.ext hok rfl)
      refine ⟨message, ?_⟩
      rw [htests, Bool.true_and, Store.update, ← htable]
      exact happ.symm
    · rename_i htests
      refine ⟨none, ?_⟩
      rw [Bool.eq_false_iff.mpr htests, Bool.false_and]
      exact hrefused

theorem attempt_of_stores {a : Attempt} (ha : a.Stores) (s : Store) :
    ∃ t, (attempt db readers clientTransactionId extension a).run s = (.ok true, t) ∧
      t.iaTransactions = RetrieveReportPostProcess.updateReportLocation db clientTransactionId
        extension a.executed s.iaTransactions := by
  obtain ⟨read, hread⟩ := ha.read
  have hcall : (call db readers clientTransactionId extension a).run ⟨0, [], s⟩ =
      (.ok true, ⟨2, [⟨0, 1⟩], _⟩) :=
    call_of_accepted ha.accepted hread (autheticate_complete ha.written s)
  exact ⟨_, (attempt_run a s).trans (congrArg (fun r => (r.1, r.2.app)) hcall), rfl⟩

variable {row : Transaction} {i : Nat}

theorem attempt_retried_row {a : Attempt} {s t : Store} {r : Except Throwable Bool}
    (h : (attempt db readers clientTransactionId extension a).run s = (r, t))
    (hr : r ≠ .ok true) (hrow : s.iaTransactions[i]? = some row)
    (hid : DatabaseUtil.hasId db clientTransactionId row) :
    ∃ row', t.iaTransactions[i]? = some row' ∧ DatabaseUtil.hasId db clientTransactionId row' ∧
      row'.reportLocation = row.reportLocation ∧
      (row'.status = .REPORT_DELIVERY_FAILED ↔
        row.status = .REPORT_DELIVERY_FAILED ∨ a.recordsFailure) := by
  obtain ⟨message, rfl⟩ := attempt_retried h hr
  refine ⟨_, DatabaseUtil.getElem?_update_of_selected hrow hid, ?_⟩
  cases a.recordsFailure with
  | false => exact ⟨hid, rfl, by simp⟩
  | true => exact ⟨hid, rfl, by simp⟩

theorem row_of_made {n : Nat} {attempts earlier : List Attempt} {last : Attempt} {s : Store}
    (hmade : (Retryer.call (attempt db readers clientTransactionId extension) n attempts s).1 =
      earlier ++ [last])
    (hlast : last.Stores) (hrow : s.iaTransactions[i]? = some row)
    (hid : DatabaseUtil.hasId db clientTransactionId row) :
    ∃ row', (Retryer.call (attempt db readers clientTransactionId extension) n attempts
        s).2.iaTransactions[i]? = some row' ∧
      row'.reportLocation = (if last.executed then
        some (RetrieveReportPostProcess.fileName clientTransactionId extension)
        else row.reportLocation) ∧
      (row'.status = .REPORT_DELIVERY_FAILED ↔ row.status = .REPORT_DELIVERY_FAILED ∨
        ∃ a ∈ earlier, a.recordsFailure) := by
  induction earlier generalizing n attempts s row with
  | nil =>
    obtain ⟨t, hstored, htable⟩ : ∃ t, (attempt db readers clientTransactionId extension
        last).run s = (.ok true, t) ∧ _ := attempt_of_stores hlast s
    obtain ⟨r, t', hrun, hcall⟩ := Retryer.call_eq_cons hmade
    obtain ⟨rfl, rfl⟩ := Prod.mk.inj (hrun.symm.trans hstored)
    obtain ⟨_, _, hend⟩ | ⟨hr, _⟩ := hcall
    · rw [hend, htable]
      refine ⟨_, DatabaseUtil.getElem?_update_of_selected hrow hid, ?_⟩
      cases last.executed with
      | false => exact ⟨rfl, by simp⟩
      | true => exact ⟨rfl, by simp⟩
    · exact absurd rfl hr
  | cons a earlier ih =>
    obtain ⟨r, t, hrun, ⟨_, hnil, _⟩ | ⟨hr, m, rest, hmade, hend⟩⟩ := Retryer.call_eq_cons hmade
    · simp at hnil
    · obtain ⟨row₁, hrow₁, hid₁, hlocation₁, hstatus₁⟩ := attempt_retried_row hrun hr hrow hid
      obtain ⟨row', hrow', hlocation, hstatus⟩ := ih hmade hrow₁ hid₁
      refine ⟨row', hend ▸ hrow', by rw [hlocation, hlocation₁], ?_⟩
      rw [hstatus, hstatus₁, List.exists_mem_cons_iff, or_assoc]

/-- When a retrieval of a completed transaction ends with an attempt that stores the report, the
row is located and not marked as failed exactly if no earlier attempt has recorded a failure, and
the location is recorded now or was before. -/
theorem delivered_iff {attempts earlier : List Attempt} {last : Attempt} {s : Store}
    (hmade : (executeAsync db readers clientTransactionId extension attempts s).1 =
      earlier ++ [last])
    (hlast : last.Stores) (hrow : s.iaTransactions[i]? = some row)
    (hid : DatabaseUtil.hasId db clientTransactionId row) (hcompleted : row.status = .COMPLETED) :
    Delivered i (executeAsync db readers clientTransactionId extension attempts s).2 ↔
      (last.executed ∨ row.reportLocation ≠ none) ∧ ∀ a ∈ earlier, ¬ a.recordsFailure := by
  obtain ⟨row', hrow', hlocation, hstatus⟩ := row_of_made hmade hlast hrow hid
  have hlocated : row'.reportLocation ≠ none ↔ last.executed ∨ row.reportLocation ≠ none := by
    rw [hlocation]
    cases last.executed <;> simp
  have hfailed : row'.status ≠ .REPORT_DELIVERY_FAILED ↔ ∀ a ∈ earlier, ¬ a.recordsFailure := by
    simp [hstatus, hcompleted]
  rw [← hlocated, ← hfailed]
  constructor
  · rintro ⟨row'', hrow'', hdelivered⟩
    obtain rfl : row' = row'' := Option.some.inj (hrow'.symm.trans hrow'')
    exact hdelivered
  · exact fun hdelivered => ⟨row', hrow', hdelivered⟩

/-- An attempt all of whose exchanges bring the same response, with nothing in its way. -/
def Attempt.answering (status : Nat) (body : String) : Attempt where
  exchange _ := .ok ⟨status, body, body.toUTF8.toList⟩
  created := true
  write := .complete
  executed := true

def completedStore : Store where
  iaTransactions := [⟨"T1", some "P1", 1, none, none, .COMPLETED, some "COMPLETED", none, none, 0,
    none⟩]
  directory := false
  file := none

def plainReaders : Readers := ⟨fun _ => none, fun _ => none, fun _ => none, fun _ => none⟩

theorem delivered_after_unavailable :
    Delivered 0 (executeAsync .plain plainReaders (some "T1") "pdf"
      [.answering 503 "busy", .answering 200 "report"] completedStore).2 := by
  have hmade : (executeAsync .plain plainReaders (some "T1") "pdf"
      [.answering 503 "busy", .answering 200 "report"] completedStore).1 =
        [.answering 503 "busy"] ++ [.answering 200 "report"] := rfl
  refine (delivered_iff hmade ⟨rfl, ⟨_, rfl⟩, rfl⟩ rfl rfl rfl).mpr ⟨.inl rfl, ?_⟩
  simp [Attempt.recordsFailure, Attempt.refused, answered, Attempt.answering]

/-- The report is not ready at first: a later success leaves the row marked as failed. -/
theorem failure_outlives_success :
    ∃ r, executeAsync .plain plainReaders (some "T1") "pdf"
        [.answering 404 "early", .answering 200 "report"] completedStore =
          ([.answering 404 "early", .answering 200 "report"], r) ∧
      (Attempt.answering 200 "report").Stores ∧ ¬ Delivered 0 r := by
  refine ⟨_, rfl, ⟨rfl, ⟨_, rfl⟩, rfl⟩, ?_⟩
  rintro ⟨row, hrow, _, hstatus⟩
  obtain rfl := Option.some.inj hrow
  exact hstatus rfl

end ReportDelivery
end InsightsAssist
