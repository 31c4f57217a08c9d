import InsightsAssist.TransactionWrites

/-! The perfios transaction id of a row: which writers take it away again. -/
namespace InsightsAssist.TransactionStatus
open Runs

def Forgets (table table' : Table) : Prop :=
  ∃ (i : Nat) (row row' : Transaction), table[i]? = some row ∧ table'[i]? = some row' ∧
    row.perfiosTransactionId ≠ none ∧ row'.perfiosTransactionId = none

/-- The step's statement is carried out, sets the perfios transaction id to null, and selects a
row that has one. -/
def WritesNull (db : Database) (readers : Readers) (s : State) (a : Step) : Prop :=
  a.executed ∧ perfiosIdWritten readers a = some none ∧
    ∃ row ∈ s.iaTransactions, row.perfiosTransactionId ≠ none ∧ selects db s a row

instance (db : Database) (readers : Readers) (s : State) (a : Step) :
    Decidable (WritesNull db readers s a) :=
  inferInstanceAs (Decidable (_ ∧ _))

variable {db : Database} {readers : Readers} {table table' : Table}

theorem forgets_updated_iff {condition : Transaction → Bool} {executed : Bool}
    {written : Option (Option String)} {expiryDate : Option Int}
    (h : Updated condition executed written expiryDate table table') :
    Forgets table table' ↔ executed ∧ written = some none ∧
      ∃ row ∈ table, row.perfiosTransactionId ≠ none ∧ condition row := by
  obtain ⟨set, hset, rfl⟩ := h
  constructor
  · intro ⟨i, row, row', hrow, hrow', hid, hnull⟩
    have hnew := DatabaseUtil.update_row hrow hrow'
    by_cases hsel : executed && condition row
    · rw [if_pos hsel] at hnew
      rw [hnew, hset.perfiosTransactionId] at hnull
      have hwritten : written = some none := by
        cases written with
        | none => exact absurd hnull hid
        | some id => exact congrArg some hnull
      rw [Bool.and_eq_true] at hsel
      exact ⟨hsel.1, hwritten, row, List.mem_of_getElem? hrow, hid, hsel.2⟩
    · rw [if_neg hsel] at hnew
      exact absurd (hnew ▸ hnull) hid
  · intro ⟨hx, hwritten, row, hmem, hid, hsel⟩
    obtain ⟨i, hi⟩ := List.getElem?_of_mem hmem
    have hnew : (DatabaseUtil.update condition set executed table)[i]? = some (set row) := by
      rw [DatabaseUtil.getElem?_update_of_selected hi hsel, if_pos hx]
    refine ⟨i, row, set row, hi, hnew, hid, ?_⟩
    rw [hset.perfiosTransactionId, hwritten, Option.getD_some]

theorem not_forgets_insert {clientTransactionId : String} {userId : Int} {status : Status}
    {formDataJson message : Option String} {isDeleted : Int} {executed : Bool} :
    ¬ Forgets table (DatabaseUtil.insertIntoTransactions db clientTransactionId userId status
      formDataJson isDeleted message executed table) := by
  intro ⟨i, row, row', hrow, hrow', hid, hnull⟩
  have hsame := DatabaseUtil.insert_row db hrow hrow'
  exact hid (hsame ▸ hnull)

theorem forgets_iff {s s' : State} {a : Step} (hs : step db readers s a = some s') :
    Forgets s.iaTransactions s'.iaTransactions ↔ WritesNull db readers s a := by
  by_cases ha : ∃ id userId formDataJson executed, a = .request id userId formDataJson executed
  · obtain ⟨id, userId, formDataJson, executed, rfl⟩ := ha
    cases hs
    have hno : ¬ WritesNull db readers s (.request id userId formDataJson executed) := by
      intro ⟨_, hwritten, _⟩
      cases hwritten
    exact iff_of_false not_forgets_insert hno
  · have hupdated := updated_of_step hs fun id userId formDataJson executed heq =>
      ha ⟨id, userId, formDataJson, executed, heq⟩
    exact forgets_updated_iff hupdated

/-- A run keeps every perfios transaction id once it is there exactly when none of its steps
writes null over one: no update of a link generation or of its error, no error answer to a status
query and no status answer without an id, for a transaction that has one. -/
theorem perfios_ids_kept_iff {h : List Step} {s₀ s : State} :
    Run (step db readers) (fun _ s a => ∀ s', step db readers s a = some s' →
        ¬ Forgets s.iaTransactions s'.iaTransactions) s₀ h s ↔
      Run (step db readers) (fun _ s a => ¬ WritesNull db readers s a) s₀ h s := by
  constructor
  · apply Run.weaken
    intro _ s a s' hs hkept hnull
    exact hkept s' hs ((forgets_iff hs).mpr hnull)
  · apply Run.weaken
    intro _ s a s' _ hno s' hs hforgets
    exact hno ((forgets_iff hs).mp hforgets)

/-- The answer to a status query of a completed transaction is an error document. -/
def errorReaders : Readers :=
  { documentReaders with errorResponse := fun _ => some ⟨some "E1", some "busy"⟩ }

/-- An error answer to a later status query, and a second update that comes after the answer with
the id. -/
theorem perfios_id_forgotten :
    (∃ s s', Run (step .plain errorReaders) AnyStep init (linkRequested ++ [statusArrives]) s ∧
      step .plain errorReaders s (.status (some "<Error/>") (some "T1") true) = some s' ∧
      Forgets s.iaTransactions s'.iaTransactions) ∧
    (∃ s s', Run (step .plain errorReaders) AnyStep init (linkRequested ++ [statusArrives]) s ∧
      step .plain errorReaders s (.secondUpdate 0 true) = some s' ∧
      Forgets s.iaTransactions s'.iaTransactions) := by
  have forgets_of_exec {a : Step}
      (hx : (exec (step .plain errorReaders) init (linkRequested ++ [statusArrives])).any fun s =>
        (step .plain errorReaders s a).isSome && decide (WritesNull .plain errorReaders s a)) :
      ∃ s s', Run (step .plain errorReaders) AnyStep init (linkRequested ++ [statusArrives]) s ∧
        step .plain errorReaders s a = some s' ∧ Forgets s.iaTransactions s'.iaTransactions := by
    obtain ⟨s, s', hr, hs, hnull⟩ := exists_run_of_exec hx
    exact ⟨s, s', hr, hs, (forgets_iff hs).mpr (of_decide_eq_true hnull)⟩
  exact ⟨forgets_of_exec (by decide +kernel), forgets_of_exec (by decide +kernel)⟩

end InsightsAssist.TransactionStatus
