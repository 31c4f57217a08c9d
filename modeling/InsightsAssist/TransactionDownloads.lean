import InsightsAssist.SharedFields
import InsightsAssist.TransactionDetails

/-! Downloads of the transactions at the same time. There is one TransactionDetails, and each of its
requests fills and prints the list and the beans that the fields lead to when it looks. -/
namespace InsightsAssist.TransactionDownloads
open Runs SharedFields
open TransactionDetails (JSONReader Property TransactionBean Bean FormData formData valueOf
  FILE_HEADER copied parsed header rowData made printed reaches
  plainBean plainBean_documented)

/-- The member of the form data that the property is read from. -/
def key : Property → String
  | .transactionId => "transactionId"
  | .perfiosTransactionId => "perfiosTransactionId"
  | .reportLocation => "reportLocation"
  | .formDataJson => "formDataJson"
  | .emailId => "emailId"
  | .loanAmount => "loanAmount"
  | .loanDuration => "loanDuration"
  | .loanType => "loanType"
  | .organisation => "organisation"
  | .type => "type"
  | .mobileNumber => "mobileNumber"
  | .name => "name"

/-- A bean of a list: one that a query has made, which nobody writes to, or the one that a request
has made for a row. -/
inductive Element (ι : Type) where
  | fetched (row : Transaction)
  | made (request : ι) (index : Nat)

/-- The fields of the action, the lists of the queries, and the members of the beans that are made
in the loop. -/
inductive Field (ι μ : Type) where
  | details | userTransactions | Fname
  | element (query : ι) (index : Nat)
  | bean (request : ι) (index : Nat) (member : μ)
  deriving DecidableEq

/-- A list is known by the request of its query, and has its size. The directories are known by the
request that creates them. -/
abbrev Value (ι μ : Type) : Field ι μ → Type
  | .details => Option (ι × Nat)
  | .userTransactions => Option (ι × Nat)
  | .Fname => Option ι
  | .element _ _ => Option (Element ι)
  | .bean _ _ _ => Option String

/-- What happens to a request outside of the action: the rows that are fetched, none where the query
throws, whether a directory is made, and whether the file in it can be opened. -/
structure Request where
  fetched : Option Table
  made : Bool
  opened : Bool

/-- Whether the client is told that there is nothing, the text that is written with the directory
of its file, and the directory whose file is then sent, if it is there, none where something is
thrown before. -/
structure Outcome (ι : Type) where
  told : Bool
  written : Option (Option ι × List Char)
  sent : Option (Option ι)
  deriving DecidableEq

variable {ι μ : Type} (c : TransactionBean μ)

/-- `userTransactions.get(index)`, none where it throws. -/
def getRow (index : Nat) : Program (Value ι μ) (Option (Element ι)) := do
  let userTransactions : Option (ι × Nat) ← .get Field.userTransactions
  match userTransactions with
  | none => return none
  | some (query, size) => if index < size then .get (Field.element query index) else return none

def Element.get (member : μ) : Element ι → Program (Value ι μ) (Option String)
  | .fetched row => return c.into row member
  | .made request index => .get (Field.bean request index member)

/-- False where it throws. -/
def set (details : Option (ι × Nat)) (property : Property) (value : Option String) :
    Program (Value ι μ) Bool := do
  match details with
  | none => return false
  | some (request, index) =>
    .set (Field.bean request index (c.setter property)) value
    return true

def copyProperties (index : Nat) : List Property → Program (Value ι μ) Bool
  | [] => return true
  | property :: properties => do
    let details : Option (ι × Nat) ← .get Field.details
    match ← getRow index with
    | none => return false
    | some row =>
      let value ← row.get c (c.field property)
      if ← set c details property value then copyProperties index properties else return false

def parseProperties (jsonObj : String → Option String) : List Property → Program (Value ι μ) Bool
  | [] => return true
  | property :: properties => do
    let details : Option (ι × Nat) ← .get Field.details
    match jsonObj (key property) with
    | none => return false
    | some value =>
      if ← set c details property value then parseProperties jsonObj properties else return false

/-- `details.formDataJson`, none also where it throws. -/
def getFormDataJson : Program (Value ι μ) (Option String) := do
  let details : Option (ι × Nat) ← .get Field.details
  match details with
  | none => return none
  | some (request, index) => .get (Field.bean request index (c.field .formDataJson))

/-- `userTransactions.set(index, details)` -/
def setRow (index : Nat) : Program (Value ι μ) Bool := do
  let userTransactions : Option (ι × Nat) ← .get Field.userTransactions
  let details : Option (ι × Nat) ← .get Field.details
  match userTransactions with
  | none => return false
  | some (query, size) =>
    if index < size then
      .set (Field.element query index) (details.map fun (request, index) => .made request index)
      return true
    else return false

variable (json : JSONReader)

def fillRow (request : ι) (index : Nat) : Program (Value ι μ) Bool := do
  .set Field.details (some (request, index))
  if ← copyProperties c index copied then
    match (← getFormDataJson c).bind json with
    | none => return false
    | some jsonObj => if ← parseProperties c jsonObj parsed then setRow index else return false
  else return false

def fillRows (request : ι) : List Nat → Program (Value ι μ) Bool
  | [] => return true
  | index :: indices => do
    if ← fillRow c json request index then fillRows request indices else return false

/-- The list of the query, before it is assigned. -/
def storeRows (request : ι) (index : Nat) : Table → Program (Value ι μ) Unit
  | [] => return ()
  | row :: table => do
    .set (Field.element request index) (some (.fetched row))
    storeRows request (index + 1) table

/-- The `try` block, which logs what is thrown. -/
def fetchTransactions (request : ι) : Option Table → Program (Value ι μ) Unit
  | none => return ()
  | some table => do
    storeRows request 0 table
    .set Field.userTransactions (some (request, table.length))
    let userTransactions : Option (ι × Nat) ← .get Field.userTransactions
    let maxIndex := (userTransactions.map Prod.snd).getD 0
    let _ ← fillRows c json request (List.range maxIndex)
    return ()

def getColumns (row : Element ι) : List Property → Program (Value ι μ) (List (List Char))
  | [] => return []
  | property :: properties => do
    let value ← row.get c (c.getter property)
    let columns ← getColumns row properties
    return valueOf value :: columns

/-- The columns of the rows, up to the first that is null. -/
def getRows (query : ι) : List Nat → Program (Value ι μ) (List (List (List Char)))
  | [] => return []
  | index :: indices => do
    let row : Option (Element ι) ← .get (Field.element query index)
    match row with
    | none => return []
    | some row =>
      let columns ← getColumns c row header
      let rows ← getRows query indices
      return columns :: rows

def text (rows : List (List (List Char))) : List Char :=
  terminated '\n' (FILE_HEADER.toList :: rows.map (join ','))

def writeCSVFile : Program (Value ι μ) (List Char) := do
  let userTransactions : Option (ι × Nat) ← .get Field.userTransactions
  match userTransactions with
  | none => return text []
  | some (query, size) => return text (← getRows c query (List.range size))

/-- `execute` after `retrieveTransactionDetails`. -/
def sendFile (told : Bool) (written : Option (Option ι × List Char)) :
    Program (Value ι μ) (Outcome ι) := do
  let Fname : Option ι ← .get Field.Fname
  return ⟨told, written, some Fname⟩

/-- `execute` from the creation of the directory on. -/
def downloadFile (request : ι) (r : Request) : Program (Value ι μ) (Outcome ι) := do
  .set Field.Fname (if r.made then some request else none)
  let Fname : Option ι ← .get Field.Fname
  -- a writer that is missing is flushed all the same, which throws
  if r.opened then
    let csv ← writeCSVFile c
    sendFile false (some (Fname, csv))
  else return ⟨false, none, none⟩

def execute (request : ι) (r : Request) : Program (Value ι μ) (Outcome ι) := do
  fetchTransactions c json request r.fetched
  let details : Option (ι × Nat) ← .get Field.details
  match details with
  | none => sendFile true none
  | some _ => downloadFile c request r

/-! ### A request on its own -/

def noFields : (f : Field ι μ) → Value ι μ f
  | .details | .userTransactions | .Fname | .element _ _ => none
  | .bean _ _ member => c.initial member

section Alone
variable [DecidableEq ι] [DecidableEq μ] {c json} {fields : (f : Field ι μ) → Value ι μ f} {t : ι}
  {index n k : Nat} {row : Transaction} {table : Table} {data : FormData}

def beanOf (fields : (f : Field ι μ) → Value ι μ f) (t : ι) (index : Nat) : Bean μ :=
  fun member => fields (.bean t index member)

/-- What the body of the loop leaves of a row: the bean it has made in its place, or what was there
if the form data is not well formed. -/
structure FilledRow (c : TransactionBean μ) (json : JSONReader) (t : ι) (index : Nat)
    (row : Transaction) (fields fields' : (f : Field ι μ) → Value ι μ f) : Prop where
  details : fields' .details = some (t, index)
  filled : ∀ data, rowData c json row = some data →
    fields' (.element t index) = some (.made t index) ∧ beanOf fields' t index = made c row data
  left : rowData c json row = none → fields' (.element t index) = some (.fetched row)
  same : ∀ f, f ≠ .details → f ≠ .element t index → (∀ m, f ≠ .bean t index m) →
    fields' f = fields f

/-- The properties of a row are in its new bean. -/
structure Copied (c : TransactionBean μ) (t : ι) (index : Nat) (row : Transaction)
    (fields fields' : (f : Field ι μ) → Value ι μ f) : Prop where
  details : fields' .details = some (t, index)
  element : fields' (.element t index) = some (.fetched row)
  bean : beanOf fields' t index = TransactionDetails.copyProperties c (c.into row)
  same : ∀ f, f ≠ .details → (∀ m, f ≠ .bean t index m) → fields' f = fields f

/-- The list of the request, with the beans of the first `k` rows made. -/
structure Stored (c : TransactionBean μ) (json : JSONReader) (t : ι) (table : Table) (k : Nat)
    (fields : (f : Field ι μ) → Value ι μ f) : Prop where
  list : fields .userTransactions = some (t, table.length)
  filled : ∀ i row, i < k → table[i]? = some row → fields (.element t i) = some (.made t i) ∧
    ∃ data, rowData c json row = some data ∧ beanOf fields t i = made c row data
  fetched : ∀ i row, k ≤ i → table[i]? = some row →
    fields (.element t i) = some (.fetched row)

omit [DecidableEq ι] in
theorem FilledRow.other {fields' : (f : Field ι μ) → Value ι μ f} {i : Nat}
    (hfilled : FilledRow c json t k row fields fields') (hi : i ≠ k) :
    fields' (.element t i) = fields (.element t i) ∧ beanOf fields' t i = beanOf fields t i :=
  ⟨hfilled.same _ (by simp) (by simpa using hi) (by simp),
    funext fun m => hfilled.same _ (by simp) (by simp) (by simp [hi])⟩

omit [DecidableEq ι] in
theorem Stored.fillRow {fields' : (f : Field ι μ) → Value ι μ f}
    (h : Stored c json t table k fields)
    (hrow : table[k]? = some row) (hfilled : FilledRow c json t k row fields fields') :
    Stored c json t table (if (rowData c json row).isSome then k + 1 else k) fields' := by
  have hlist : fields' .userTransactions = some (t, table.length) := by
    rw [hfilled.same _ (by simp) (by simp) (by simp), h.list]
  have hbefore (i : Nat) (row : Transaction) (hi : i < k) (hmem : table[i]? = some row) :
      fields' (.element t i) = some (.made t i) ∧
        ∃ data, rowData c json row = some data ∧ beanOf fields' t i = made c row data := by
    obtain ⟨helement, hbean⟩ := hfilled.other (i := i) (by omega)
    rw [helement, hbean]
    exact h.filled i row hi hmem
  have hbehind (i : Nat) (row : Transaction) (hi : k < i) (hmem : table[i]? = some row) :
      fields' (.element t i) = some (.fetched row) := by
    rw [(hfilled.other (i := i) (by omega)).1]
    exact h.fetched i row (by omega) hmem
  cases hdata : rowData c json row with
  | none =>
    refine ⟨hlist, hbefore, fun i row' hi hmem => ?_⟩
    rcases Nat.eq_or_lt_of_le hi with rfl | hlt
    · cases hrow.symm.trans hmem
      exact hfilled.left hdata
    · exact hbehind i row' hlt hmem
  | some data =>
    refine ⟨hlist, fun i row' hi hmem => ?_, fun i row' hi hmem => hbehind i row' hi hmem⟩
    rcases Nat.eq_or_lt_of_le (Nat.le_of_lt_succ hi) with rfl | hlt
    · cases hrow.symm.trans hmem
      exact ⟨(hfilled.filled data hdata).1, data, hdata, (hfilled.filled data hdata).2⟩
    · exact hbefore i row' hlt hmem

def lookUp (c : TransactionBean μ) (fields : (f : Field ι μ) → Value ι μ f) : Element ι → Bean μ
  | .fetched row => c.into row
  | .made request index => beanOf fields request index

def Shows (c : TransactionBean μ) (t : ι) (rows : List (Bean μ))
    (fields : (f : Field ι μ) → Value ι μ f) : Prop :=
  ∀ i details, rows[i]? = some details →
    ∃ row, fields (.element t i) = some row ∧ lookUp c fields row = details

omit [DecidableEq ι] in
theorem Stored.shows (h : Stored c json t table k fields)
    (hend : k = table.length ∨ ∃ row, table[k]? = some row ∧ rowData c json row = none) :
    Shows c t (TransactionDetails.fillFormData c json (table.map c.into)) fields := by
  have hreaches (i : Nat) (hi : i ≤ k) : reaches c json table i := by
    rw [reaches, List.all_eq_true]
    intro row hrow
    obtain ⟨j, hj⟩ := List.mem_iff_getElem?.mp hrow
    rw [List.getElem?_take] at hj
    split at hj
    · obtain ⟨-, data, hdata, -⟩ := h.filled j row (by omega) hj
      rw [hdata]
      rfl
    · cases hj
  intro i details hdetails
  rw [TransactionDetails.getElem?_fillFormData, Option.map_eq_some_iff] at hdetails
  obtain ⟨row, hrow, rfl⟩ := hdetails
  by_cases hi : i < k
  · obtain ⟨helement, data, hdata, hbean⟩ := h.filled i row hi hrow
    refine ⟨_, helement, ?_⟩
    rw [hreaches i (by omega), printed, hdata]
    exact hbean
  · refine ⟨_, h.fetched i row (by omega) hrow, ?_⟩
    have hraw : printed c json (reaches c json table i) row = c.into row := by
      obtain ⟨hi', -⟩ := List.getElem?_eq_some_iff.mp hrow
      obtain rfl | ⟨bad, hbad, hnone⟩ := hend
      · exact absurd hi' hi
      by_cases hik : i = k
      · subst hik
        cases hrow.symm.trans hbad
        rw [printed, hnone]
      · have hnot : reaches c json table i = false := by
          rw [reaches, List.all_eq_false]
          refine ⟨bad, List.mem_iff_getElem?.mpr ⟨k, ?_⟩, by simp [hnone]⟩
          rw [List.getElem?_take, if_pos (by omega), hbad]
        rw [hnot, TransactionDetails.printed_false]
    rw [hraw]
    rfl

end Alone

/-! ### Requests at the same time -/

section
variable (requests : ι → Request)

def received : State (Value ι μ) ι (Outcome ι) :=
  ⟨noFields c, fun t => execute c json t (requests t)⟩

def Fetched (row : Transaction) : Prop := ∃ u table, (requests u).fetched = some table ∧ row ∈ table

/-- What a member of a bean may be: as in a new bean, as jOOQ has it for a transaction that has been
fetched, or, if it is a property of the form data, what such form data says. -/
inductive IsValue : μ → String → Prop where
  | initial {member : μ} {text : String} : c.initial member = some text → IsValue member text
  | fetched {row : Transaction} {member : μ} {text : String} : Fetched requests row →
    c.into row member = some text → IsValue member text
  | parsed {formDataJson text : String} {jsonObj : String → Option String} {p : Property} :
    IsValue (c.field .formDataJson) formDataJson → json formDataJson = some jsonObj →
    p ∈ parsed → jsonObj (key p) = some text → IsValue (c.field p) text

def Valid : (f : Field ι μ) → Value ι μ f → Prop
  | .details, _ => True
  | .userTransactions, list => ∀ u size, list = some (u, size) →
    ∃ table, (requests u).fetched = some table ∧ size = table.length
  | .Fname, Fname => ∀ u, Fname = some u → (requests u).made
  | .element _ _, row => ∀ row', row = some (.fetched row') → Fetched requests row'
  | .bean _ _ member, value => ∀ text, value = some text → IsValue c json requests member text

/-- A column is null or what the getter of its header may return, each perhaps of another row. -/
def IsLine (columns : List (List Char)) : Prop :=
  List.Forall₂ (fun p column => ∃ value, column = valueOf value ∧
    ∀ text, value = some text → IsValue c json requests (c.getter p) text) header columns

/-- The header with such lines, at most one for each transaction of one query. -/
def IsText (csv : List Char) : Prop :=
  ∃ rows, csv = text rows ∧ (∀ columns ∈ rows, IsLine c json requests columns) ∧
    (rows = [] ∨ ∃ u table, (requests u).fetched = some table ∧ rows.length ≤ table.length)

/-- What is written is such a text, and the files that are written and sent are in directories that
have been made. -/
structure Regular (o : Outcome ι) : Prop where
  written : ∀ Fname csv, o.written = some (Fname, csv) →
    (∀ u, Fname = some u → (requests u).made) ∧ IsText c json requests csv
  sent : ∀ u, o.sent = some (some u) → (requests u).made

end

variable {c json} {requests : ι → Request} {t : ι} {o : Outcome ι}

theorem keeps_element (query : ι) (index : Nat) :
    (Program.get (Field.element query index) : Program (Value ι μ) (Option (Element ι))).Keeps
      (Valid c json requests) fun row =>
        ∀ row', row = some (.fetched row') → Fetched requests row' :=
  fun _ hrow => hrow

theorem keeps_getRow (index : Nat) :
    (getRow index : Program (Value ι μ) _).Keeps (Valid c json requests) fun row =>
      ∀ row', row = some (.fetched row') → Fetched requests row' := by
  refine .bind Program.keeps_get fun userTransactions _ => ?_
  cases userTransactions with
  | none =>
    intro row' hrow
    cases hrow
  | some list =>
    obtain ⟨query, size⟩ := list
    by_cases hindex : index < size
    · simp only [hindex, if_true]
      exact keeps_element query index
    · simp only [hindex, if_false]
      intro row' hrow
      cases hrow

theorem keeps_get {row : Element ι} (hrow : ∀ row', row = .fetched row' → Fetched requests row')
    (member : μ) : (row.get c member).Keeps (Valid c json requests) fun value =>
      ∀ text, value = some text → IsValue c json requests member text := by
  cases row with
  | fetched row => exact fun text htext => .fetched (hrow row rfl) htext
  | made u i => exact fun value hvalue => hvalue

theorem keeps_set {details : Option (ι × Nat)} {p : Property} {value : Option String}
    (hvalue : ∀ text, value = some text → IsValue c json requests (c.setter p) text) :
    (set c details p value).Keeps (Valid c json requests) fun _ => True := by
  cases details with
  | none => exact trivial
  | some details => exact .bind (Program.keeps_set hvalue) fun _ _ => trivial

theorem keeps_copyProperties (hc : c.Documented) (index : Nat) (properties : List Property) :
    (copyProperties c index properties : Program (Value ι μ) _).Keeps (Valid c json requests)
      fun _ => True := by
  induction properties with
  | nil => exact trivial
  | cons p properties ih =>
    refine .bind Program.keeps_get fun details _ => ?_
    refine .bind (keeps_getRow index) fun row hrow => ?_
    cases row with
    | none => exact trivial
    | some row =>
      refine .bind (keeps_get (fun row' heq => hrow row' (by rw [heq])) _) fun value hvalue => ?_
      rw [← hc.setter p] at hvalue
      refine .bind (keeps_set hvalue) fun done _ => ?_
      cases done with
      | true => exact ih
      | false => exact trivial

theorem keeps_parseProperties (hc : c.Documented) {jsonObj : String → Option String}
    {properties : List Property}
    (h : ∀ p ∈ properties, ∀ text, jsonObj (key p) = some text →
      IsValue c json requests (c.field p) text) :
    (parseProperties c jsonObj properties : Program (Value ι μ) _).Keeps (Valid c json requests)
      fun _ => True := by
  induction properties with
  | nil => exact trivial
  | cons p properties ih =>
    refine .bind Program.keeps_get fun details _ => ?_
    cases hvalue : jsonObj (key p) with
    | none => exact trivial
    | some value =>
      have hset := h p (by simp)
      rw [hvalue, ← hc.setter p] at hset
      refine .bind (keeps_set hset) fun done _ => ?_
      cases done with
      | true => exact ih fun p' hp' => h p' (List.mem_cons_of_mem _ hp')
      | false => exact trivial

theorem keeps_getFormDataJson :
    (getFormDataJson c : Program (Value ι μ) _).Keeps (Valid c json requests) fun value =>
      ∀ text, value = some text → IsValue c json requests (c.field .formDataJson) text := by
  refine .bind Program.keeps_get fun details _ => ?_
  cases details with
  | none =>
    intro text htext
    cases htext
  | some details => exact fun value hvalue => hvalue

theorem keeps_setRow (index : Nat) :
    (setRow index : Program (Value ι μ) _).Keeps (Valid c json requests) fun _ => True := by
  refine .bind Program.keeps_get fun userTransactions _ => ?_
  refine .bind Program.keeps_get fun details _ => ?_
  cases userTransactions with
  | none => exact trivial
  | some list =>
    by_cases hindex : index < list.2
    · simp only [hindex, if_true]
      refine .bind (Program.keeps_set fun row' hrow => ?_) fun _ _ => trivial
      cases details <;> cases hrow
    · simp only [hindex, if_false]
      exact trivial

theorem keeps_fillRow (hc : c.Documented) (t : ι) (index : Nat) :
    (fillRow c json t index).Keeps (Valid c json requests) fun _ => True := by
  refine .bind (Program.keeps_set trivial) fun _ _ => ?_
  refine .bind (keeps_copyProperties hc index copied) fun done _ => ?_
  cases done with
  | false => exact trivial
  | true =>
    refine .bind keeps_getFormDataJson fun formDataJson hformData => ?_
    cases hjson : formDataJson.bind json with
    | none => exact trivial
    | some jsonObj =>
      refine .bind (keeps_parseProperties hc fun p hp text htext => ?_) fun done _ => ?_
      · obtain ⟨text', rfl, hparse⟩ := Option.bind_eq_some_iff.mp hjson
        exact .parsed (hformData text' rfl) hparse hp htext
      · cases done with
        | true => exact keeps_setRow index
        | false => exact trivial

theorem keeps_fillRows (hc : c.Documented) (t : ι) (indices : List Nat) :
    (fillRows c json t indices).Keeps (Valid c json requests) fun _ => True := by
  induction indices with
  | nil => exact trivial
  | cons index indices ih =>
    refine .bind (keeps_fillRow hc t index) fun done _ => ?_
    cases done with
    | true => exact ih
    | false => exact trivial

theorem keeps_storeRows (t : ι) (k : Nat) {table : Table}
    (h : ∀ row ∈ table, Fetched requests row) :
    (storeRows t k table).Keeps (Valid c json requests) fun _ => True := by
  induction table generalizing k with
  | nil => exact trivial
  | cons row table ih =>
    refine .bind (Program.keeps_set fun row' hrow => ?_) fun _ _ =>
      ih (k + 1) fun row' hrow' => h row' (List.mem_cons_of_mem _ hrow')
    cases hrow
    exact h row (by simp)

theorem keeps_fetchTransactions (hc : c.Documented) (t : ι) :
    (fetchTransactions c json t (requests t).fetched).Keeps (Valid c json requests)
      fun _ => True := by
  cases hfetched : (requests t).fetched with
  | none => exact trivial
  | some table =>
    refine .bind (keeps_storeRows t 0 fun row hrow => ⟨t, table, hfetched, hrow⟩) fun _ _ => ?_
    refine .bind (Program.keeps_set fun u size heq => ?_) fun _ _ => ?_
    · cases heq
      exact ⟨table, hfetched, rfl⟩
    · refine .bind Program.keeps_get fun userTransactions _ => ?_
      exact .bind (keeps_fillRows hc t _) fun _ _ => trivial

theorem keeps_getColumns {row : Element ι}
    (hrow : ∀ row', row = .fetched row' → Fetched requests row') (properties : List Property) :
    (getColumns c row properties).Keeps (Valid c json requests)
      (List.Forall₂ (fun p column => ∃ value, column = valueOf value ∧
        ∀ text, value = some text → IsValue c json requests (c.getter p) text) properties) := by
  induction properties with
  | nil => exact .nil
  | cons p properties ih =>
    refine .bind (keeps_get hrow _) fun value hvalue => ?_
    exact .bind ih fun columns hcolumns => .cons ⟨value, rfl, hvalue⟩ hcolumns

theorem keeps_getRows (query : ι) (indices : List Nat) :
    (getRows c query indices).Keeps (Valid c json requests) fun rows =>
      (∀ columns ∈ rows, IsLine c json requests columns) ∧ rows.length ≤ indices.length := by
  induction indices with
  | nil => exact ⟨nofun, le_rfl⟩
  | cons index indices ih =>
    refine .bind (keeps_element query index) fun row hrow => ?_
    cases row with
    | none => exact ⟨nofun, Nat.zero_le _⟩
    | some row =>
      refine .bind (keeps_getColumns (fun row' heq => hrow row' (by rw [heq])) header)
        fun columns hcolumns => ?_
      refine .bind ih fun rows hrows => ⟨?_, Nat.succ_le_succ hrows.2⟩
      exact List.forall_mem_cons.mpr ⟨hcolumns, hrows.1⟩

theorem keeps_writeCSVFile :
    (writeCSVFile c : Program (Value ι μ) _).Keeps (Valid c json requests)
      (IsText c json requests) := by
  refine .bind Program.keeps_get fun userTransactions hlist => ?_
  cases userTransactions with
  | none => exact ⟨[], rfl, nofun, .inl rfl⟩
  | some list =>
    obtain ⟨query, size⟩ := list
    obtain ⟨table, hfetched, rfl⟩ := hlist query size rfl
    refine .bind (keeps_getRows query _) fun rows hrows => ?_
    refine ⟨rows, rfl, hrows.1, .inr ⟨query, table, hfetched, ?_⟩⟩
    simpa using hrows.2

theorem keeps_sendFile (told : Bool) {written : Option (Option ι × List Char)}
    (h : ∀ Fname csv, written = some (Fname, csv) →
      (∀ u, Fname = some u → (requests u).made) ∧ IsText c json requests csv) :
    (sendFile told written).Keeps (Valid c json requests) (Regular c json requests) := by
  refine .bind Program.keeps_get fun Fname hname => ?_
  exact ⟨h, fun u hu => hname u (Option.some.inj hu)⟩

theorem keeps_downloadFile (t : ι) :
    (downloadFile c t (requests t)).Keeps (Valid c json requests) (Regular c json requests) := by
  have hvalid : Valid c json requests .Fname (if (requests t).made then some t else none) := by
    intro u hu
    rw [Option.ite_none_right_eq_some] at hu
    obtain ⟨hmade, ⟨⟩⟩ := hu
    exact hmade
  refine .bind (Program.keeps_set hvalid) fun _ _ => ?_
  refine .bind Program.keeps_get fun Fname hname => ?_
  by_cases hopened : (requests t).opened
  · rw [if_pos hopened]
    refine .bind keeps_writeCSVFile fun csv hcsv => ?_
    refine keeps_sendFile false fun Fname' csv' heq => ?_
    cases heq
    exact ⟨hname, hcsv⟩
  · rw [if_neg hopened]
    exact ⟨nofun, nofun⟩

theorem keeps_execute (hc : c.Documented) (t : ι) :
    (execute c json t (requests t)).Keeps (Valid c json requests) (Regular c json requests) := by
  refine .bind (keeps_fetchTransactions hc t) fun _ _ => ?_
  refine .bind Program.keeps_get fun details _ => ?_
  cases details with
  | none => exact keeps_sendFile true nofun
  | some details => exact keeps_downloadFile t

variable [DecidableEq ι] [DecidableEq μ] {h : List ι} {s : State (Value ι μ) ι (Outcome ι)}

def transaction (transactionId perfiosTransactionId formDataJson : String) : Transaction where
  transactionId := transactionId
  perfiosTransactionId := perfiosTransactionId
  userId := 1
  generatedLink := none
  formDataJson := formDataJson
  status := .COMPLETED
  insightsStatus := none
  message := none
  reportLocation := none
  isDeleted := 0
  expiryDate := none

def two : Bool → Request
  | false => ⟨some [transaction "T1" "P1" "ann"], true, true⟩
  | true => ⟨some [transaction "T2" "P2" "bob"], true, true⟩

/-- The second request assigns its list before the first one begins, and does not disturb it. -/
def apart : List Bool := [true, true] ++ List.replicate 58 false ++ [true]

/-- The first request assigns its list after the second one has copied a property of its own. -/
def mixed : List Bool := List.replicate 8 true ++ [false, false] ++ List.replicate 50 true

end InsightsAssist.TransactionDownloads
