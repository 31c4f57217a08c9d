import InsightsAssist.AdminReplies
import InsightsAssist.Split
import InsightsAssist.Transactions
import Mathlib.Logic.Function.Basic

/-! The download of all transactions as comma-separated values: the loop that fills the rows from
their form data, in one try block, and the writer, which does not quote. -/
namespace InsightsAssist.TransactionDetails
open AdminReplies (GenericResultBean)

/-- What the JSON library makes of a text: none where it throws, and otherwise the strings that
`getString` returns, none where that throws. -/
abbrev JSONReader := String → Option (String → Option String)

structure FormData where
  emailId : String
  loanAmount : String
  loanDuration : String
  loanType : String
  organisation : String
  type : String
  mobileNumber : String
  name : String
  deriving DecidableEq, Repr

inductive Property where
  | transactionId | perfiosTransactionId | reportLocation | formDataJson
  | emailId | loanAmount | loanDuration | loanType | organisation | type | mobileNumber | name
  deriving DecidableEq, Repr

/-- `com.ia.beans.TransactionBean` is not among the sources. Of its members `μ` this says which one
each name, setter and getter is for (`getPerfiosTranscationId` is spelled like this), what they are
in a new bean, and what jOOQ puts there for a row. -/
structure TransactionBean (μ : Type) where
  field : Property → μ
  setter : Property → μ
  getter : Property → μ
  initial : μ → Option String
  into : Transaction → μ → Option String

/-- Setters and getters are for the members that they are named after, the getter that is spelled
differently for one that has no other getter, and jOOQ fills the members named after columns. -/
structure TransactionBean.Documented {μ : Type} (c : TransactionBean μ) : Prop where
  injective : Function.Injective c.field
  setter : ∀ p, c.setter p = c.field p
  getter : ∀ p, p ≠ .perfiosTransactionId → c.getter p = c.field p
  getPerfiosTranscationId : ∀ p, p ≠ .perfiosTransactionId →
    c.getter .perfiosTransactionId ≠ c.field p
  transactionId : ∀ row, c.into row (c.field .transactionId) = some row.transactionId
  reportLocation : ∀ row, c.into row (c.field .reportLocation) = row.reportLocation
  formDataJson : ∀ row, c.into row (c.field .formDataJson) = row.formDataJson

abbrev Bean (μ : Type) := μ → Option String

/-- The object keeps the last transactions it has fetched; `hasDetails` tells whether `details` is
not null. -/
structure State (μ : Type) where
  hasDetails : Bool
  userTransactions : List (Bean μ)

inductive Reply where
  | sent (result : GenericResultBean)
  | file (csv : List Char)
  deriving DecidableEq, Repr

def formData (json : JSONReader) (formDataJson : Option String) : Option FormData := do
  let jsonObj ← formDataJson.bind json
  let emailId ← jsonObj "emailId"
  let loanAmount ← jsonObj "loanAmount"
  let loanDuration ← jsonObj "loanDuration"
  let loanType ← jsonObj "loanType"
  let organisation ← jsonObj "organisation"
  let type ← jsonObj "type"
  let mobileNumber ← jsonObj "mobileNumber"
  let name ← jsonObj "name"
  return { emailId, loanAmount, loanDuration, loanType, organisation, type, mobileNumber, name }

/-- The properties that the loop copies from the row, in its order. -/
def copied : List Property :=
  [.transactionId, .perfiosTransactionId, .reportLocation, .formDataJson]

/-- Those that it reads from the form data. -/
def parsed : List Property :=
  [.emailId, .loanAmount, .loanDuration, .loanType, .organisation, .type, .mobileNumber, .name]

def FormData.of (data : FormData) : Property → Option String
  | .emailId => some data.emailId
  | .loanAmount => some data.loanAmount
  | .loanDuration => some data.loanDuration
  | .loanType => some data.loanType
  | .organisation => some data.organisation
  | .type => some data.type
  | .mobileNumber => some data.mobileNumber
  | .name => some data.name
  | .transactionId | .perfiosTransactionId | .reportLocation | .formDataJson => none

def FILE_HEADER : String :=
  "transactionId,perfiosTransactionId,name,emailId,mobileNumber,type,organisation,loanType," ++
    "loanAmount,loanDuration,reportLocation"

def valueOf (value : Option String) : List Char := (value.getD "null").toList

def formHeader : List Property :=
  [.name, .emailId, .mobileNumber, .type, .organisation, .loanType, .loanAmount, .loanDuration]

/-- The properties that are printed. -/
def header : List Property :=
  [.transactionId, .perfiosTransactionId] ++ formHeader ++ [.reportLocation]

section
variable {μ : Type} [DecidableEq μ] (c : TransactionBean μ) (json : JSONReader)

def set (p : Property) (value : Option String) (details : Bean μ) : Bean μ :=
  Function.update details (c.setter p) value

def copyProperties (row : Bean μ) : Bean μ :=
  copied.foldl (fun details p => set c p (row (c.field p)) details) c.initial

def setFormData (data : FormData) (details : Bean μ) : Bean μ :=
  parsed.foldl (fun details p => set c p (data.of p) details) details

/-- The loop; the first row that throws ends it, and the rows from there on stay as they were. -/
def fillFormData : List (Bean μ) → List (Bean μ)
  | [] => []
  | row :: rows =>
    match formData json (copyProperties c row (c.field .formDataJson)) with
    | some data => setFormData c data (copyProperties c row) :: fillFormData rows
    | none => row :: rows

omit [DecidableEq μ] in
def formColumns (details : Bean μ) : List (List Char) :=
  formHeader.map fun p => valueOf (details (c.getter p))

omit [DecidableEq μ] in
def columns (details : Bean μ) : List (List Char) :=
  header.map fun p => valueOf (details (c.getter p))

def writeCSVFile (userTransactions : List (Bean μ)) : List Char :=
  terminated '\n' (FILE_HEADER.toList ::
    userTransactions.map fun details => join ',' (columns c details))

/-- `fetched` is none where the query throws. -/
def retrieveTransactionDetails (fetched : Option Table) (s : State μ) : State μ × Reply :=
  let s := match fetched with
    | some table => ⟨s.hasDetails || !table.isEmpty, fillFormData c json (table.map c.into)⟩
    | none => s
  if s.hasDetails then (s, .file (writeCSVFile c s.userTransactions))
  else (s, .sent ⟨some "No data present to be written to file", false⟩)

end

/-! ### What the file should say -/

def FormData.columns (data : FormData) : List (List Char) :=
  [data.name.toList, data.emailId.toList, data.mobileNumber.toList, data.type.toList,
    data.organisation.toList, data.loanType.toList, data.loanAmount.toList,
    data.loanDuration.toList]

/-- Each line ends with a line break. -/
def readLines (csv : List Char) : List (List Char) := (csv.splitOn '\n').dropLast

def readColumns (line : List Char) : List (List Char) := line.splitOn ','

/-- Below the header there is a line for each transaction, of eleven columns, with the values of
the form data where it is well formed. -/
def Lists (json : JSONReader) (table : Table) (csv : List Char) : Prop :=
  ∃ lines, readLines csv = FILE_HEADER.toList :: lines ∧ lines.length = table.length ∧
    (∀ line ∈ lines, (readColumns line).length = 11) ∧
    ∀ (i : Nat) (row : Transaction) line data, table[i]? = some row → lines[i]? = some line →
      formData json row.formDataJson = some data →
      ((readColumns line).drop 2).take 8 = data.columns

def Clean (value : List Char) : Prop := ',' ∉ value ∧ '\n' ∉ value

def formedBefore (json : JSONReader) (table : Table) (i : Nat) : Bool :=
  (table.take i).all fun row => (formData json row.formDataJson).isSome

/-- What `getPerfiosTranscationId` returns for a row, filled from its form data or not: only where
it is the getter of `perfiosTransactionId` does a filled row have it from the table. -/
def TransactionBean.getPerfiosTranscationId {μ : Type} [DecidableEq μ] (c : TransactionBean μ)
    (filled : Bool) (row : Transaction) : Option String :=
  if filled = false then c.into row (c.getter .perfiosTransactionId)
  else if c.getter .perfiosTransactionId = c.field .perfiosTransactionId then
    c.into row (c.field .perfiosTransactionId)
  else c.initial (c.getter .perfiosTransactionId)

/-- No printed value has a comma or a line break. From the first row on whose form data is not well
formed, the values are those that jOOQ has put into the beans, and they have to be right. -/
def Printable {μ : Type} [DecidableEq μ] (c : TransactionBean μ) (json : JSONReader)
    (table : Table) : Prop :=
  ∀ (i : Nat) (row : Transaction), table[i]? = some row →
    let filled := formedBefore json table (i + 1)
    Clean row.transactionId.toList ∧ Clean (valueOf (c.getPerfiosTranscationId filled row)) ∧
    Clean (valueOf row.reportLocation) ∧
    (filled → ∀ data, formData json row.formDataJson = some data →
      ∀ value ∈ data.columns, Clean value) ∧
    (¬ filled → ∀ p ∈ formHeader, Clean (valueOf (c.into row (c.getter p))) ∧
      ∀ data, formData json row.formDataJson = some data →
        valueOf (c.into row (c.getter p)) = valueOf (data.of p))

variable {μ : Type} {c : TransactionBean μ} {json : JSONReader} {table : Table}
  {rows : List (Bean μ)} {i : Nat} {details : Bean μ} {data : FormData}
  {lines : List (List Char)}

/-! ### The lines -/

theorem length_columns (c : TransactionBean μ) (details : Bean μ) :
    (columns c details).length = 11 := rfl

theorem columns_ne_nil (c : TransactionBean μ) (details : Bean μ) : columns c details ≠ [] := by
  simp [columns, header]

theorem not_mem_header : '\n' ∉ FILE_HEADER.toList := by decide +kernel

/-- The parts of the file that line breaks separate, the empty one behind the last included. -/
def parts (c : TransactionBean μ) (rows : List (Bean μ)) : List (List Char) :=
  (FILE_HEADER.toList :: rows.map fun details => join ',' (columns c details)) ++ [[]]

theorem writeCSVFile_eq_join (c : TransactionBean μ) (rows : List (Bean μ)) :
    writeCSVFile c rows = join '\n' (parts c rows) := terminated_eq_join _ _

theorem parts_no_break : (∀ part ∈ parts c rows, '\n' ∉ part) ↔
    ∀ details ∈ rows, ∀ value ∈ columns c details, '\n' ∉ value := by
  have hjoin (details : Bean μ) : '\n' ∉ join ',' (columns c details) ↔
      ∀ value ∈ columns c details, '\n' ∉ value := by
    rw [mem_join (by decide)]
    simp
  simp only [parts, List.cons_append, List.mem_cons, List.mem_append, List.mem_map,
    forall_eq_or_imp, not_mem_header, not_false_eq_true, true_and, List.not_mem_nil, or_false]
  constructor
  · intro h details hmem
    exact (hjoin details).mp (h _ (.inl ⟨details, hmem, rfl⟩))
  · rintro h part (⟨details, hmem, rfl⟩ | rfl)
    · exact (hjoin details).mpr (h details hmem)
    · exact List.not_mem_nil

theorem length_splitOn_writeCSVFile :
    ((writeCSVFile c rows).splitOn '\n').length = rows.length + 2 ↔
      ∀ details ∈ rows, ∀ value ∈ columns c details, '\n' ∉ value := by
  have hlength : (parts c rows).length = rows.length + 2 := by simp [parts]
  rw [← parts_no_break, writeCSVFile_eq_join, ← hlength]
  exact length_splitOn_join_iff (by simp [parts])

theorem readLines_writeCSVFile
    (h : ∀ details ∈ rows, ∀ value ∈ columns c details, '\n' ∉ value) :
    readLines (writeCSVFile c rows) =
      FILE_HEADER.toList :: rows.map fun details => join ',' (columns c details) := by
  rw [readLines, writeCSVFile_eq_join, splitOn_join (by simp [parts]) (parts_no_break.mpr h), parts,
    List.dropLast_concat]

theorem readColumns_length : (readColumns (join ',' (columns c details))).length = 11 ↔
    ∀ value ∈ columns c details, ',' ∉ value := by
  rw [← length_columns c details]
  exact length_splitOn_join_iff (columns_ne_nil c details)

theorem readColumns_join (h : ∀ value ∈ columns c details, ',' ∉ value) :
    readColumns (join ',' (columns c details)) = columns c details :=
  splitOn_join (columns_ne_nil c details) h

/-- The rows of well-formed form data have been filled. -/
def Filled (c : TransactionBean μ) (json : JSONReader) (table : Table) (rows : List (Bean μ)) :
    Prop :=
  ∀ (i : Nat) (row : Transaction) (details : Bean μ) data, table[i]? = some row →
    rows[i]? = some details → formData json row.formDataJson = some data →
    formColumns c details = data.columns

theorem take_drop_columns (c : TransactionBean μ) (details : Bean μ) :
    ((columns c details).drop 2).take 8 = formColumns c details := rfl

theorem lists_of_clean (hlength : rows.length = table.length)
    (hclean : ∀ details ∈ rows, ∀ value ∈ columns c details, Clean value) :
    Lists json table (writeCSVFile c rows) ↔ Filled c json table rows := by
  have hlines := readLines_writeCSVFile fun details hmem value hvalue =>
    (hclean details hmem value hvalue).2
  have hcolumns (details) (hmem : details ∈ rows) :
      readColumns (join ',' (columns c details)) = columns c details :=
    readColumns_join fun value hvalue => (hclean details hmem value hvalue).1
  constructor
  · intro ⟨lines, hread, _, _, hvalues⟩ i row details data hrow hdetails hdata
    obtain rfl : _ = lines := (List.cons.inj (hlines.symm.trans hread)).2
    have hline := hvalues i row _ data hrow (by rw [List.getElem?_map, hdetails]; rfl) hdata
    rwa [hcolumns details (List.mem_of_getElem? hdetails), take_drop_columns] at hline
  · intro hfilled
    refine ⟨_, hlines, by simpa using hlength, ?_, ?_⟩
    · intro line hline
      obtain ⟨details, hmem, rfl⟩ := List.mem_map.mp hline
      rw [hcolumns details hmem, length_columns]
    · intro i row line data hrow hline hdata
      rw [List.getElem?_map, Option.map_eq_some_iff] at hline
      obtain ⟨details, hdetails, rfl⟩ := hline
      rw [hcolumns details (List.mem_of_getElem? hdetails), take_drop_columns]
      exact hfilled i row details data hrow hdetails hdata

theorem clean_of_lists (hlength : rows.length = table.length)
    (h : Lists json table (writeCSVFile c rows)) :
    ∀ details ∈ rows, ∀ value ∈ columns c details, Clean value := by
  obtain ⟨lines, hread, hcount, hcolumns, -⟩ := h
  have hbreaks : ∀ details ∈ rows, ∀ value ∈ columns c details, '\n' ∉ value := by
    rw [← length_splitOn_writeCSVFile]
    have hdrop := congrArg List.length hread
    have hne := List.length_pos_of_ne_nil (List.splitOn_ne_nil '\n' (writeCSVFile c rows))
    rw [readLines, List.length_dropLast, List.length_cons] at hdrop
    omega
  obtain rfl : _ = lines := (List.cons.inj ((readLines_writeCSVFile hbreaks).symm.trans hread)).2
  intro details hmem value hvalue
  refine ⟨?_, hbreaks details hmem value hvalue⟩
  exact readColumns_length.mp (hcolumns _ (List.mem_map_of_mem hmem)) value hvalue

theorem lists_iff (hlength : rows.length = table.length) :
    Lists json table (writeCSVFile c rows) ↔
      (∀ details ∈ rows, ∀ value ∈ columns c details, Clean value) ∧
        Filled c json table rows := by
  constructor
  · intro h
    have hclean := clean_of_lists hlength h
    exact ⟨hclean, (lists_of_clean hlength hclean).mp h⟩
  · intro ⟨hclean, hfilled⟩
    exact (lists_of_clean hlength hclean).mpr hfilled

/-! ### The loop -/

variable [DecidableEq μ]

theorem length_fillFormData (rows : List (Bean μ)) :
    (fillFormData c json rows).length = rows.length := by
  induction rows with
  | nil => rfl
  | cons details rows ih =>
    rw [fillFormData]
    split
    · simp [ih]
    · rfl

def rowData (c : TransactionBean μ) (json : JSONReader) (row : Transaction) : Option FormData :=
  formData json (copyProperties c (c.into row) (c.field .formDataJson))

def reaches (c : TransactionBean μ) (json : JSONReader) (table : Table) (i : Nat) : Bool :=
  (table.take i).all fun row => (rowData c json row).isSome

/-- A row as it is printed, whether the loop comes to it or not. -/
def printed (c : TransactionBean μ) (json : JSONReader) (reached : Bool) (row : Transaction) :
    Bean μ :=
  match rowData c json row with
  | some data => if reached then setFormData c data (copyProperties c (c.into row)) else c.into row
  | none => c.into row

theorem printed_false (row : Transaction) : printed c json false row = c.into row := by
  rw [printed]
  split <;> rfl

theorem reaches_succ {row : Transaction} : reaches c json (row :: table) (i + 1) =
    ((rowData c json row).isSome && reaches c json table i) := by
  simp [reaches]

theorem getElem?_fillFormData (table : Table) (i : Nat) :
    (fillFormData c json (table.map c.into))[i]? =
      table[i]?.map (printed c json (reaches c json table i)) := by
  induction table generalizing i with
  | nil => rfl
  | cons row table ih =>
    have hdata' : formData json (copyProperties c (c.into row) (c.field .formDataJson)) =
      rowData c json row := rfl
    have hzero : reaches c json (row :: table) 0 = true := rfl
    rw [List.map_cons, fillFormData, hdata']
    cases hdata : rowData c json row with
    | some data =>
      cases i with
      | zero => simp [printed, hdata, hzero]
      | succ i =>
        rw [reaches_succ, hdata]
        exact ih i
    | none =>
      cases i with
      | zero => simp [printed, hdata]
      | succ i =>
        -- the loop has ended before this row
        have hraw : printed c json (reaches c json (row :: table) (i + 1)) = c.into := by
          rw [reaches_succ, hdata]
          exact funext printed_false
        simp [hraw]

/-! ### The beans of the loop -/

theorem foldl_set_of_mem (hc : c.Documented) {p : Property} {properties : List Property}
    (hp : p ∈ properties) (value : Property → Option String) (details : Bean μ) :
    properties.foldl (fun details q => set c q (value q) details) details (c.field p) =
      value p := by
  induction properties using List.reverseRecOn with
  | nil => cases hp
  | append_singleton properties q ih =>
    rw [List.foldl_append, List.foldl_cons, List.foldl_nil, set, hc.setter]
    by_cases hpq : p = q
    · subst hpq
      exact Function.update_self ..
    · rw [Function.update_of_ne (hc.injective.ne hpq)]
      exact ih ((List.mem_append.mp hp).resolve_right (by simpa using hpq))

theorem foldl_set_of_ne (hc : c.Documented) {m : μ} {properties : List Property}
    (hm : ∀ p ∈ properties, m ≠ c.field p) (value : Property → Option String) (details : Bean μ) :
    properties.foldl (fun details p => set c p (value p) details) details m = details m := by
  induction properties generalizing details with
  | nil => rfl
  | cons p properties ih =>
    rw [List.forall_mem_cons] at hm
    rw [List.foldl_cons, ih hm.2, set, hc.setter, Function.update_of_ne hm.1]

theorem rowData_eq (hc : c.Documented) (row : Transaction) :
    rowData c json row = formData json row.formDataJson := by
  have hmem : Property.formDataJson ∈ copied := by decide
  have hcopied := foldl_set_of_mem hc hmem (fun p => c.into row (c.field p)) c.initial
  rw [rowData, copyProperties, hcopied, hc.formDataJson]

theorem reaches_eq (hc : c.Documented) (table : Table) (i : Nat) :
    reaches c json table i = formedBefore json table i := by
  simp only [reaches, formedBefore, rowData_eq hc]

def made (c : TransactionBean μ) (row : Transaction) (data : FormData) : Bean μ :=
  setFormData c data (copyProperties c (c.into row))

theorem made_of_parsed (hc : c.Documented) {p : Property} (hp : p ∈ parsed) (row : Transaction)
    (data : FormData) : made c row data (c.field p) = data.of p :=
  foldl_set_of_mem hc hp data.of _

theorem made_of_copied (hc : c.Documented) {p : Property} (hp : p ∈ copied) (row : Transaction)
    (data : FormData) : made c row data (c.field p) = c.into row (c.field p) := by
  have hparsed : ∀ q ∈ parsed, c.field p ≠ c.field q := by
    intro q hq heq
    obtain rfl := hc.injective heq
    revert hp hq
    cases p <;> decide
  rw [made, setFormData, foldl_set_of_ne hc hparsed]
  exact foldl_set_of_mem hc hp (fun q => c.into row (c.field q)) c.initial

theorem made_getPerfiosTranscationId (hc : c.Documented) (row : Transaction) (data : FormData) :
    made c row data (c.getter .perfiosTransactionId) = c.getPerfiosTranscationId true row := by
  rw [TransactionBean.getPerfiosTranscationId, if_neg (by simp)]
  by_cases hown : c.getter .perfiosTransactionId = c.field .perfiosTransactionId
  · rw [if_pos hown, hown]
    exact made_of_copied hc (by decide) row data
  · have hother (p : Property) : c.getter .perfiosTransactionId ≠ c.field p := by
      by_cases hp : p = .perfiosTransactionId
      · rwa [hp]
      · exact hc.getPerfiosTranscationId p hp
    rw [if_neg hown, made, setFormData, foldl_set_of_ne hc fun p _ => hother p, copyProperties,
      foldl_set_of_ne hc fun p _ => hother p]

/-! ### When the file says it -/

omit [DecidableEq μ] in
theorem mem_columns {P : List Char → Prop} (hc : c.Documented) :
    (∀ value ∈ columns c details, P value) ↔
      P (valueOf (details (c.field .transactionId))) ∧
        P (valueOf (details (c.getter .perfiosTransactionId))) ∧
        P (valueOf (details (c.field .reportLocation))) ∧
        ∀ value ∈ formColumns c details, P value := by
  rw [← hc.getter .transactionId (by decide), ← hc.getter .reportLocation (by decide)]
  simp only [columns, header, formColumns, List.map_append, List.map_cons, List.map_nil,
    List.mem_append, List.mem_cons, List.not_mem_nil, or_false, or_imp, forall_and, forall_eq]
  tauto

theorem formColumns_made (hc : c.Documented) (row : Transaction) (data : FormData) :
    formColumns c (made c row data) = data.columns := by
  have hvalue (p : Property) (hp : p ∈ parsed) (hne : p ≠ .perfiosTransactionId) :
      made c row data (c.getter p) = data.of p := by
    rw [hc.getter p hne, made_of_parsed hc hp]
  simp only [formColumns, formHeader, List.map_cons, List.map_nil]
  rw [hvalue .name (by decide) (by decide), hvalue .emailId (by decide) (by decide),
    hvalue .mobileNumber (by decide) (by decide), hvalue .type (by decide) (by decide),
    hvalue .organisation (by decide) (by decide), hvalue .loanType (by decide) (by decide),
    hvalue .loanAmount (by decide) (by decide), hvalue .loanDuration (by decide) (by decide)]
  rfl

theorem columns_eq (data : FormData) : data.columns = formHeader.map fun p => valueOf (data.of p) :=
  rfl

omit [DecidableEq μ] in
theorem formColumns_eq_columns : formColumns c details = data.columns ↔
    ∀ p ∈ formHeader, valueOf (details (c.getter p)) = valueOf (data.of p) := by
  rw [columns_eq, formColumns, List.map_inj_left]

omit [DecidableEq μ] in
theorem valueOf_transactionId (hc : c.Documented) (row : Transaction) :
    valueOf (c.into row (c.field .transactionId)) = row.transactionId.toList := by
  rw [hc.transactionId]
  rfl

theorem unfilled_iff (hc : c.Documented) (row : Transaction) :
    ((∀ value ∈ columns c (c.into row), Clean value) ∧
      ∀ data, formData json row.formDataJson = some data →
        formColumns c (c.into row) = data.columns) ↔
    Clean row.transactionId.toList ∧ Clean (valueOf (c.getPerfiosTranscationId false row)) ∧
      Clean (valueOf row.reportLocation) ∧
      ∀ p ∈ formHeader, Clean (valueOf (c.into row (c.getter p))) ∧
        ∀ data, formData json row.formDataJson = some data →
          valueOf (c.into row (c.getter p)) = valueOf (data.of p) := by
  have hperfios : c.getPerfiosTranscationId false row =
      c.into row (c.getter .perfiosTransactionId) := if_pos rfl
  simp only [mem_columns hc, valueOf_transactionId hc, hc.reportLocation, formColumns_eq_columns,
    hperfios]
  simp only [formColumns, List.forall_mem_map]
  constructor
  · rintro ⟨⟨htransaction, hshown, hlocation, hform⟩, hdata⟩
    exact ⟨htransaction, hshown, hlocation, fun p hp =>
      ⟨hform p hp, fun data hsome => hdata data hsome p hp⟩⟩
  · rintro ⟨htransaction, hshown, hlocation, hform⟩
    exact ⟨⟨htransaction, hshown, hlocation, fun p hp => (hform p hp).1⟩,
      fun data hsome p hp => (hform p hp).2 data hsome⟩

theorem printed_iff (hc : c.Documented) (reached : Bool) (row : Transaction) :
    ((∀ value ∈ columns c (printed c json reached row), Clean value) ∧
      ∀ data, formData json row.formDataJson = some data →
        formColumns c (printed c json reached row) = data.columns) ↔
    let filled := reached && (formData json row.formDataJson).isSome
    Clean row.transactionId.toList ∧ Clean (valueOf (c.getPerfiosTranscationId filled row)) ∧
      Clean (valueOf row.reportLocation) ∧
      (filled → ∀ data, formData json row.formDataJson = some data →
        ∀ value ∈ data.columns, Clean value) ∧
      (¬ filled → ∀ p ∈ formHeader, Clean (valueOf (c.into row (c.getter p))) ∧
        ∀ data, formData json row.formDataJson = some data →
          valueOf (c.into row (c.getter p)) = valueOf (data.of p)) := by
  have hunfilled := @unfilled_iff _ _ json _ hc row
  cases hdata : formData json row.formDataJson with
  | none =>
    have hraw : printed c json reached row = c.into row := by
      rw [printed, rowData_eq hc, hdata]
    rw [hdata] at hunfilled
    simpa [hraw] using hunfilled
  | some data =>
    cases reached with
    | false =>
      rw [hdata] at hunfilled
      simpa [printed_false row] using hunfilled
    | true =>
      have hmade : printed c json true row = made c row data := by
        rw [printed, rowData_eq hc, hdata]
        rfl
      have hlocation : made c row data (c.field .reportLocation) = row.reportLocation := by
        rw [made_of_copied hc (by decide), hc.reportLocation]
      simp [hmade, mem_columns hc, formColumns_made hc, made_getPerfiosTranscationId hc, hlocation,
        made_of_copied hc (p := .transactionId) (by decide), valueOf_transactionId hc]

theorem formedBefore_succ {row : Transaction} (hrow : table[i]? = some row) :
    formedBefore json table (i + 1) =
      (formedBefore json table i && (formData json row.formDataJson).isSome) := by
  rw [formedBefore, formedBefore, List.take_add_one, hrow, List.all_append]
  simp

theorem lists_fillFormData_iff (hc : c.Documented) (table : Table) :
    Lists json table (writeCSVFile c (fillFormData c json (table.map c.into))) ↔
      Printable c json table := by
  rw [lists_iff (by rw [length_fillFormData, List.length_map])]
  constructor
  · intro ⟨hclean, hfilled⟩ i row hrow
    have hdetails : (fillFormData c json (table.map c.into))[i]? =
        some (printed c json (formedBefore json table i) row) := by
      rw [getElem?_fillFormData, hrow, reaches_eq hc]
      rfl
    rw [formedBefore_succ hrow]
    refine (printed_iff hc _ row).mp ⟨hclean _ (List.mem_of_getElem? hdetails), ?_⟩
    exact fun data => hfilled i row _ data hrow hdetails
  · intro h
    have hprintable (i : Nat) (row : Transaction) (hrow : table[i]? = some row) := h i row hrow
    have hrows (i : Nat) (details : Bean μ)
        (hdetails : (fillFormData c json (table.map c.into))[i]? = some details) :
        ∃ row, table[i]? = some row ∧ printed c json (formedBefore json table i) row = details := by
      rwa [getElem?_fillFormData, Option.map_eq_some_iff, reaches_eq hc] at hdetails
    constructor
    · intro details hmem
      obtain ⟨i, hdetails⟩ := List.getElem?_of_mem hmem
      obtain ⟨row, hrow, rfl⟩ := hrows i details hdetails
      have hi := h i row hrow
      rw [formedBefore_succ hrow] at hi
      exact ((printed_iff hc _ row).mpr hi).1
    · intro i row details data hrow hdetails
      obtain ⟨row', hrow', rfl⟩ := hrows i details hdetails
      obtain rfl : row = row' := Option.some.inj (hrow.symm.trans hrow')
      have hi := h i row hrow
      rw [formedBefore_succ hrow] at hi
      exact ((printed_iff hc _ row).mpr hi).2 data

/-- For every table, whatever was fetched before: the file lists it iff no printed value has a
comma or a line break, and behind the first row without it well-formed form data is in the bean
already. -/
theorem file_lists_iff (hc : c.Documented) (json : JSONReader) (table : Table) (s : State μ) :
    (∀ csv, (retrieveTransactionDetails c json (some table) s).2 = .file csv →
      Lists json table csv) ↔ Printable c json table := by
  rw [← lists_fillFormData_iff hc]
  by_cases hdetails : s.hasDetails || !table.isEmpty
  · have hfile : (retrieveTransactionDetails c json (some table) s).2 =
        .file (writeCSVFile c (fillFormData c json (table.map c.into))) := by
      simp [retrieveTransactionDetails, hdetails]
    simp [hfile]
  · -- nothing is written of an empty table, and there is nothing to read
    have hempty : table = [] := by
      cases table with
      | nil => rfl
      | cons row table => simp at hdetails
    have hsent : ∀ csv, (retrieveTransactionDetails c json (some table) s).2 ≠ .file csv := by
      intro csv
      simp [retrieveTransactionDetails, hdetails]
    refine iff_of_true (fun csv h => absurd h (hsent csv)) ?_
    rw [lists_fillFormData_iff hc, hempty]
    intro i row hrow
    cases hrow

/-- A class whose properties are its members, the other getter's included. -/
def plainBean : TransactionBean Property where
  field := id
  setter := id
  getter := id
  initial _ := none
  into row
    | .transactionId => some row.transactionId
    | .perfiosTransactionId => row.perfiosTransactionId
    | .reportLocation => row.reportLocation
    | .formDataJson => row.formDataJson
    | _ => none

theorem plainBean_documented : plainBean.Documented where
  injective := Function.injective_id
  setter _ := rfl
  getter _ _ := rfl
  getPerfiosTranscationId _ hp := hp.symm
  transactionId _ := rfl
  reportLocation _ := rfl
  formDataJson _ := rfl

/-- The form data of a row, and a reader that knows this text only. -/
def asha : String :=
  "\x7b\"name\":\"Asha\",\"emailId\":\"asha@a.in\",\"mobileNumber\":\"98\"," ++
    "\"type\":\"Salaried\",\"organisation\":\"acme\",\"loanType\":\"Home\"," ++
    "\"loanAmount\":\"5\",\"loanDuration\":\"2\"\x7d"

def reader : JSONReader := fun text =>
  if text = asha then
    some fun key => match key with
      | "name" => some "Asha"
      | "emailId" => some "asha@a.in"
      | "mobileNumber" => some "98"
      | "type" => some "Salaried"
      | "organisation" => some "acme"
      | "loanType" => some "Home"
      | "loanAmount" => some "5"
      | "loanDuration" => some "2"
      | _ => none
  else none

def rowOf (transactionId formDataJson : String) : Transaction where
  transactionId
  perfiosTransactionId := none
  userId := 1
  generatedLink := none
  formDataJson := some formDataJson
  status := .INITIATED
  insightsStatus := none
  message := none
  reportLocation := none
  isDeleted := 0
  expiryDate := none

def ashaData : FormData where
  emailId := "asha@a.in"
  loanAmount := "5"
  loanDuration := "2"
  loanType := "Home"
  organisation := "acme"
  type := "Salaried"
  mobileNumber := "98"
  name := "Asha"

theorem asha_listed : ∃ csv,
    (retrieveTransactionDetails plainBean reader (some [rowOf "T2" asha]) ⟨false, []⟩).2 =
      .file csv ∧ Lists reader [rowOf "T2" asha] csv := by
  refine ⟨_, rfl, (file_lists_iff plainBean_documented reader [rowOf "T2" asha] ⟨false, []⟩).mpr
    ?_ _ rfl⟩
  have hdata : formData reader (some asha) = some ashaData := by decide +kernel
  have hbefore : formedBefore reader [rowOf "T2" asha] 1 = true := by decide +kernel
  have hclean : ∀ value ∈ ["T2".toList, valueOf none] ++ ashaData.columns,
      ',' ∉ value ∧ '\n' ∉ value := by
    decide +kernel
  simp only [List.forall_mem_append, List.forall_mem_cons] at hclean
  intro i row hrow
  obtain ⟨rfl, rfl⟩ : i = 0 ∧ rowOf "T2" asha = row := by
    cases i <;> simp_all
  have hperfios : plainBean.getPerfiosTranscationId true (rowOf "T2" asha) = none := rfl
  rw [hbefore]
  dsimp only
  rw [hperfios]
  refine ⟨hclean.1.1, hclean.1.2.1, hclean.1.2.1, fun _ data hsome => ?_, absurd rfl⟩
  obtain rfl : ashaData = data := Option.some.inj (hdata.symm.trans hsome)
  exact hclean.2

/-- A text that ends too early, and Asha's. -/
def unfinished : Table := [rowOf "T1" "\x7b", rowOf "T2" asha]

/-- Behind a row whose text ends too early, Asha's row is printed without her data. -/
theorem early_end_not_listed : ¬ ∀ csv,
    (retrieveTransactionDetails plainBean reader (some unfinished) ⟨false, []⟩).2 = .file csv →
      Lists reader unfinished csv := by
  intro h
  have hprintable := (lists_fillFormData_iff plainBean_documented unfinished).mp (h _ rfl)
  have hdata : ∃ data, formData reader (some asha) = some data ∧ data.name = "Asha" := by
    decide +kernel
  have hbefore : formedBefore reader unfinished 2 = false := by decide +kernel
  obtain ⟨data, hdata, hname⟩ := hdata
  have hshown := ((hprintable 1 (rowOf "T2" asha) rfl).2.2.2.2 (by simp [hbefore]) .name
    (by decide)).2 data hdata
  have hvalue : data.of .name = some "Asha" := congrArg some hname
  rw [hvalue] at hshown
  exact absurd hshown (by decide)

end InsightsAssist.TransactionDetails
