import InsightsAssist.ExportOrganisation
import InsightsAssist.ImportOrganisation
import InsightsAssist.Literals

/-! An organisation that is exported to a file, and imported from it into another database. The
bean has the properties that the import reads, in the order in which it reads them. -/
namespace InsightsAssist.OrganisationTransfer
open Java Runs ImportOrganisation
open OrganisationCache (Cache)

def isDatePart (c : Char) : Bool := c ∈ "0123456789-:. ".toList

/-- How times and dates are converted to strings for a bean, and read by the database. -/
structure Dates where
  timestamp : Int → List Char
  date : Int → List Char
  readTimestamp : List Char → Option Int
  readDate : List Char → Option Int
  timestamp_ne : ∀ t, timestamp t ≠ []
  date_ne : ∀ t, date t ≠ []
  timestamp_parts : ∀ t, (timestamp t).all isDatePart
  date_parts : ∀ t, (date t).all isDatePart

variable (dates : Dates)

/-- What a bean holds of a row, apart from `enabled`. -/
def texts (row : IaOrganisation) : List (List Char) :=
  [row.organisationName.toList, row.key.toList, row.insightsKey.toList,
    dates.timestamp row.updated, dates.timestamp row.created, dates.date row.licenseEndDate]

/-- What stands before each of these texts in a JSON object. -/
def members (enabled : Int) : List (List Char) :=
  ["\x7b\"organisation_name\":\"".toList, ",\"key\":\"".toList, ",\"insights_key\":\"".toList,
    ",\"enabled\":".toList ++ (toString enabled).toList ++ ",\"updated\":\"".toList,
    ",\"created\":\"".toList, ",\"license_end_date\":\"".toList]

def json (row : IaOrganisation) : List Char :=
  Json.string.writeList (·.flatMap Json.escape) (members row.enabled) (texts dates row) ++
    "\x7d".toList

/-- `gson.toJson` of the exported list. -/
def toJson (rows : List IaOrganisation) : List Char :=
  "[".toList ++ [','].intercalate (rows.map (json dates)) ++ "]".toList

def bean : List (List Char) → Option OrgBean
  | [name, key, insightsKey, updated, created, license] => some
    { organisation_name := some (String.ofList name)
      key := some (String.ofList key)
      insights_key := some (String.ofList insightsKey)
      enabled := 1
      updated := some (String.ofList updated)
      created := some (String.ofList created)
      license_end_date := some (String.ofList license) }
  | _ => none

/-- The bean of an enabled organisation, written without blanks. -/
def readObject (text : List Char) : Option OrgBean :=
  (Json.string.readWhole (members 1) "\x7d".toList text).bind bean

def columns (enabled : Int) : List (List Char) :=
  ["insert into ia_organisations(organisation_name,`key`,insights_key,enabled,".toList ++
    "updated,created,license_end_date) values('".toList, ",'".toList, ",'".toList,
    ",".toList ++ (toString enabled).toList ++ ",'".toList, ",'".toList, ",'".toList]

/-- The row of the values of an insert; its id is not among them. -/
def rowOf : List (List Char) → Option IaOrganisation
  | [name, key, insightsKey, updated, created, license] => do
    return {
      organisationId := 0
      organisationName := String.ofList name
      key := String.ofList key
      insightsKey := String.ofList insightsKey
      enabled := 1
      updated := ← dates.readTimestamp updated
      created := ← dates.readTimestamp created
      licenseEndDate := ← dates.readDate license }
  | _ => none

/-- The row that an insert of seven literals inserts. -/
def readInsert (query : List Char) : Option IaOrganisation :=
  (Sql.literal.readWhole (columns 1) ")".toList query).bind (rowOf dates)

structure Copies (new row : IaOrganisation) : Prop where
  organisationName : new.organisationName = row.organisationName
  key : new.key = row.key
  insightsKey : new.insightsKey = row.insightsKey
  enabled : new.enabled = row.enabled
  updated : new.updated = row.updated
  created : new.created = row.created
  licenseEndDate : new.licenseEndDate = row.licenseEndDate

/-- Gson reads such an object, and the database carries such an insert out if the values are those
of the row, which another such table has held. -/
structure Conforms (server : Server) (row : IaOrganisation) (p : Platform) : Prop where
  fromJson : ∀ text bean, readObject text = some bean → p.fromJson text = some (some bean)
  executeUpdate : ∀ query new x t, readInsert dates query = some new → Copies new row →
    p.executeUpdate query x t = IaOrganisations.insertRow server new x t

/-- A multipart body: before the name of its file, from the line after it on, and after the
file. -/
structure Multipart where
  head : List Char
  tail : List Char
  foot : List Char
  head_dot : '.' ∉ head
  head_open : '[' ∉ head
  head_close : ']' ∉ head
  tail_open : '[' ∉ tail
  tail_close : ']' ∉ tail

def Multipart.body (w : Multipart) (name : String) (content : List Char) : List Char :=
  w.head ++ (name.toList ++ ".json\"\r\n".toList) ++ w.tail ++ content ++ w.foot

def Imports (p : Platform) (row : IaOrganisation) (s : State) (r : Request) : Prop :=
  ∃ new, (step p s r).iaOrganisations.rows = s.iaOrganisations.rows ++ [new] ∧ Copies new row

/-- The file of a row is recognised and logged, what stands between its first brackets is the
object, and the insert has the literals of the row. -/
structure Transferable (w : Multipart) (row : IaOrganisation) : Prop where
  fileType : ∃ type, filetype (row.organisationName.toList ++ ".json".toList) = .ok type ∧
    equalsIgnoreCase (String.ofList type) "json"
  name_open : '[' ∉ row.organisationName.toList
  name_close : ']' ∉ row.organisationName.toList
  key_close : ']' ∉ row.key.toList
  insightsKey_close : ']' ∉ row.insightsKey.toList
  logged : formats ("payload request".toList ++ w.body row.organisationName (toJson dates [row]))
  loggedContent : formats ("payload".toList ++ json dates row)
  name_literal : Sql.standsForItself row.organisationName.toList
  key_literal : Sql.standsForItself row.key.toList
  insightsKey_literal : Sql.standsForItself row.insightsKey.toList
  updated : dates.readTimestamp (dates.timestamp row.updated) = some row.updated
  created : dates.readTimestamp (dates.timestamp row.created) = some row.created
  licenseEndDate : dates.readDate (dates.date row.licenseEndDate) = some row.licenseEndDate

/-- It reads such objects and carries such inserts out, and nothing else. -/
def exactly (server : Server) : Platform where
  fromJson text := (readObject text).map some
  executeUpdate query x t := (readInsert dates query).bind fun row =>
    IaOrganisations.insertRow server row x t
  wellFormed query x t t' h ht := by
    obtain ⟨row, _, hinsert⟩ := Option.bind_eq_some_iff.mp h
    exact ht.insertRow hinsert

variable {dates} {server : Server} {row : IaOrganisation} {s : State} {r : Request}

theorem conforms_exactly : Conforms dates server row (exactly dates server) where
  fromJson text bean h := by simp only [exactly, h, Option.map_some]
  executeUpdate query new x t h _ := by simp only [exactly, h, Option.bind_some]

theorem toJson_singleton : toJson dates [row] = '[' :: json dates row ++ [']'] := by
  simp [toJson, List.intercalate]

theorem length_members (enabled : Int) : (members enabled).length = 6 := rfl

theorem length_columns (enabled : Int) : (columns enabled).length = 6 := rfl

theorem readList_json (h : row.enabled = 1) :
    Json.string.readList (members 1) (json dates row) = some (texts dates row, "\x7d".toList) := by
  rw [json, h]
  exact Quoting.readList_written (length_members 1) (fun _ _ _ => Json.ends _)
    (fun _ _ => Json.encodes_flatMap_escape _) (Json.ends _)

theorem readObject_json (h : row.enabled = 1) :
    readObject (json dates row) = bean (texts dates row) := by
  rw [readObject, Quoting.readWhole_eq_some.mpr (readList_json h), Option.bind_some]

theorem isEmpty_ofList (text : List Char) :
    isEmpty (some (String.ofList text)) = decide (text = []) := by
  simp [isEmpty, ← String.toList_inj]

theorem query_eq (name key insightsKey updated created license : String) (enabled : Int) :
    query name key insightsKey enabled updated created license =
      Sql.literal.writeList id (columns enabled) [name.toList, key.toList, insightsKey.toList,
        updated.toList, created.toList, license.toList] ++ ")".toList := by
  have hcomma : "','".toList = '\'' :: ",'".toList := rfl
  have hnumber : "',".toList = '\'' :: ",".toList := rfl
  have hend : "')".toList = '\'' :: ")".toList := rfl
  have hclose : Sql.literal.close = '\'' := rfl
  unfold query columns
  rw [hcomma, hnumber, hend]
  -- the texts themselves play no part
  generalize "insert into ia_organisations(organisation_name,`key`,insights_key,enabled,".toList = a
  generalize "updated,created,license_end_date) values('".toList = b
  generalize ",'".toList = c
  generalize ",".toList = d
  generalize ")".toList = e
  simp [Quoting.writeList, hclose]

def insertOf (values : List (List Char)) : List Char :=
  Sql.literal.writeList id (columns 1) values ++ ")".toList

theorem insert_of_bean {values : List (List Char)} {b : OrgBean} (hb : bean values = some b) :
    b.insert = if [] ∈ values then none else some (insertOf values) := by
  unfold bean at hb
  split at hb <;> cases hb
  rename_i name key insightsKey updated created license
  have hempty : (decide (name = []) || decide (key = []) || decide (insightsKey = []) ||
      decide ((1 : Int) = 0) || decide (updated = []) || decide (created = []) ||
      decide (license = [])) = true ↔ [] ∈ [name, key, insightsKey, updated, created, license] := by
    simp [eq_comm (a := ([] : List Char)), or_assoc]
  have hquery := query_eq (String.ofList name) (String.ofList key) (String.ofList insightsKey)
    (String.ofList updated) (String.ofList created) (String.ofList license) 1
  simp only [String.toList_ofList] at hquery
  simp only [OrgBean.insert, isEmpty_ofList, hempty, Option.bind_eq_bind, Option.bind_some, hquery]
  rfl

theorem datePart_plain {text : List Char} (h : text.all isDatePart) :
    Sql.standsForItself text ∧ ',' ∉ text ∧ ']' ∉ text := by
  have hparts : "0123456789-:. ".toList.all
      fun c => (c ≠ '\'' ∧ c ≠ '\\') ∧ c ≠ ',' ∧ c ≠ ']' := by decide
  have htext : ∀ c ∈ text, (c ≠ '\'' ∧ c ≠ '\\') ∧ c ≠ ',' ∧ c ≠ ']' := by
    intro c hc
    have hpart : c ∈ "0123456789-:. ".toList := of_decide_eq_true (List.all_eq_true.mp h c hc)
    exact of_decide_eq_true (List.all_eq_true.mp hparts c hpart)
  refine ⟨Sql.standsForItself_of_plain fun c hc => (htext c hc).1, fun hmem => ?_, fun hmem => ?_⟩
  · exact (htext _ hmem).2.1 rfl
  · exact (htext _ hmem).2.2 rfl

theorem columns_separate {column : List Char} (h : column ∈ columns 1) :
    Sql.literal.Separates column := by
  have hheads : ∀ column ∈ columns 1, column.head?.any (· ≠ '\'') := by decide
  exact Sql.separates (hheads column h)

theorem rowOf_eq_some {values : List (List Char)} {new : IaOrganisation}
    (h : rowOf dates values = some new) : ∃ updated created license,
      values = [new.organisationName.toList, new.key.toList, new.insightsKey.toList, updated,
        created, license] ∧
      dates.readTimestamp updated = some new.updated ∧
      dates.readTimestamp created = some new.created ∧
      dates.readDate license = some new.licenseEndDate := by
  unfold rowOf at h
  split at h
  · rename_i name key insightsKey updated created license
    simp only [Option.bind_eq_bind, Option.bind_eq_some_iff] at h
    obtain ⟨u, hu, c, hc, l, hl, h⟩ := h
    cases h
    exact ⟨updated, created, license, by simp, hu, hc, hl⟩
  · cases h

theorem readInsert_eq_some {query : List Char} {new : IaOrganisation}
    (h : readInsert dates query = some new) : ∃ values,
      Sql.literal.readList (columns 1) query = some (values, ")".toList) ∧
      rowOf dates values = some new := by
  obtain ⟨values, hwhole, hrow⟩ := Option.bind_eq_some_iff.mp h
  exact ⟨values, Quoting.readWhole_eq_some.mp hwhole, hrow⟩

theorem readObject_eq_some {text : List Char} {b : OrgBean} (h : readObject text = some b) :
    ∃ values, Json.string.readList (members 1) text = some (values, "\x7d".toList) ∧
      bean values = some b := by
  obtain ⟨values, hwhole, hb⟩ := Option.bind_eq_some_iff.mp h
  exact ⟨values, Quoting.readWhole_eq_some.mp hwhole, hb⟩

theorem readInsert_insertOf (hname : Sql.standsForItself row.organisationName.toList)
    (hkey : Sql.standsForItself row.key.toList)
    (hinsightsKey : Sql.standsForItself row.insightsKey.toList) :
    readInsert dates (insertOf (texts dates row)) = rowOf dates (texts dates row) := by
  have hencodes : ∀ text ∈ texts dates row, Sql.literal.Encodes text text := by
    simp only [texts, List.forall_mem_cons, Sql.encodes_self_iff]
    exact ⟨hname, hkey, hinsightsKey, (datePart_plain (dates.timestamp_parts _)).1,
      (datePart_plain (dates.timestamp_parts _)).1, (datePart_plain (dates.date_parts _)).1,
      fun _ h => nomatch h⟩
  have hread : Sql.literal.readList (columns 1) (insertOf (texts dates row)) =
      some (texts dates row, ")".toList) :=
    Quoting.readList_written (length_columns 1) (fun _ => columns_separate) hencodes rfl
  rw [readInsert, Quoting.readWhole_eq_some.mpr hread, Option.bind_some]

theorem literals_of_readInsert {new : IaOrganisation}
    (h : readInsert dates (insertOf (texts dates row)) = some new)
    (hname : new.organisationName = row.organisationName) (hkey : new.key = row.key)
    (hinsightsKey : new.insightsKey = row.insightsKey) :
    Sql.standsForItself row.organisationName.toList ∧ Sql.standsForItself row.key.toList ∧
      Sql.standsForItself row.insightsKey.toList := by
  obtain ⟨values, hlist, hrow⟩ := readInsert_eq_some h
  obtain ⟨updated, created, license, rfl, _⟩ := rowOf_eq_some hrow
  have hcommas : ∀ column ∈ (columns 1).tail, column.head? = some ',' := by decide
  have hdate : ∀ text : List Char, text.all isDatePart → ∀ value : List Char,
      value = text ∨ Sql.literal.Encodes text text ∧ ',' ∉ text := by
    intro text hparts value
    exact .inr ⟨Sql.encodes_self_iff.mpr (datePart_plain hparts).1, (datePart_plain hparts).2.1⟩
  have hvalues : Sql.literal.Recovers ',' (texts dates row)
      [new.organisationName.toList, new.key.toList, new.insightsKey.toList, updated, created,
        license] :=
    .cons (.inl (congrArg String.toList hname)) (.cons (.inl (congrArg String.toList hkey))
      (.cons (.inl (congrArg String.toList hinsightsKey))
      (.cons (hdate _ (dates.timestamp_parts _) _) (.cons (hdate _ (dates.timestamp_parts _) _)
      (.cons (hdate _ (dates.date_parts _) _) .nil)))))
  have hends : Sql.literal.Ends ")".toList := rfl
  have hlength : (columns 1).length = (texts dates row).length := length_columns 1
  have hself := Quoting.encodes_of_readList (fun _ _ => Sql.count_comma_le) hlength
    (fun _ => columns_separate) hcommas hends hvalues hlist
  simp only [Sql.encodes_self_iff] at hself
  exact ⟨hself _ (by simp [texts]), hself _ (by simp [texts]), hself _ (by simp [texts])⟩

theorem name_length_le {content query : List Char} {b : OrgBean} {new : IaOrganisation}
    (hread : readObject content = some b) (hquery : b.insert = some query)
    (hinsert : readInsert dates query = some new) :
    new.organisationName.toList.length ≤ content.length := by
  obtain ⟨values, hlist, hb⟩ := readObject_eq_some hread
  have hlength : (columns 1).length = values.length := by
    rw [length_columns, Quoting.readList_length hlist, length_members]
  rw [insert_of_bean hb] at hquery
  obtain ⟨_, heq⟩ := (ite_eq_iff.mp hquery).resolve_left (by simp)
  cases heq
  obtain ⟨values', hlist', hnew⟩ := readInsert_eq_some hinsert
  obtain ⟨updated, created, license, rfl, _⟩ := rowOf_eq_some hnew
  have hobject := Quoting.readList_measure (fun _ _ => List.length_append)
    (fun _ _ => Json.string.shortens) hlist
  have hinserted := Quoting.readList_measure (fun _ _ => List.length_append)
    (fun _ _ => Sql.literal.shortens) hlist'
  have hwritten : (Sql.literal.writeList id (columns 1) values).length = values.flatten.length +
      ((columns 1).map fun column => column.length + [Sql.literal.close].length).sum :=
    Quoting.measure_written (fun _ _ => List.length_append) hlength
  rw [insertOf, List.length_append, hwritten] at hinserted
  rw [List.flatten_cons, List.length_append] at hinserted
  omega

/-- Behind the name of a file, which ends in a dot and "json", no value and no object goes on. -/
theorem readObject_fileName (a b : List Char) :
    readObject (a ++ ".json\"\r\n".toList ++ b) = none := by
  cases hread : readObject (a ++ ".json\"\r\n".toList ++ b) with
  | none => rfl
  | some bean =>
    exfalso
    obtain ⟨values, hlist, _⟩ := readObject_eq_some hread
    have hdots : ∀ member ∈ members 1, '.' ∉ member := by decide
    have hheads : ∀ member ∈ members 1, member.head?.any (· ≠ '\r') := by decide
    have hname : Json.string.read (".json".toList ++ '"' :: ('\r' :: '\n' :: b)) =
        some (".json".toList, '\r' :: '\n' :: b) :=
      Quoting.read_of_encodes (Json.encodes_flatMap_escape ".json".toList) (Json.ends _)
    rw [List.append_assoc] at hlist
    rcases Quoting.readList_alone Json.dot_alone (by decide) hdots hlist with
      hend | ⟨value, rest, hvalue, hnext⟩
    · exact absurd hend (by decide)
    · cases hname.symm.trans hvalue
      obtain hnext | ⟨member, hmember, hprefix⟩ := hnext
      · cases hnext
      · have hhead := hheads member hmember
        cases member with
        | nil => cases hhead
        | cons c member =>
          obtain ⟨rest, heq⟩ := hprefix
          obtain rfl : c = '\r' := (List.cons.inj heq).1
          cases hhead

theorem bracket_mem_json (h : row.enabled = 1) : ']' ∈ json dates row ↔
    ']' ∈ row.organisationName.toList ∨ ']' ∈ row.key.toList ∨ ']' ∈ row.insightsKey.toList := by
  have htexts : (∃ text ∈ texts dates row, ']' ∈ text) ↔ ']' ∈ row.organisationName.toList ∨
      ']' ∈ row.key.toList ∨ ']' ∈ row.insightsKey.toList := by
    have htime : ∀ t, ']' ∉ dates.timestamp t :=
      fun t => (datePart_plain (dates.timestamp_parts t)).2.2
    have hdate : ∀ t, ']' ∉ dates.date t := fun t => (datePart_plain (dates.date_parts t)).2.2
    simp [texts, htime, hdate]
  rw [json, h, ← htexts]
  constructor
  · intro hmem
    obtain hwritten | hend := List.mem_append.mp hmem
    · obtain ⟨member, hmember, hx⟩ | ⟨text, htext, hx⟩ | hclose := Quoting.mem_written hwritten
      · have hmembers : ∀ member ∈ members 1, ']' ∉ member := by decide
        exact absurd hx (hmembers member hmember)
      · exact ⟨text, htext, Json.bracket_mem_flatMap_escape.mp hx⟩
      · exact absurd hclose (by decide)
    · exact absurd hend (by decide)
  · intro ⟨text, htext, hx⟩
    exact List.mem_append_left _ (Quoting.mem_written_of_value (length_members 1) htext
      (Json.bracket_mem_flatMap_escape.mpr hx))

variable {w : Multipart} {content : List Char}

theorem body_eq (w : Multipart) (row : IaOrganisation) :
    w.body row.organisationName (toJson dates [row]) =
      w.head ++ row.organisationName.toList ++ ".json\"\r\n".toList ++ w.tail ++
        '[' :: (json dates row ++ ']' :: w.foot) := by
  simp [Multipart.body, toJson_singleton]

/-- A bracket in the name is taken for that of the list. -/
theorem length_of_open {b : OrgBean} (hopen : '[' ∈ row.organisationName.toList)
    (hpayload : payload (w.body row.organisationName (toJson dates [row])) = .ok content)
    (hread : readObject content = some b) :
    content.length < row.organisationName.toList.length := by
  obtain ⟨c, d, hname, hc⟩ := List.eq_append_cons_of_mem hopen
  have hbody : w.body row.organisationName (toJson dates [row]) = (w.head ++ c) ++ '[' ::
      (d ++ ".json\"\r\n".toList ++ (w.tail ++ '[' :: (json dates row ++ ']' :: w.foot))) := by
    simp [body_eq, hname]
  rw [hbody] at hpayload
  obtain ⟨_, hcontent, e, he⟩ :=
    payload_eq_ok (by simp [w.head_open, hc]) (by simp) hpayload
  rw [hname, List.length_append, List.length_cons]
  by_cases hclose : ']' ∈ d
  · obtain ⟨f, g, rfl, hf⟩ := List.eq_append_cons_of_mem hclose
    rw [List.append_assoc, List.append_assoc, List.cons_append] at he
    obtain ⟨rfl, _⟩ := append_cons_inj hf hcontent he
    rw [List.length_append]
    omega
  · have hend : ']' ∉ d ++ ".json\"\r\n".toList := by simp [hclose]
    exfalso
    obtain ⟨f, rfl, _⟩ | ⟨f, hf, heq⟩ := List.append_eq_append_iff.mp he
    · rw [readObject_fileName] at hread
      cases hread
    · cases f with
      | nil =>
        have hnone := readObject_fileName d []
        rw [hf, List.append_nil, List.append_nil, hread] at hnone
        cases hnone
      | cons x f =>
        cases heq
        exact hend (hf ▸ by simp)

theorem content_of_payload {b : OrgBean} (henabled : row.enabled = 1)
    (hopen : '[' ∉ row.organisationName.toList)
    (hpayload : payload (w.body row.organisationName (toJson dates [row])) = .ok content)
    (hread : readObject content = some b) :
    ']' ∉ row.organisationName.toList ∧ ']' ∉ json dates row ∧ content = json dates row := by
  rw [body_eq] at hpayload
  obtain ⟨hhead, hcontent, e, he⟩ :=
    payload_eq_ok (by simp [w.head_open, w.tail_open, hopen]) (by simp) hpayload
  refine ⟨fun hmem => hhead (by simp [hmem]), ?_⟩
  by_cases hjson : ']' ∈ json dates row
  · exfalso
    obtain ⟨c, d, hsplit, hc⟩ := List.eq_append_cons_of_mem hjson
    rw [hsplit, List.append_assoc, List.cons_append] at he
    obtain ⟨rfl, _⟩ := append_cons_inj hc hcontent he
    obtain ⟨values, hlist, _⟩ := readObject_eq_some hread
    have hwhole := Quoting.readList_append Json.ends hlist (']' :: d)
    rw [← hsplit, readList_json henabled] at hwhole
    cases hwhole
  · exact ⟨hjson, (append_cons_inj hjson hcontent he).1.symm⟩

theorem filetype_body (w : Multipart) (name : String) (content : List Char) :
    filetype (w.body name content) = filetype (name.toList ++ ".json".toList) := by
  by_cases hdot : '.' ∈ name.toList
  · obtain ⟨a, b, hname, ha⟩ := List.eq_append_cons_of_mem hdot
    have hbody : w.body name content = (w.head ++ a) ++
        '.' :: ((b ++ ".json".toList) ++ ("\"\r\n".toList ++ w.tail ++ content ++ w.foot)) := by
      simp [Multipart.body, hname]
    have hfile : name.toList ++ ".json".toList = a ++ '.' :: (b ++ ".json".toList) := by
      simp [hname]
    have hfour : 4 ≤ (b ++ ".json".toList).length := by simp
    rw [hbody, hfile, filetype_append_cons (by simp [w.head_dot, ha]) (by simp; omega),
      filetype_append_cons ha hfour, List.take_append_of_le_length hfour]
  · have hbody : w.body name content = (w.head ++ name.toList) ++
        '.' :: ("json".toList ++ ("\"\r\n".toList ++ w.tail ++ content ++ w.foot)) := by
      simp [Multipart.body]
    have hfile : name.toList ++ ".json".toList = name.toList ++ '.' :: "json".toList := rfl
    rw [hbody, hfile, filetype_append_cons (by simp [w.head_dot, hdot]) (by simp),
      filetype_append_cons hdot (by simp)]
    rfl

theorem Transferable.admits (h : Transferable dates w row) (henabled : row.enabled = 1) :
    Admits (w.body row.organisationName (toJson dates [row])) (json dates row) where
  json := by
    rw [filetype_body]
    exact h.fileType
  brackets := by simp [body_eq]
  between := by
    have hjson : ']' ∉ json dates row := by
      simp [bracket_mem_json henabled, h.name_close, h.key_close, h.insightsKey_close]
    rw [body_eq]
    apply payload_append_cons _ _ hjson
    · simp [w.head_open, w.tail_open, h.name_open]
    · simp [w.head_close, w.tail_close, h.name_close]
  logged := h.logged
  loggedContent := h.loggedContent
  nonempty := by
    rw [json, List.isEmpty_eq_false_iff]
    exact List.append_ne_nil_of_right_ne_nil _ (by decide)

theorem rowOf_texts (henabled : row.enabled = 1)
    (hupdated : dates.readTimestamp (dates.timestamp row.updated) = some row.updated)
    (hcreated : dates.readTimestamp (dates.timestamp row.created) = some row.created)
    (hlicense : dates.readDate (dates.date row.licenseEndDate) = some row.licenseEndDate) :
    rowOf dates (texts dates row) = some { row with organisationId := 0 } := by
  simp [rowOf, texts, hupdated, hcreated, hlicense, henabled]

def posting (w : Multipart) (row : IaOrganisation) (content : List Char) (x : Execution)
    (fetched : Bool) : Request :=
  ⟨w.body row.organisationName content, x, fetched⟩

variable {p : Platform} {x : Execution} {fetched : Bool}

theorem imports_of_transferable (hp : Conforms dates server row p) (h : Transferable dates w row)
    (hname : row.organisationName ≠ "") (hkey : row.key ≠ "") (hinsightsKey : row.insightsKey ≠ "")
    (henabled : row.enabled = 1) (hx : x.executed)
    (hfree : ∀ old ∈ s.iaOrganisations.rows,
      IaOrganisations.named server row.organisationName old = false) :
    Imports p row s (posting w row (toJson dates [row]) x fetched) := by
  obtain ⟨b, hb⟩ : ∃ b, bean (texts dates row) = some b := ⟨_, rfl⟩
  have hread : p.fromJson (json dates row) = some (some b) :=
    hp.fromJson _ b ((readObject_json henabled).trans hb)
  have hquery : b.insert = some (insertOf (texts dates row)) := by
    rw [insert_of_bean hb, if_neg]
    simp [texts, hname, hkey, hinsightsKey, dates.timestamp_ne, dates.date_ne, Ne.symm]
  have hinsert : readInsert dates (insertOf (texts dates row)) =
      some { row with organisationId := 0 } := by
    rw [readInsert_insertOf h.name_literal h.key_literal h.insightsKey_literal,
      rowOf_texts henabled h.updated h.created h.licenseEndDate]
  have hcopies : ∀ id, Copies { row with organisationId := id } row :=
    fun _ => ⟨rfl, rfl, rfl, rfl, rfl, rfl, rfl⟩
  have hrow : IaOrganisations.insertRow server { row with organisationId := 0 } x
      s.iaOrganisations = some ⟨s.iaOrganisations.rows ++
        [{ row with organisationId := s.iaOrganisations.autoIncrement }],
        s.iaOrganisations.autoIncrement + 1⟩ :=
    IaOrganisations.insertRow_eq_some.mpr ⟨⟨hx, hfree⟩, rfl⟩
  have hstep := step_of_inserts (r := posting w row (toJson dates [row]) x fetched)
    (h.admits henabled) hread hquery
    ((hp.executeUpdate _ _ x s.iaOrganisations hinsert (hcopies 0)).trans hrow)
  exact ⟨_, by rw [hstep], hcopies s.iaOrganisations.autoIncrement⟩

theorem reads_of_imports (h : Imports (exactly dates server) row s r) :
    ∃ content b query new, Admits r.body content ∧ readObject content = some b ∧
      b.insert = some query ∧ readInsert dates query = some new ∧ Copies new row := by
  obtain ⟨new, hrows, hcopies⟩ := h
  have hins : Inserts (exactly dates server) s r := by
    by_contra hno
    rw [step_of_not_inserts hno] at hrows
    simp at hrows
  obtain ⟨content, b, query, table, hadmits, hread, hquery, htable⟩ := hins
  rw [step_of_inserts hadmits hread hquery htable] at hrows
  obtain ⟨_, hobject, heq⟩ := Option.map_eq_some_iff.mp hread
  cases heq
  obtain ⟨row', hinsert, hinserted⟩ := Option.bind_eq_some_iff.mp htable
  obtain ⟨_, rfl⟩ := IaOrganisations.insertRow_eq_some.mp hinserted
  obtain rfl : { row' with organisationId := s.iaOrganisations.autoIncrement } = new := by
    simpa using hrows
  exact ⟨content, b, query, row', hadmits, hobject, hquery, hinsert, ⟨hcopies.organisationName,
    hcopies.key, hcopies.insightsKey, hcopies.enabled, hcopies.updated, hcopies.created,
    hcopies.licenseEndDate⟩⟩

theorem transferable_of_imports (henabled : row.enabled = 1)
    (h : Imports (exactly dates server) row s (posting w row (toJson dates [row]) x fetched)) :
    Transferable dates w row := by
  obtain ⟨content, b, query, new, hadmits, hobject, hquery, hinsert, hcopies⟩ :=
    reads_of_imports h
  -- a bracket in the name would leave too few characters for it
  have hlength := name_length_le hobject hquery hinsert
  rw [hcopies.organisationName] at hlength
  have hopen : '[' ∉ row.organisationName.toList := by
    intro hmem
    exact absurd (length_of_open hmem hadmits.between hobject) (Nat.not_lt.mpr hlength)
  obtain ⟨hclose, hjson, rfl⟩ := content_of_payload henabled hopen hadmits.between hobject
  rw [bracket_mem_json henabled, not_or, not_or] at hjson
  rw [readObject_json henabled] at hobject
  rw [insert_of_bean hobject] at hquery
  obtain ⟨_, heq⟩ := (ite_eq_iff.mp hquery).resolve_left (by simp)
  cases heq
  obtain ⟨hname, hkey, hinsightsKey⟩ := literals_of_readInsert hinsert hcopies.organisationName
    hcopies.key hcopies.insightsKey
  rw [readInsert_insertOf hname hkey hinsightsKey] at hinsert
  obtain ⟨updated, created, license, htexts, hupdated, hcreated, hlicense⟩ := rowOf_eq_some hinsert
  simp only [texts, List.cons.injEq] at htexts
  obtain ⟨_, _, _, rfl, rfl, rfl, _⟩ := htexts
  exact {
    fileType := filetype_body w row.organisationName (toJson dates [row]) ▸ hadmits.json
    name_open := hopen
    name_close := hclose
    key_close := hjson.2.1
    insightsKey_close := hjson.2.2
    logged := hadmits.logged
    loggedContent := hadmits.loggedContent
    name_literal := hname
    key_literal := hkey
    insightsKey_literal := hinsightsKey
    updated := hcopies.updated ▸ hupdated
    created := hcopies.created ▸ hcreated
    licenseEndDate := hcopies.licenseEndDate ▸ hlicense }

variable {ρ : Type} [DecidableEq ρ] {e : ExportOrganisation.Platform ρ} {t : IaOrganisations}

/-- A request for the organisation of a row has received this, and what it asked for. -/
structure Exported (dates : Dates) (e : ExportOrganisation.Platform ρ) (t : IaOrganisations)
    (row : IaOrganisation) (content : String) : Prop where
  gson : ∀ rows, e.toJson rows = String.ofList (toJson dates rows)
  selected : ExportOrganisation.selectFrom e t row.organisationName = [row]
  received : ∃ (nextDirName : Int) (h : List ExportOrganisation.Step)
    (s : ExportOrganisation.State ρ) (i : Nat),
    Run (ExportOrganisation.step e t) AnyStep (ExportOrganisation.start nextDirName) h s ∧
      ExportOrganisation.OwnData e t s ∧
      s.threads[i]? = some ⟨row.organisationName, .received content⟩

theorem Exported.content_eq {content : String} (h : Exported dates e t row content) :
    content = String.ofList (toJson dates [row]) := by
  obtain ⟨_, _, s, i, _, hown, hi⟩ := h.received
  rw [hown i _ content hi rfl, h.selected, h.gson]

theorem exported_alone (hgson : ∀ rows, e.toJson rows = String.ofList (toJson dates rows))
    (hselected : ExportOrganisation.selectFrom e t row.organisationName = [row])
    (hname : row.organisationName ≠ "") :
    Exported dates e t row (String.ofList (toJson dates [row])) := by
  obtain ⟨s, hs, hthreads⟩ := ExportOrganisation.exec_export' e t hname 1
  rw [hselected, hgson] at hthreads
  refine ⟨hgson, hselected, 1, _, s, 0, run_anyStep_iff.mpr hs, ?_, by rw [hthreads]; rfl⟩
  intro i thread content hi hreceived
  rw [hthreads] at hi
  obtain ⟨rfl, rfl⟩ : i = 0 ∧ thread =
      ⟨row.organisationName, .received (String.ofList (toJson dates [row]))⟩ := by
    cases i with
    | zero => exact ⟨rfl, (Option.some.inj hi).symm⟩
    | succ i => cases hi
  rw [hselected, hgson]
  exact (ExportOrganisation.Progress.received.inj hreceived).symm

/-- The file of an enabled organisation is imported as the same row, wherever such objects are
read and such inserts are carried out, exactly if it is transferable. -/
theorem imports_iff {content : String} (hexported : Exported dates e t row content)
    (hname : row.organisationName ≠ "") (hkey : row.key ≠ "") (hinsightsKey : row.insightsKey ≠ "")
    (henabled : row.enabled = 1) (hx : x.executed)
    (hfree : ∀ old ∈ s.iaOrganisations.rows,
      IaOrganisations.named server row.organisationName old = false) :
    (∀ p, Conforms dates server row p →
      Imports p row s (posting w row content.toList x fetched)) ↔ Transferable dates w row := by
  rw [hexported.content_eq, String.toList_ofList]
  constructor
  · intro h
    exact transferable_of_imports henabled (h _ conforms_exactly)
  · intro h p hp
    exact imports_of_transferable hp h hname hkey hinsightsKey henabled hx hfree

def calendar : Dates where
  timestamp t := if t = 1483264800000 then "2017-01-01 10:00:00.0".toList else ['0']
  date t := if t = 17598 then "2018-03-08".toList else ['0']
  readTimestamp text :=
    if text = "2017-01-01 10:00:00.0".toList then some 1483264800000 else none
  readDate text := if text = "2018-03-08".toList then some 17598 else none
  timestamp_ne t := by split <;> decide
  date_ne t := by split <;> decide
  timestamp_parts t := by split <;> decide
  date_parts t := by split <;> decide

def exporter : ExportOrganisation.Platform String where
  server := .plain
  toJson rows := String.ofList (toJson calendar rows)
  rootDir := "tmp"
  file path := path

def form : Multipart where
  head := "------boundary\r\nContent-Disposition: ".toList ++
    "form-data; name=\"file\"; filename=\"".toList
  tail := "Content-Type: application/json\r\n\r\n".toList
  foot := "\r\n------boundary--\r\n".toList
  head_dot := by decide
  head_open := by decide
  head_close := by decide
  tail_open := by decide
  tail_close := by decide

theorem gamma_transferable : Transferable calendar form gammaRow where
  fileType := ⟨"json".toList, rfl, by decide⟩
  name_open := by decide
  name_close := by decide
  key_close := by decide
  insightsKey_close := by decide
  logged := formats_of_no_percent (by decide +kernel)
  loggedContent := formats_of_no_percent (by decide +kernel)
  name_literal := by decide
  key_literal := by decide
  insightsKey_literal := by decide
  updated := rfl
  created := rfl
  licenseEndDate := rfl

theorem gamma_imported : ∃ content,
    Exported calendar exporter ⟨[gammaRow], 1⟩ gammaRow content ∧
    ∀ p, Conforms calendar .plain gammaRow p → Imports p gammaRow (start ⟨[], 1⟩ Cache.empty)
      (posting form gammaRow content.toList ⟨true, 5⟩ true) := by
  have hexported : Exported calendar exporter ⟨[gammaRow], 1⟩ gammaRow _ :=
    exported_alone (fun _ => rfl) (by decide) (by decide)
  have hfree : ∀ old ∈ ([] : List IaOrganisation),
      IaOrganisations.named .plain gammaRow.organisationName old = false := fun _ h => nomatch h
  exact ⟨_, hexported, (imports_iff hexported (by decide) (by decide) (by decide) rfl rfl
    hfree).mpr gamma_transferable⟩

theorem not_imports (h : ∀ type,
      filetype (row.organisationName.toList ++ ".json".toList) = .ok type →
      equalsIgnoreCase (String.ofList type) "json" = false) :
    ¬ Imports p row s (posting w row content x fetched) := by
  intro ⟨new, hrows, _⟩
  by_cases hins : Inserts p s (posting w row content x fetched)
  · obtain ⟨_, _, _, _, hadmits, _⟩ := hins
    obtain ⟨type, htype, hjson⟩ := hadmits.json
    rw [posting, filetype_body] at htype
    rw [h type htype] at hjson
    cases hjson
  · rw [step_of_not_inserts hins] at hrows
    simp at hrows

def dotted : IaOrganisation := { gammaRow with organisationName := "acme.in" }

theorem dotted_not_imported : ∃ content,
    Exported calendar exporter ⟨[dotted], 1⟩ dotted content ∧
    Conforms calendar .plain dotted (exactly calendar .plain) ∧
    ∀ p, ¬ Imports p dotted (start ⟨[], 1⟩ Cache.empty)
      (posting form dotted content.toList ⟨true, 5⟩ true) := by
  have hexported : Exported calendar exporter ⟨[dotted], 1⟩ dotted _ :=
    exported_alone (fun _ => rfl) (by decide) (by decide)
  refine ⟨_, hexported, conforms_exactly, fun p => not_imports fun type htype => ?_⟩
  cases htype
  decide

end InsightsAssist.OrganisationTransfer
