import InsightsAssist.AdminReplies

/-! The import of an organisation from an uploaded file. There is one ImportOrganisation for all
requests, which keeps its status and its result from one request to the next. -/
namespace InsightsAssist.ImportOrganisation
open Java Runs OrganisationCache
open AdminReplies (GenericResultBean)

structure OrgBean where
  organisation_name : Option String
  key : Option String
  insights_key : Option String
  enabled : Int
  updated : Option String
  created : Option String
  license_end_date : Option String
  deriving DecidableEq, Repr

structure Platform where
  /-- `gson.fromJson`: none where it throws, and `some none` for null -/
  fromJson : List Char → Option (Option OrgBean)
  /-- what the database makes of an insert: none where connecting or a statement throws -/
  executeUpdate : List Char → Execution → IaOrganisations → Option IaOrganisations
  wellFormed : ∀ query x t t', executeUpdate query x t = some t' → t.WellFormed → t'.WellFormed

/-- `written` is what the response to the present request has been sent so far. -/
structure State where
  iaOrganisations : IaOrganisations
  cache : Cache
  status : Bool
  result : GenericResultBean
  written : List GenericResultBean

/-- A request, how the database meets its insert, and whether the query of a restart returns. -/
structure Request where
  body : List Char
  x : Execution
  fetched : Bool
  deriving DecidableEq, Repr

def sendResponse : Java State Unit := modify fun s => { s with written := s.written ++ [s.result] }

def reject (message : String) : Java State Unit := do
  modify fun s => { s with result := ⟨some message, false⟩ }
  sendResponse

def restart (fetched : Bool) : Java State Unit := do
  let s ← get
  Prog.zoom State.cache (fun cache s => { s with cache }) (Cache.restart fetched s.iaOrganisations)

/-- The values stand between quotes as they are. -/
def query (name key insightsKey : String) (enabled : Int) (updated created license : String) :
    List Char :=
  "insert into ia_organisations(organisation_name,`key`,insights_key,enabled,".toList ++
    "updated,created,license_end_date) values('".toList ++ name.toList ++ "','".toList ++
    key.toList ++ "','".toList ++ insightsKey.toList ++ "',".toList ++
    (toString enabled).toList ++ ",'".toList ++ updated.toList ++ "','".toList ++
    created.toList ++ "','".toList ++ license.toList ++ "')".toList

/-- The text of the insert; none if a field is null or empty. -/
def OrgBean.insert (bean : OrgBean) : Option (List Char) :=
  if isEmpty bean.organisation_name || isEmpty bean.key || isEmpty bean.insights_key ||
      bean.enabled = 0 || isEmpty bean.updated || isEmpty bean.created ||
      isEmpty bean.license_end_date then none
  else do
    return query (← bean.organisation_name) (← bean.key) (← bean.insights_key) bean.enabled
      (← bean.updated) (← bean.created) (← bean.license_end_date)

variable (p : Platform)

def insertInto (bean : OrgBean) (x : Execution) : Java State Unit :=
  match bean.insert with
  | none => reject "A field is null"
  | some query => do
    let s ← get
    match p.executeUpdate query x s.iaOrganisations with
    | some iaOrganisations => set { s with iaOrganisations, status := true }
    | none => reject "something went wrong"

def uploadOrganisationDetails (payload : List Char) (x : Execution) : Java State Unit := do
  let bean ← read (p.fromJson payload)
  let bean ← deref bean
  insertInto p bean x

/-- The status may be that of an earlier request. -/
def confirm (fetched : Bool) : Java State Unit := do
  let s ← get
  if s.status then
    modify fun s => { s with result := { s.result with success := true } }
    restart fetched
    modify fun s =>
      { s with result := { s.result with message := some "Organisation added successfully" } }
    sendResponse

/-- What follows the first '.'. -/
def filetype (payloadRequest : List Char) : Except Throwable (List Char) :=
  substring payloadRequest (indexOf payloadRequest '.' + 1) (indexOf payloadRequest '.' + 5)

/-- What stands between the first brackets. -/
def payload (payloadRequest : List Char) : Except Throwable (List Char) :=
  substring payloadRequest (indexOf payloadRequest '[' + 1) (indexOf payloadRequest ']')

def execute (r : Request) : Java State Unit := do
  let filetype ← MonadExcept.ofExcept (filetype r.body)
  if !equalsIgnoreCase (String.ofList filetype) "json" then
    reject "File should be of type json"
  else if !(r.body.contains '[' && r.body.contains ']') then
    reject "Invalid file content"
  else
    let payload ← MonadExcept.ofExcept (payload r.body)
    info ("payload request".toList ++ r.body)
    info ("payload".toList ++ payload)
    if payload.isEmpty then reject "File is empty"
    else
      uploadOrganisationDetails p payload r.x
      confirm r.fetched

/-- The response starts empty. -/
def step (s : State) (r : Request) : State := ((execute p r).run { s with written := [] }).2

/-- A body that passes the checks, and what it holds between its first brackets. -/
structure Admits (body content : List Char) : Prop where
  json : ∃ type, filetype body = .ok type ∧ equalsIgnoreCase (String.ofList type) "json"
  brackets : body.contains '[' && body.contains ']'
  between : payload body = .ok content
  logged : formats ("payload request".toList ++ body)
  loggedContent : formats ("payload".toList ++ content)
  nonempty : content.isEmpty = false

def Inserts (s : State) (r : Request) : Prop :=
  ∃ content bean query t, Admits r.body content ∧ p.fromJson content = some (some bean) ∧
    bean.insert = some query ∧ p.executeUpdate query r.x s.iaOrganisations = some t

/-- An organisation is read, but a field is null or empty or the insert is not carried out. -/
def Refused (s : State) (r : Request) : Prop :=
  ∃ content bean, Admits r.body content ∧ p.fromJson content = some (some bean) ∧
    ∀ query, bean.insert = some query → p.executeUpdate query r.x s.iaOrganisations = none

/-- If the request returns, it is answered once, and with success just if it inserts. -/
def Proper (s : State) (r : Request) : Prop :=
  ∀ t, (execute p r).run { s with written := [] } = (.ok (), t) →
    ∃ result, t.written = [result] ∧ (result.success = true ↔ Inserts p s r)

def start (t : IaOrganisations) (cache : Cache) : State := ⟨t, cache, false, ⟨none, false⟩, []⟩

variable {p} {s t : State} {r : Request} {content : List Char}

theorem filetype_append_cons {a b : List Char} (ha : '.' ∉ a) (hb : 4 ≤ b.length) :
    filetype (a ++ '.' :: b) = .ok (b.take 4) := by
  have hfour : (b.take 4).length = 4 := List.length_take_of_le hb
  have hsplit : a ++ '.' :: b = (a ++ ['.']) ++ (b.take 4 ++ b.drop 4) := by simp
  have hbegin : indexOf (a ++ '.' :: b) '.' + 1 = ((a ++ ['.']).length : Int) := by
    rw [indexOf_append_cons ha]
    simp
  have hend : indexOf (a ++ '.' :: b) '.' + 5 =
      ((a ++ ['.']).length + (b.take 4).length : Nat) := by
    rw [indexOf_append_cons ha, hfour, List.length_append]
    simp
    omega
  rw [filetype, hbegin, hend, hsplit]
  exact substring_append _ _ _

theorem payload_append_cons {a content b : List Char} (hopen : '[' ∉ a) (hclose : ']' ∉ a)
    (hcontent : ']' ∉ content) :
    payload (a ++ '[' :: (content ++ ']' :: b)) = .ok content := by
  have hsplit : a ++ '[' :: (content ++ ']' :: b) = (a ++ ['[']) ++ (content ++ ']' :: b) := by
    simp
  have hend : ((a ++ ['[']) ++ content).length = (a ++ ['[']).length + content.length :=
    List.length_append
  rw [payload, indexOf_append_cons hopen, hsplit, ← List.append_assoc,
    indexOf_append_cons (by simp [hclose, hcontent]), hend, List.append_assoc]
  simpa using substring_append (a ++ ['[']) content (']' :: b)

theorem payload_eq_ok {a b content : List Char} (hopen : '[' ∉ a) (hclose : ']' ∈ a ++ '[' :: b)
    (h : payload (a ++ '[' :: b) = .ok content) :
    ']' ∉ a ∧ ']' ∉ content ∧ ∃ c, b = content ++ ']' :: c := by
  by_cases ha : ']' ∈ a
  · obtain ⟨c, d, rfl, hc⟩ := List.eq_append_cons_of_mem ha
    rw [payload, indexOf_append_cons hopen, List.append_assoc, List.cons_append,
      indexOf_append_cons hc, substring, if_neg (by omega), if_neg, if_pos] at h
    · cases h
    · simp; omega
    · simp; omega
  · have hb : ']' ∈ b := by simpa [ha] using hclose
    obtain ⟨c, d, rfl, hc⟩ := List.eq_append_cons_of_mem hb
    rw [payload_append_cons hopen ha hc] at h
    cases h
    exact ⟨ha, hc, d, rfl⟩

theorem execute_of_admits (h : Admits r.body content) :
    (execute p r).run s = (do
      uploadOrganisationDetails p content r.x
      confirm r.fetched : Java State Unit).run s := by
  obtain ⟨type, hfiletype, hjson⟩ := h.json
  simp only [execute, hfiletype, Prog.run_bind_ok (ofExcept_ok _ _), hjson, h.brackets, h.between,
    Prog.run_bind_ok (info_of_formats h.logged _),
    Prog.run_bind_ok (info_of_formats h.loggedContent _), h.nonempty, Bool.not_true,
    Bool.false_eq_true, if_false]

theorem execute_of_not_admits (h : ∀ content, ¬ Admits r.body content) :
    (∃ message, (execute p r).run s = (reject message).run s) ∨
      ∃ e, (execute p r).run s = (.error e, s) := by
  unfold execute
  cases hfiletype : filetype r.body with
  | error e => exact .inr ⟨e, Prog.run_bind_error (ofExcept_error e s) _⟩
  | ok type =>
    rw [Prog.run_bind_ok (ofExcept_ok type s)]
    cases hjson : equalsIgnoreCase (String.ofList type) "json" with
    | false => exact .inl ⟨_, rfl⟩
    | true =>
      cases hbrackets : r.body.contains '[' && r.body.contains ']' with
      | false => exact .inl ⟨_, rfl⟩
      | true =>
        simp only [Bool.not_true, Bool.false_eq_true, if_false]
        cases hbetween : payload r.body with
        | error e => exact .inr ⟨e, Prog.run_bind_error (ofExcept_error e s) _⟩
        | ok content =>
          rw [Prog.run_bind_ok (ofExcept_ok content s)]
          cases hlogged : formats ("payload request".toList ++ r.body) with
          | false => exact .inr ⟨_, Prog.run_bind_error (info_of_not_formats hlogged s) _⟩
          | true =>
            rw [Prog.run_bind_ok (info_of_formats hlogged s)]
            cases hcontent : formats ("payload".toList ++ content) with
            | false => exact .inr ⟨_, Prog.run_bind_error (info_of_not_formats hcontent s) _⟩
            | true =>
              rw [Prog.run_bind_ok (info_of_formats hcontent s)]
              cases hempty : content.isEmpty with
              | true => exact .inl ⟨_, rfl⟩
              | false =>
                have hadmits : Admits r.body content :=
                  ⟨⟨type, hfiletype, hjson⟩, hbrackets, hbetween, hlogged, hcontent, hempty⟩
                exact absurd hadmits (h content)

theorem Admits.unique {content' : List Char} (h : Admits r.body content)
    (h' : Admits r.body content') : content = content' := by
  have heq := h.between.symm.trans h'.between
  cases heq
  rfl

theorem not_reads (h : ∀ content, Admits r.body content → ∀ bean,
      p.fromJson content ≠ some (some bean)) : ¬ Inserts p s r ∧ ¬ Refused p s r := by
  constructor
  · intro ⟨content, bean, _, _, hadmits, hbean, _⟩
    exact h content hadmits bean hbean
  · intro ⟨content, bean, hadmits, hbean, _⟩
    exact h content hadmits bean hbean

theorem reads {bean : OrgBean} (hadmits : Admits r.body content)
    (hbean : p.fromJson content = some (some bean)) :
    (Inserts p s r ↔ ∃ query t, bean.insert = some query ∧
        p.executeUpdate query r.x s.iaOrganisations = some t) ∧
      (Refused p s r ↔ ¬ Inserts p s r) := by
  have hinserts : Inserts p s r ↔ ∃ query t, bean.insert = some query ∧
      p.executeUpdate query r.x s.iaOrganisations = some t := by
    constructor
    · intro ⟨content', bean', query, t, hadmits', hbean', hinsert⟩
      rw [← hadmits.unique hadmits', hbean] at hbean'
      cases hbean'
      exact ⟨query, t, hinsert⟩
    · exact fun ⟨query, t, hinsert⟩ => ⟨content, bean, query, t, hadmits, hbean, hinsert⟩
  refine ⟨hinserts, ?_⟩
  rw [hinserts]
  constructor
  · intro ⟨content', bean', hadmits', hbean', hnone⟩ ⟨query, t, hquery, ht⟩
    rw [← hadmits.unique hadmits', hbean] at hbean'
    cases hbean'
    rw [hnone query hquery] at ht
    cases ht
  · intro hno
    refine ⟨content, bean, hadmits, hbean, fun query hquery => ?_⟩
    cases ht : p.executeUpdate query r.x s.iaOrganisations with
    | none => rfl
    | some t => exact absurd ⟨query, t, hquery, ht⟩ hno

theorem execute_cases (p : Platform) (s : State) (r : Request) :
    (∃ t, (execute p r).run s = (confirm r.fetched).run
        { s with iaOrganisations := t, status := true } ∧ Inserts p s r ∧ ¬ Refused p s r ∧
          (s.iaOrganisations.WellFormed → t.WellFormed)) ∨
      (∃ message, (execute p r).run s = (do
        reject message
        confirm r.fetched : Java State Unit).run s ∧ Refused p s r ∧ ¬ Inserts p s r) ∨
      ((∃ message, (execute p r).run s = (reject message).run s) ∨
        ∃ e, (execute p r).run s = (.error e, s)) ∧ ¬ Inserts p s r ∧ ¬ Refused p s r := by
  by_cases hadmitted : ∃ content, Admits r.body content
  swap
  · rw [not_exists] at hadmitted
    exact .inr (.inr ⟨execute_of_not_admits hadmitted,
      not_reads fun content h => absurd h (hadmitted content)⟩)
  obtain ⟨content, hadmits⟩ := hadmitted
  by_cases hread : ∃ bean, p.fromJson content = some (some bean)
  swap
  · have hno : ¬ Inserts p s r ∧ ¬ Refused p s r := by
      refine not_reads fun content' hadmits' bean hbean => ?_
      rw [← hadmits.unique hadmits'] at hbean
      exact hread ⟨bean, hbean⟩
    refine .inr (.inr ⟨.inr ?_, hno⟩)
    rw [execute_of_admits hadmits, uploadOrganisationDetails]
    cases hbean : p.fromJson content with
    | none => exact ⟨_, rfl⟩
    | some reference =>
      cases reference with
      | none => exact ⟨_, rfl⟩
      | some bean => exact absurd ⟨bean, hbean⟩ hread
  obtain ⟨bean, hbean⟩ := hread
  obtain ⟨hinserts, hrefused⟩ := reads (s := s) hadmits hbean
  have hrun : (execute p r).run s = (do
      insertInto p bean r.x
      confirm r.fetched : Java State Unit).run s := by
    rw [execute_of_admits hadmits, uploadOrganisationDetails, hbean]
    rfl
  rw [hrun]
  unfold insertInto
  cases hinsert : bean.insert with
  | none =>
    have hno : ¬ Inserts p s r := by simp [hinserts, hinsert]
    exact .inr (.inl ⟨_, rfl, hrefused.mpr hno, hno⟩)
  | some query =>
    cases ht : p.executeUpdate query r.x s.iaOrganisations with
    | none =>
      have hno : ¬ Inserts p s r := by simp [hinserts, hinsert, ht]
      refine .inr (.inl ⟨"something went wrong", ?_, hrefused.mpr hno, hno⟩)
      simp only [Prog.run_bind, Prog.run_get, ht]
    | some t =>
      have hins : Inserts p s r := hinserts.mpr ⟨query, t, hinsert, ht⟩
      refine .inl ⟨t, ?_, hins, fun h => hrefused.mp h hins, p.wellFormed _ _ _ _ ht⟩
      simp only [Prog.run_bind, Prog.run_get, ht]
      rfl

/-! ### Whole histories -/

theorem confirm_of_not_status (h : s.status = false) (fetched : Bool) :
    (confirm fetched).run s = (.ok (), s) := by
  rw [confirm, Prog.run_bind_ok (Prog.run_get s), h]
  rfl

theorem confirm_not_fetched (h : s.status = true) :
    ∃ e t, (confirm false).run s = (.error e, t) := by
  rw [confirm, Prog.run_bind_ok (Prog.run_get s), h]
  exact ⟨_, _, rfl⟩

theorem confirm_fetched (h : s.status = true) (hwf : s.iaOrganisations.WellFormed) :
    ∃ t, (confirm true).run s = (.ok (), t) ∧
      t.written = s.written ++ [⟨some "Organisation added successfully", true⟩] := by
  obtain ⟨cache, hrestart⟩ := Cache.restart_of_wellFormed hwf s.cache
  rw [confirm, Prog.run_bind_ok (Prog.run_get s), h, if_pos rfl,
    Prog.run_bind_ok (Prog.run_modify ..)]
  have hrun : (restart true).run { s with result := { s.result with success := true } } =
      (.ok (), { s with result := { s.result with success := true }, cache }) := by
    rw [restart, Prog.run_bind_ok (Prog.run_get _), Prog.run_zoom, hrestart]
  rw [Prog.run_bind_ok hrun]
  exact ⟨_, rfl, rfl⟩

theorem confirm_keeps (fetched : Bool) {t : IaOrganisations} {status : Bool} :
    Prog.Keeps (fun s => s.iaOrganisations = t ∧ s.status = status) (confirm fetched) := by
  refine .bind (fun _ h => h) fun s => .ite ?_ (.pure _)
  refine .bind (.modify fun _ h => h) fun _ => .bind ?_ fun _ => ?_
  · exact .bind (fun _ h => h) fun _ _ h => h
  · exact .bind (.modify fun _ h => h) fun _ => .modify fun _ h => h

theorem reject_keeps (message : String) {t : IaOrganisations} {status : Bool} :
    Prog.Keeps (fun s => s.iaOrganisations = t ∧ s.status = status) (reject message) :=
  .bind (.modify fun _ h => h) fun _ => .modify fun _ h => h

theorem step_of_inserts {bean : OrgBean} {query : List Char} {table : IaOrganisations}
    (hadmits : Admits r.body content) (hbean : p.fromJson content = some (some bean))
    (hquery : bean.insert = some query)
    (htable : p.executeUpdate query r.x s.iaOrganisations = some table) :
    (step p s r).iaOrganisations = table := by
  have hrun : (execute p r).run { s with written := [] } = (confirm r.fetched).run
      { s with written := [], iaOrganisations := table, status := true } := by
    rw [execute_of_admits hadmits, uploadOrganisationDetails, hbean]
    simp only [insertInto, hquery, htable, Prog.run_bind, Prog.run_get, read_some, deref_some]
    rfl
  rw [step, hrun]
  exact (confirm_keeps r.fetched { s with written := [], iaOrganisations := table, status := true }
    ⟨rfl, rfl⟩).1

theorem step_of_not_inserts (h : ¬ Inserts p s r) :
    (step p s r).iaOrganisations = s.iaOrganisations := by
  have hsame : Inserts p { s with written := [] } r ↔ Inserts p s r := Iff.rfl
  unfold step
  rcases execute_cases p { s with written := [] } r with
    ⟨t, _, hins, _⟩ | ⟨message, hrun, _⟩ | ⟨⟨message, hrun⟩ | ⟨e, hrun⟩, _⟩
  · exact absurd (hsame.mp hins) h
  · rw [hrun]
    exact ((reject_keeps message).bind (fun _ => confirm_keeps r.fetched)
      { s with written := [] } ⟨rfl, rfl⟩).1
  · rw [hrun]
    rfl
  · rw [hrun]

theorem step_status (hwf : s.iaOrganisations.WellFormed) (r : Request) :
    (step p s r).iaOrganisations.WellFormed ∧
      ((step p s r).status = true ↔ s.status = true ∨ Inserts p s r) := by
  have hsame : Inserts p { s with written := [] } r ↔ Inserts p s r := Iff.rfl
  unfold step
  rcases execute_cases p { s with written := [] } r with
    ⟨t, hrun, hins, _, hkept⟩ | ⟨message, hrun, _, hno⟩ |
      ⟨⟨message, hrun⟩ | ⟨e, hrun⟩, hno, _⟩ <;> rw [hrun, ← hsame]
  · obtain ⟨htable, hstatus⟩ := confirm_keeps r.fetched
      { s with written := [], iaOrganisations := t, status := true } ⟨rfl, rfl⟩
    rw [htable, hstatus]
    exact ⟨hkept hwf, iff_of_true rfl (.inr hins)⟩
  · obtain ⟨htable, hstatus⟩ := (reject_keeps message).bind (fun _ => confirm_keeps r.fetched)
      { s with written := [] } ⟨rfl, rfl⟩
    rw [htable, hstatus]
    exact ⟨hwf, (or_iff_left hno).symm⟩
  · exact ⟨hwf, (or_iff_left hno).symm⟩
  · exact ⟨hwf, (or_iff_left hno).symm⟩

theorem status_iff {t : IaOrganisations} {cache : Cache} (ht : t.WellFormed) {h : List Request}
    (hr : Run (total (step p)) AnyStep (start t cache) h s) :
    s.iaOrganisations.WellFormed ∧
      (s.status = true ↔ Occurred (total (step p)) (Inserts p) (start t cache) h) := by
  apply Run.invariant (fun h s => s.iaOrganisations.WellFormed ∧
    (s.status = true ↔ Occurred (total (step p)) (Inserts p) (start t cache) h)) ?_ ?_ hr
  · exact ⟨ht, iff_of_false Bool.false_ne_true not_occurred_nil⟩
  · intro h s r s' hr ⟨hwf, hstatus⟩ _ hs
    cases hs
    rw [occurred_snoc hr.exec_eq, ← hstatus]
    exact step_status hwf r

theorem proper_iff_status (hwf : s.iaOrganisations.WellFormed) (r : Request) :
    Proper p s r ↔ (Refused p s r → r.fetched = true → s.status = false) := by
  have hsame : Inserts p { s with written := [] } r ↔ Inserts p s r := Iff.rfl
  have hsame' : Refused p { s with written := [] } r ↔ Refused p s r := Iff.rfl
  unfold Proper
  rw [← hsame, ← hsame']
  rcases execute_cases p { s with written := [] } r with
    ⟨t, hrun, hins, hnot, hkept⟩ | ⟨message, hrun, hrefused, hno⟩ |
      ⟨⟨message, hrun⟩ | ⟨e, hrun⟩, hno, hnot⟩ <;> rw [hrun]
  · refine iff_of_true ?_ fun h => absurd h hnot
    intro u hu
    cases hf : r.fetched with
    | false =>
      obtain ⟨e, v, hv⟩ := confirm_not_fetched
        (s := { s with written := [], iaOrganisations := t, status := true }) rfl
      rw [hf, hv] at hu
      cases hu
    | true =>
      obtain ⟨v, hv, hwritten⟩ := confirm_fetched
        (s := { s with written := [], iaOrganisations := t, status := true }) rfl (hkept hwf)
      rw [hf, hv] at hu
      cases hu
      exact ⟨_, hwritten, iff_of_true rfl hins⟩
  · rw [imp_iff_right hrefused]
    obtain ⟨rejected, hrejected, hwritten, hstatus, htable⟩ : ∃ u : State,
        (reject message).run { s with written := [] } = (.ok (), u) ∧
          u.written = [⟨some message, false⟩] ∧ u.status = s.status ∧
          u.iaOrganisations = s.iaOrganisations := ⟨_, rfl, rfl, rfl, rfl⟩
    rw [Prog.run_bind_ok hrejected]
    cases hs : s.status with
    | false =>
      rw [confirm_of_not_status (hstatus.trans hs)]
      refine iff_of_true ?_ fun _ => rfl
      intro u hu
      cases hu
      exact ⟨_, hwritten, iff_of_false Bool.false_ne_true hno⟩
    | true =>
      cases hf : r.fetched with
      | false =>
        obtain ⟨e, v, hv⟩ := confirm_not_fetched (hstatus.trans hs)
        rw [hv]
        refine iff_of_true (fun u hu => ?_) fun h => nomatch h
        cases hu
      | true =>
        obtain ⟨v, hv, hsecond⟩ := confirm_fetched (hstatus.trans hs) (htable ▸ hwf)
        rw [hv]
        apply iff_of_false
        · intro hproper
          obtain ⟨result, hone, _⟩ := hproper v rfl
          rw [hsecond, hwritten] at hone
          cases hone
        · exact fun h => nomatch h rfl
  · refine iff_of_true ?_ fun h => absurd h hnot
    intro u hu
    cases hu
    exact ⟨_, rfl, iff_of_false Bool.false_ne_true hno⟩
  · refine iff_of_true ?_ fun h => absurd h hnot
    intro u hu
    cases hu

/-- Whatever the requests before: a request that returns is answered once, and with success just if
it inserts its organisation, exactly if it is not refused after another one was inserted. -/
theorem proper_iff {t : IaOrganisations} {cache : Cache} (ht : t.WellFormed) {h : List Request}
    (hr : Run (total (step p)) AnyStep (start t cache) h s) (r : Request) :
    Proper p s r ↔ (Refused p s r → r.fetched = true →
      ¬ Occurred (total (step p)) (Inserts p) (start t cache) h) := by
  obtain ⟨hwf, hstatus⟩ := status_iff ht hr
  rw [proper_iff_status hwf, ← hstatus, Bool.not_eq_true]

def gamma : OrgBean where
  organisation_name := some "gamma"
  key := some "k"
  insights_key := some "i"
  enabled := 1
  updated := some "2017-01-01 10:00:00.0"
  created := some "2017-01-01 10:00:00.0"
  license_end_date := some "2018-03-08"

def gammaJson : List Char :=
  "\x7b\"organisation_name\":\"gamma\",".toList ++ "\"key\":\"k\",".toList ++
    "\"insights_key\":\"i\",\"enabled\":1,".toList ++
    "\"updated\":\"2017-01-01 10:00:00.0\",".toList ++
    "\"created\":\"2017-01-01 10:00:00.0\",".toList ++
    "\"license_end_date\":\"2018-03-08\"\x7d".toList

def gammaBody : List Char :=
  "filename=\"gamma.json\"\r\n\r\n[".toList ++ gammaJson ++ "]\r\n".toList

def gammaRow : IaOrganisation :=
  ⟨0, "gamma", "k", "i", 1, 1483264800000, 1483264800000, 17598⟩

def Platform.gamma : Platform where
  fromJson payload :=
    if payload = gammaJson then some (some ImportOrganisation.gamma) else none
  executeUpdate _ x t := IaOrganisations.insertRow .plain gammaRow x t
  wellFormed _ _ _ _ h ht := ht.insertRow h

def posted : Request := ⟨gammaBody, ⟨true, 5⟩, true⟩

/-- The file is posted once while the database is away, and then again. -/
theorem proper_after_failure : (⟨[], 1⟩ : IaOrganisations).WellFormed ∧
    ∃ s, Run (total (step .gamma)) AnyStep (start ⟨[], 1⟩ Cache.empty)
      [⟨gammaBody, ⟨false, 4⟩, true⟩] s ∧ Proper .gamma s posted := by
  have ht : (⟨[], 1⟩ : IaOrganisations).WellFormed :=
    ⟨List.Pairwise.nil, fun _ h => (nomatch h), List.nodup_nil⟩
  have hr : Run (total (step .gamma)) AnyStep (start ⟨[], 1⟩ Cache.empty)
      [⟨gammaBody, ⟨false, 4⟩, true⟩] _ := run_anyStep_iff.mpr rfl
  refine ⟨ht, _, hr, (proper_iff ht hr posted).mpr fun _ _ hbefore => ?_⟩
  have hstatus := (status_iff ht hr).2.mpr hbefore
  revert hstatus
  decide +kernel

theorem not_proper {s : State} {r : Request}
    (hok : ((execute p r).run { s with written := [] }).1.isOk)
    (htwice : ((execute p r).run { s with written := [] }).2.written.length = 2) :
    ¬ Proper p s r := by
  intro hproper
  rcases hrun : (execute p r).run { s with written := [] } with ⟨e | u, t⟩ <;>
    rw [hrun] at hok htwice
  · cases hok
  · obtain ⟨result, hone, _⟩ := hproper t hrun
    rw [hone] at htwice
    cases htwice

/-- The second time the insert fails on the name, and is answered by a failure and a success. -/
theorem answered_twice :
    ∃ s, Run (total (step .gamma)) AnyStep (start ⟨[], 1⟩ Cache.empty) [posted] s ∧
      ¬ Proper .gamma s posted := by
  refine ⟨_, run_anyStep_iff.mpr rfl, not_proper ?_ ?_⟩
  · decide +kernel
  · decide +kernel

end InsightsAssist.ImportOrganisation
