import InsightsAssist.Credentials
import InsightsAssist.JavaStrings
import InsightsAssist.OrganisationCache

/-! The administration actions that answer with one GenericResultBean: what each of them writes to
its response, and what it leaves of the tables. -/
namespace InsightsAssist.AdminReplies
open Java OrganisationCache

structure GenericResultBean where
  message : Option String
  success : Bool
  deriving DecidableEq, Repr

/-- A row of ia_user; the database keeps the status as text. -/
structure IaUser where
  userId : Int
  organisationId : Int
  emailId : String
  password : Option String
  status : String
  deriving DecidableEq, Repr

/-- What the actions take from outside: the database server, what it stores of a string in the
status column (none where it refuses the string), and the hex digest of a password. -/
structure Platform where
  server : Server
  enumValue : String → Option String
  sha1 : String → String

/-- `written` is what the response has been sent so far. -/
structure State where
  iaUser : List IaUser
  autoIncrement : Int
  iaOrganisations : IaOrganisations
  cache : Cache
  status : Nat
  written : List GenericResultBean

def SC_BAD_REQUEST : Nat := 400

def sendResponse (result : GenericResultBean) : Java State Unit :=
  modify fun s => { s with written := s.written ++ [result] }

def setStatus (sc : Nat) : Java State Unit := modify fun s => { s with status := sc }

def onOrganisations (statements : IaOrganisations → Bool × IaOrganisations) : Java State Bool :=
  modifyGet fun s =>
    let r := statements s.iaOrganisations
    (r.1, { s with iaOrganisations := r.2 })

def restart (fetched : Bool) : Java State Unit := do
  let s ← get
  Prog.zoom State.cache (fun cache s => { s with cache }) (Cache.restart fetched s.iaOrganisations)

variable (p : Platform)

namespace UserStatus

def updateStatus (email status : String) (executed : Bool) : Java State Bool :=
  modifyGet fun s =>
    match p.enumValue status with
    | some value =>
      if executed then
        let set row :=
          if p.server.equal row.emailId email then { row with status := value } else row
        (true, { s with iaUser := s.iaUser.map set })
      else (false, s)
    | none => (false, s)

def isStatus (status : String) : Bool :=
  equalsIgnoreCase status "NORMAL" || equalsIgnoreCase status "LOCKED"

/-- A check that fails sends its result, and the action goes on. -/
def check (valid : Bool) (result : GenericResultBean) : Java State GenericResultBean :=
  if valid then return result
  else do
    let result := { result with success := false, message := some "Invalid Input" }
    sendResponse result
    return result

def execute (user status : Option String) (executed : Bool) : Java State Unit := do
  let email ← deref user
  let email := trim email
  let status ← deref status
  let result ← check (isStatus status) ⟨none, false⟩
  let result ← check (!(email.isEmpty || email = " ")) result
  if ← updateStatus p email status executed then
    sendResponse { result with success := true }
  else
    setStatus SC_BAD_REQUEST
    sendResponse { result with message := some "error" }

end UserStatus

namespace StoreUserData

def addUser (organisationId : Int) (email pass : String) (executed : Bool) : Java State Bool :=
  modifyGet fun s =>
    if executed && s.iaUser.all fun row => !p.server.equal row.emailId email then
      let row := ⟨s.autoIncrement, organisationId, email, some pass, "NORMAL"⟩
      (true, { s with iaUser := s.iaUser ++ [row], autoIncrement := s.autoIncrement + 1 })
    else (false, s)

/-- A user that is not added is not answered. -/
def execute (organisation email password : Option String) (executed : Bool) :
    Java State Unit := do
  if isEmpty organisation || isEmpty password || isEmpty email then
    sendResponse ⟨some "Either email or password or organisation  is null", false⟩
  else
    let orgId ← deref organisation
    let email ← deref email
    let password ← deref password
    match parseInt orgId with
    | none => throw (.illegalArgument (some ("For input string: \"" ++ orgId ++ "\"")))
    | some organisationId =>
      if matchesEmailPattern email then
        if ← addUser p organisationId email (p.sha1 password) executed then
          sendResponse ⟨none, true⟩
      else
        setStatus SC_BAD_REQUEST
        sendResponse ⟨some "error", false⟩

end StoreUserData

/-- The two actions on the organisations: a name that is missing is refused, and success is
answered after the cache has been filled again. -/
def executeOrganisation (nullMessage : String) (name : Option String)
    (statements : String → IaOrganisations → Bool × IaOrganisations) (fetched : Bool) :
    Java State Unit := do
  if isEmpty name then sendResponse ⟨some nullMessage, false⟩
  else
    let organisationName ← deref name
    if ← onOrganisations (statements organisationName) then
      restart fetched
      sendResponse ⟨none, true⟩
    else
      setStatus SC_BAD_REQUEST
      sendResponse ⟨some "error", false⟩

def DeleteOrganisation.execute (deleteOrgName : Option String) (first second : Execution)
    (fetched : Bool) : Java State Unit :=
  executeOrganisation "Organisation name is null" deleteOrgName
    (fun organisationName =>
      DeleteOrganisation.deleteOrganisation p.server organisationName 0 first second) fetched

def StoreOrganisation.execute (organisation : Option String) (connected : Bool)
    (first second third : Execution) (fetched : Bool) : Java State Unit :=
  executeOrganisation "Organisation  is null" organisation
    (fun organisationName =>
      StoreOrganisation.addOrganisation p.server organisationName connected first second third)
    fetched

/-- A request with its parameters, and how the database meets the statements of its action. -/
inductive Request where
  | UserStatus (user status : Option String) (executed : Bool)
  | StoreUserData (organisation email password : Option String) (executed : Bool)
  | DeleteOrganisation (deleteOrgName : Option String) (first second : Execution) (fetched : Bool)
  | StoreOrganisation (organisation : Option String) (connected : Bool)
    (first second third : Execution) (fetched : Bool)
  deriving DecidableEq, Repr

def execute : Request → Java State Unit
  | .UserStatus user status executed => UserStatus.execute p user status executed
  | .StoreUserData organisation email password executed =>
    StoreUserData.execute p organisation email password executed
  | .DeleteOrganisation deleteOrgName first second fetched =>
    DeleteOrganisation.execute p deleteOrgName first second fetched
  | .StoreOrganisation organisation connected first second third fetched =>
    StoreOrganisation.execute p organisation connected first second third fetched

/-- One result has been written, and unless it is a success the tables are as they were. -/
def Answers (s t : State) : Prop :=
  ∃ result, t.written = s.written ++ [result] ∧ (result.success = false →
    t.iaUser = s.iaUser ∧ t.iaOrganisations.rows = s.iaOrganisations.rows)

/-- One acme, or none and a server that makes an empty string of null. -/
def SelectsAcme (t : IaOrganisations) : Prop :=
  (∃ acme, t.rows.filter (IaOrganisations.named p.server "acme") = [acme]) ∨
    (t.rows.filter (IaOrganisations.named p.server "acme") = [] ∧ p.server.strict = false)

def Answerable (s : State) : Request → Prop
  | .UserStatus user status _ =>
    (∃ email, user = some email ∧ ∃ c ∈ email.toList, ¬ isTrimmed c) ∧
      ∃ value, status = some value ∧ UserStatus.isStatus value
  | .StoreUserData organisation email password executed =>
    ∀ orgId address pass, organisation = some orgId → email = some address →
      password = some pass → orgId ≠ "" → address ≠ "" → pass ≠ "" →
      (parseInt orgId).isSome ∧ (matchesEmailPattern address →
        executed ∧ ∀ row ∈ s.iaUser, ¬ p.server.equal row.emailId address)
  | .DeleteOrganisation deleteOrgName first second fetched =>
    ∀ name, deleteOrgName = some name → name ≠ "" → first.executed →
      if second.executed then fetched
      else ∀ row ∈ s.iaOrganisations.rows, IaOrganisations.named p.server name row →
        row.enabled = 0
  | .StoreOrganisation organisation connected first second third fetched =>
    ∀ name, organisation = some name → name ≠ "" →
      StoreOrganisation.Inserts p.server name connected first s.iaOrganisations →
      second.executed ∧ third.executed ∧ fetched ∧
        SelectsAcme p (StoreOrganisation.inserted p.server name first s.iaOrganisations)

variable {p} {s t : State} {results : List GenericResultBean}

theorem answers_iff (h : t.written = s.written ++ results) :
    Answers s t ↔ ∃ result, results = [result] ∧ (result.success = false →
      t.iaUser = s.iaUser ∧ t.iaOrganisations.rows = s.iaOrganisations.rows) := by
  simp only [Answers, h, List.append_right_inj]

theorem not_answers (h : t.written = s.written ++ results) (hlength : results.length ≠ 1) :
    ¬ Answers s t := by
  rw [answers_iff h]
  intro ⟨result, hone, _⟩
  exact hlength (by rw [hone]; rfl)

theorem not_answers_of_silent (h : t.written = s.written) : ¬ Answers s t := by
  have hnone : t.written = s.written ++ [] := by simpa using h
  exact not_answers hnone Nat.zero_ne_one

theorem isEmpty_eq_false_iff {parameter : Option String} :
    isEmpty parameter = false ↔ ∃ value, parameter = some value ∧ value ≠ "" := by
  cases parameter with
  | none => simp [isEmpty]
  | some value => simp [isEmpty]

/-! ### Users -/

namespace UserStatus

theorem updateStatus_run (email status : String) (executed : Bool) (s : State) :
    ∃ b t, (updateStatus p email status executed).run s = (.ok b, t) ∧ t.written = s.written ∧
      t.iaOrganisations = s.iaOrganisations ∧ (b = false → t.iaUser = s.iaUser) := by
  refine ⟨_, _, rfl, ?_⟩
  cases p.enumValue status with
  | none => exact ⟨rfl, rfl, fun _ => rfl⟩
  | some value =>
    cases executed with
    | false => exact ⟨rfl, rfl, fun _ => rfl⟩
    | true => exact ⟨rfl, rfl, fun h => nomatch h⟩

theorem check_run (valid : Bool) (result : GenericResultBean) (s : State) :
    ∃ result', (check valid result).run s =
      (.ok result', { s with written := s.written ++ if valid then [] else [result'] }) := by
  cases valid with
  | true => exact ⟨result, by simp [check]⟩
  | false => exact ⟨_, rfl⟩

theorem execute_run (email status : String) (executed : Bool) (s : State) :
    ∃ first second last t, (execute p (some email) (some status) executed).run s = (.ok (), t) ∧
      t.written = s.written ++ ((if isStatus status then [] else [first]) ++
        ((if !((trim email).isEmpty || trim email = " ") then [] else [second]) ++ [last])) ∧
      t.iaOrganisations = s.iaOrganisations ∧ (last.success = false → t.iaUser = s.iaUser) := by
  obtain ⟨first, hfirst⟩ := check_run (isStatus status) ⟨none, false⟩ s
  obtain ⟨second, hsecond⟩ := check_run (!((trim email).isEmpty || trim email = " ")) first
    { s with written := s.written ++ if isStatus status then [] else [first] }
  obtain ⟨b, t, hupdate, hwritten, horganisations, hfailed⟩ :=
    updateStatus_run (p := p) (trim email) status executed { s with written :=
      s.written ++ (if isStatus status then [] else [first]) ++
        if !((trim email).isEmpty || trim email = " ") then [] else [second] }
  have hrun : (execute p (some email) (some status) executed).run s =
      (if b then sendResponse { second with success := true }
        else do
          setStatus SC_BAD_REQUEST
          sendResponse { second with message := some "error" }).run t := by
    simp only [execute, Prog.run_bind_ok (deref_some _ _), Prog.run_bind_ok hfirst,
      Prog.run_bind_ok hsecond, Prog.run_bind_ok hupdate]
  rw [hrun]
  cases b with
  | true =>
    refine ⟨first, second, { second with success := true }, _, rfl, ?_, horganisations, ?_⟩
    · simp [hwritten]
    · exact fun h => nomatch h
  | false =>
    refine ⟨first, second, { second with message := some "error" }, _, rfl, ?_, horganisations, ?_⟩
    · simp [hwritten]
    · exact fun _ => hfailed rfl

theorem trim_ne_iff {email : String} : (!((trim email).isEmpty || trim email = " ")) = true ↔
    ∃ c ∈ email.toList, ¬ isTrimmed c := by
  have hempty : (trim email).isEmpty = true ↔ ∀ c ∈ email.toList, isTrimmed c := by
    rw [String.isEmpty_iff, trim_eq_empty_iff]
  simp [trim_ne_blank, ← Bool.not_eq_true, hempty]

theorem answers_iff (user status : Option String) (executed : Bool) (s : State) :
    Answers s ((execute p user status executed).run s).2 ↔
      Answerable p s (.UserStatus user status executed) := by
  cases user with
  | none => exact iff_of_false (not_answers_of_silent rfl) (by simp [Answerable])
  | some email =>
    cases status with
    | none => exact iff_of_false (not_answers_of_silent rfl) (by simp [Answerable])
    | some status =>
      obtain ⟨first, second, last, t, hrun, hwritten, horganisations, hfailed⟩ :=
        execute_run (p := p) email status executed s
      rw [hrun, AdminReplies.answers_iff hwritten]
      simp only [Answerable, Option.some.injEq, exists_eq_left', ← trim_ne_iff]
      cases isStatus status <;> cases !((trim email).isEmpty || trim email = " ")
      all_goals simp [horganisations]
      exact hfailed

end UserStatus

namespace StoreUserData
variable {organisation address pass : Option String}

theorem addUser_run (organisationId : Int) (email pass : String) (executed : Bool) (s : State) :
    ∃ b t, (addUser p organisationId email pass executed).run s = (.ok b, t) ∧
      t.written = s.written ∧ (b = true ↔ executed ∧
        ∀ row ∈ s.iaUser, ¬ p.server.equal row.emailId email) := by
  refine ⟨_, _, rfl, ?_⟩
  have hins : (executed && s.iaUser.all fun row => !p.server.equal row.emailId email) = true ↔
      executed ∧ ∀ row ∈ s.iaUser, ¬ p.server.equal row.emailId email := by simp
  rw [← hins]
  dsimp only
  split
  · exact ⟨rfl, iff_of_true rfl ‹_›⟩
  · exact ⟨rfl, iff_of_false Bool.false_ne_true ‹_›⟩

theorem answers_addUser (organisationId : Int) (email pass : String) (executed : Bool) (s : State) :
    Answers s ((do
        if ← addUser p organisationId email pass executed then
          sendResponse ⟨none, true⟩ : Java State Unit).run s).2 ↔
      executed ∧ ∀ row ∈ s.iaUser, ¬ p.server.equal row.emailId email := by
  obtain ⟨b, t, hadd, hwritten, hfree⟩ :=
    addUser_run (p := p) organisationId email pass executed s
  rw [Prog.run_bind_ok hadd, ← hfree]
  cases b with
  | true =>
    apply iff_of_true _ rfl
    refine ⟨⟨none, true⟩, ?_, fun h => nomatch h⟩
    show t.written ++ _ = _
    rw [hwritten]
  | false => exact iff_of_false (not_answers_of_silent hwritten) Bool.false_ne_true

theorem answers_iff (executed : Bool) (s : State) :
    Answers s ((execute p organisation address pass executed).run s).2 ↔
      Answerable p s (.StoreUserData organisation address pass executed) := by
  by_cases hempty : isEmpty organisation || isEmpty pass || isEmpty address
  · have hrun : (execute p organisation address pass executed).run s = (sendResponse
        ⟨some "Either email or password or organisation  is null", false⟩).run s := by
      rw [execute, if_pos hempty]
    rw [hrun]
    apply iff_of_true
    · exact ⟨_, rfl, fun _ => ⟨rfl, rfl⟩⟩
    · rintro _ _ _ rfl rfl rfl horganisation haddress hpass
      simp [isEmpty, horganisation, haddress, hpass] at hempty
  · simp only [Bool.or_eq_true, not_or, Bool.not_eq_true, isEmpty_eq_false_iff] at hempty
    obtain ⟨⟨⟨orgId, rfl, horganisation⟩, pass, rfl, hpass⟩, email, rfl, haddress⟩ := hempty
    have hcond :
        ¬ (isEmpty (some orgId) || isEmpty (some pass) || isEmpty (some email)) = true := by
      simp [isEmpty, horganisation, haddress, hpass]
    have hanswerable : Answerable p s (.StoreUserData (some orgId) (some email) (some pass)
        executed) ↔ (parseInt orgId).isSome ∧ (matchesEmailPattern email →
          executed ∧ ∀ row ∈ s.iaUser, ¬ p.server.equal row.emailId email) := by
      constructor
      · exact fun h => h orgId email pass rfl rfl rfl horganisation haddress hpass
      · rintro h _ _ _ ⟨⟩ ⟨⟩ ⟨⟩ _ _ _
        exact h
    rw [hanswerable]
    simp only [execute, if_neg hcond, Prog.run_bind_ok (deref_some _ _)]
    cases parseInt orgId with
    | none => exact iff_of_false (not_answers_of_silent rfl) fun h => nomatch h.1
    | some organisationId =>
      by_cases hpattern : matchesEmailPattern email
      · simp only [hpattern, if_true, Option.isSome_some, true_and, forall_true_left]
        exact answers_addUser organisationId email (p.sha1 pass) executed s
      · apply iff_of_true
        · simp only [hpattern]
          exact ⟨⟨some "error", false⟩, rfl, fun _ => ⟨rfl, rfl⟩⟩
        · exact ⟨rfl, fun h => absurd h hpattern⟩

end StoreUserData

/-! ### Organisations -/

theorem restart_run (h : IaOrganisations.WellFormed s.iaOrganisations) :
    ∃ cache, (restart true).run s = (.ok (), { s with cache }) := by
  obtain ⟨cache, hrestart⟩ := Cache.restart_of_wellFormed h s.cache
  refine ⟨cache, ?_⟩
  rw [restart, Prog.run_bind_ok (Prog.run_get s), Prog.run_zoom, hrestart]

theorem answers_executeOrganisation {nullMessage : String} {name : Option String}
    {statements : String → IaOrganisations → Bool × IaOrganisations} {fetched : Bool}
    (h : ∀ organisationName,
      IaOrganisations.WellFormed (statements organisationName s.iaOrganisations).2) :
    Answers s ((executeOrganisation nullMessage name statements fetched).run s).2 ↔
      ∀ organisationName, name = some organisationName → organisationName ≠ "" →
        let r := statements organisationName s.iaOrganisations
        if r.1 then fetched = true else r.2.rows = s.iaOrganisations.rows := by
  by_cases hempty : isEmpty name
  · rw [executeOrganisation, if_pos hempty]
    apply iff_of_true
    · exact ⟨⟨some nullMessage, false⟩, rfl, fun _ => ⟨rfl, rfl⟩⟩
    · rintro organisationName rfl hname
      simp [isEmpty, hname] at hempty
  · obtain ⟨organisationName, rfl, hname⟩ := isEmpty_eq_false_iff.mp (Bool.not_eq_true _ ▸ hempty)
    have hconclusion : (∀ organisationName', some organisationName = some organisationName' →
        organisationName' ≠ "" → let r := statements organisationName' s.iaOrganisations
          if r.1 then fetched = true else r.2.rows = s.iaOrganisations.rows) ↔
        if (statements organisationName s.iaOrganisations).1 then fetched = true
        else (statements organisationName s.iaOrganisations).2.rows = s.iaOrganisations.rows := by
      constructor
      · exact fun h => h organisationName rfl hname
      · rintro h _ ⟨⟩ _
        exact h
    rw [hconclusion, executeOrganisation, if_neg hempty, Prog.run_bind_ok (deref_some _ _)]
    have hwf := h organisationName
    have hrun : (onOrganisations (statements organisationName)).run s =
        (.ok (statements organisationName s.iaOrganisations).1,
          { s with iaOrganisations := (statements organisationName s.iaOrganisations).2 }) := rfl
    rw [Prog.run_bind_ok hrun]
    generalize statements organisationName s.iaOrganisations = r at hwf ⊢
    obtain ⟨succeeded, iaOrganisations⟩ := r
    cases succeeded with
    | false =>
      refine (answers_iff (show _ = s.written ++ [⟨some "error", false⟩] from rfl)).trans ?_
      constructor
      · intro ⟨result, hone, hkept⟩
        cases hone
        exact (hkept rfl).2
      · exact fun hrows => ⟨⟨some "error", false⟩, rfl, fun _ => ⟨rfl, hrows⟩⟩
    | true =>
      cases fetched with
      | false => exact iff_of_false (not_answers_of_silent rfl) Bool.false_ne_true
      | true =>
        obtain ⟨cache, hrestart⟩ := restart_run (s := { s with iaOrganisations }) hwf
        apply iff_of_true _ rfl
        simp only [if_true, Prog.run_bind_ok hrestart]
        exact ⟨⟨none, true⟩, rfl, fun h => nomatch h⟩

theorem map_eq_self_iff {α : Type} {f : α → α} {xs : List α} :
    xs.map f = xs ↔ ∀ x ∈ xs, f x = x := by
  conv_lhs => rhs; rw [← List.map_id xs]
  exact List.map_inj_left

namespace DeleteOrganisation

theorem wellFormed_deleteOrganisation {t : IaOrganisations} (h : t.WellFormed)
    (organisationName : String) (first second : Execution) :
    (DeleteOrganisation.deleteOrganisation p.server organisationName 0 first second t).2.WellFormed
    := by
  apply runStatements_keeps _ h
  intro statement hmem t t' ht hs
  obtain rfl | rfl := List.mem_pair.mp hmem
  · have hrun : (Statement.setEnabled 0 organisationName).run p.server first t = some t' := hs
    exact wellFormed_run ht hrun
  · have hrun : (Statement.delete organisationName).run p.server second t = some t' := hs
    exact wellFormed_run ht hrun

theorem enabled_touch (now : Int) (row : IaOrganisation) :
    (IaOrganisations.touch now ({ · with enabled := 0 }) row).enabled = 0 := by
  unfold IaOrganisations.touch
  split
  · rename_i hsame
    exact congrArg IaOrganisation.enabled hsame.symm
  · rfl

theorem rows_setEnabled_iff {organisationName : String} {x : Execution} {t t' : IaOrganisations}
    (h : IaOrganisations.setEnabled p.server 0 organisationName x t = some t') :
    t'.rows = t.rows ↔
      ∀ row ∈ t.rows, IaOrganisations.named p.server organisationName row → row.enabled = 0 := by
  obtain ⟨_, h⟩ := Option.ite_none_right_eq_some.mp h
  cases h
  rw [map_eq_self_iff]
  refine forall₂_congr fun row _ => ?_
  cases hnamed : IaOrganisations.named p.server organisationName row with
  | false => simp
  | true =>
    simp only [if_true, forall_true_left]
    constructor
    · intro hsame
      rw [← hsame]
      exact enabled_touch _ _
    · intro hzero
      simp [IaOrganisations.touch, ← hzero]

theorem answers_iff (h : s.iaOrganisations.WellFormed) (deleteOrgName : Option String)
    (first second : Execution) (fetched : Bool) :
    Answers s ((execute p deleteOrgName first second fetched).run s).2 ↔
      Answerable p s (.DeleteOrganisation deleteOrgName first second fetched) := by
  rw [execute, answers_executeOrganisation fun _ => wellFormed_deleteOrganisation h _ _ _]
  refine forall₃_congr fun organisationName _ _ => ?_
  cases hfirst : first.executed with
  | false => simp [DeleteOrganisation.deleteOrganisation, runStatements,
      IaOrganisations.setEnabled, hfirst]
  | true =>
    obtain ⟨t, ht⟩ : ∃ t, IaOrganisations.setEnabled p.server 0 organisationName first
        s.iaOrganisations = some t := ⟨_, if_pos hfirst⟩
    cases hsecond : second.executed with
    | true => simp [DeleteOrganisation.deleteOrganisation, runStatements, ht,
        IaOrganisations.delete, hsecond]
    | false =>
      rw [← rows_setEnabled_iff ht]
      simp [DeleteOrganisation.deleteOrganisation, runStatements, ht, IaOrganisations.delete,
        hsecond]

end DeleteOrganisation

namespace StoreOrganisation
open InsightsAssist.StoreOrganisation

theorem wellFormed_addOrganisation {t : IaOrganisations} (h : t.WellFormed)
    (organisationName : String) (connected : Bool) (first second third : Execution) :
    (addOrganisation p.server organisationName connected first second third t).2.WellFormed := by
  unfold addOrganisation
  split
  · apply runStatements_keeps _ h
    intro statement hmem t t' ht hs
    simp only [List.mem_cons, List.not_mem_nil, or_false] at hmem
    obtain rfl | rfl | rfl := hmem
    · have hrun : (Statement.insertInto organisationName).run p.server first t = some t' := hs
      exact wellFormed_run ht hrun
    · have hrun : Statement.updateInsightsKey.run p.server second t = some t' := hs
      exact wellFormed_run ht hrun
    · have hrun : Statement.updateKey.run p.server third t = some t' := hs
      exact wellFormed_run ht hrun
  · exact h

theorem selectsAcme_iff {organisationName : String} {first : Execution} {t : IaOrganisations} :
    SelectsAcme p (inserted p.server organisationName first t) ↔ ∃ insightsKey key,
      IaOrganisations.selected p.server IaOrganisation.insightsKey "acme"
        (inserted p.server organisationName first t) = some insightsKey ∧
      IaOrganisations.selected p.server IaOrganisation.key "acme"
        (inserted p.server organisationName first t) = some key := by
  have hne : (inserted p.server organisationName first t).rows.isEmpty = false := by
    simp [inserted]
  simp only [SelectsAcme, IaOrganisations.selected, hne]
  cases (inserted p.server organisationName first t).rows.filter
      (IaOrganisations.named p.server "acme") with
  | nil => simp
  | cons acme rest => cases rest <;> simp

theorem answers_iff (h : s.iaOrganisations.WellFormed) (organisation : Option String)
    (connected : Bool) (first second third : Execution) (fetched : Bool) :
    Answers s ((execute p organisation connected first second third fetched).run s).2 ↔
      Answerable p s (.StoreOrganisation organisation connected first second third fetched) := by
  rw [execute, answers_executeOrganisation fun _ => wellFormed_addOrganisation h _ _ _ _ _]
  refine forall₃_congr fun organisationName _ _ => ?_
  by_cases hins : Inserts p.server organisationName connected first s.iaOrganisations
  · rw [imp_iff_right hins, selectsAcme_iff]
    have hsucceeds := addOrganisation_succeeds_iff hins second third
    cases hr : (addOrganisation p.server organisationName connected first second third
        s.iaOrganisations).1 with
    | true =>
      obtain ⟨hsecond, hthird, hselected⟩ := hsucceeds.mp hr
      simp only [hr, if_true, hsecond, hthird, true_and]
      exact ⟨fun hfetched => ⟨hfetched, hselected⟩, fun h => h.1⟩
    | false =>
      have hrows := rows_ne_of_failed hins hr
      apply iff_of_false
      · simpa [hr] using hrows
      · intro ⟨hsecond, hthird, _, hselected⟩
        have := hsucceeds.mpr ⟨hsecond, hthird, hselected⟩
        rw [hr] at this
        cases this
  · rw [addOrganisation_of_not_inserts hins]
    exact iff_of_true rfl fun h => absurd h hins

end StoreOrganisation

/-- Each of the four actions writes one result, and changes the tables only with a success, exactly
if the request is one of those. -/
theorem answers_iff_answerable (h : s.iaOrganisations.WellFormed) (r : Request) :
    Answers s ((execute p r).run s).2 ↔ Answerable p s r := by
  cases r with
  | UserStatus user status executed => exact UserStatus.answers_iff user status executed s
  | StoreUserData organisation email password executed => exact StoreUserData.answers_iff executed s
  | DeleteOrganisation deleteOrgName first second fetched =>
    exact DeleteOrganisation.answers_iff h deleteOrgName first second fetched
  | StoreOrganisation organisation connected first second third fetched =>
    exact StoreOrganisation.answers_iff h organisation connected first second third fetched

def Platform.plain : Platform where
  server := .plain
  enumValue := some
  sha1 := id

def oneUser : State where
  iaUser := [⟨1, 1, "ann@acme.com", some "secret", "NORMAL"⟩]
  autoIncrement := 2
  iaOrganisations := InsightsAssist.StoreOrganisation.acmeAndBeta
  cache := Cache.empty
  status := 200
  written := []

theorem wellFormed_oneUser : oneUser.iaOrganisations.WellFormed where
  sorted := by decide
  below := by decide
  names := by decide

theorem beta_deleted : oneUser.iaOrganisations.WellFormed ∧
    Answers oneUser ((execute .plain
      (.DeleteOrganisation (some "beta") ⟨true, 5⟩ ⟨true, 6⟩ true)).run oneUser).2 := by
  refine ⟨wellFormed_oneUser, (answers_iff_answerable wellFormed_oneUser _).mpr ?_⟩
  intro _ _ _ _
  rfl

/-- An invalid status is answered by a failure and then set and answered by a success, a user who
is there is added without an answer, and an organisation that cannot be deleted is disabled. -/
theorem answers_missing_and_repeated :
    ¬ Answers oneUser ((execute .plain
        (.UserStatus (some "ann@acme.com") (some "GONE") true)).run oneUser).2 ∧
      ¬ Answers oneUser ((execute .plain
        (.StoreUserData (some "1") (some "ann@acme.com") (some "secret") true)).run oneUser).2 ∧
      ¬ Answers oneUser ((execute .plain
        (.DeleteOrganisation (some "beta") ⟨true, 5⟩ ⟨false, 6⟩ true)).run oneUser).2 := by
  refine ⟨?_, ?_, ?_⟩
  · have hsent : ((execute .plain (.UserStatus (some "ann@acme.com") (some "GONE") true)).run
        oneUser).2.written =
          oneUser.written ++ [⟨some "Invalid Input", false⟩, ⟨some "Invalid Input", true⟩] := by
      decide
    exact not_answers hsent (by decide)
  · exact not_answers_of_silent (by decide)
  · have hsent : ((execute .plain (.DeleteOrganisation (some "beta") ⟨true, 5⟩ ⟨false, 6⟩ true)).run
        oneUser).2.written = oneUser.written ++ [⟨some "error", false⟩] := by decide
    rw [answers_iff hsent]
    intro ⟨result, hone, hkept⟩
    cases hone
    exact absurd (hkept rfl).2 (by decide)

end InsightsAssist.AdminReplies
