import InsightsAssist.Runs
import InsightsAssist.SessionMaps

/-! The table of ordinary users: accounts are added and locked by the administration actions,
and read by the ordinary login. -/
namespace InsightsAssist.UserAccounts
open Java Runs SessionService

inductive Status where
  | NORMAL | LOCKED
  deriving DecidableEq, Repr

structure IaUser where
  userId : Int
  organisationId : Int
  emailId : String
  password : Option String
  status : Status
  deriving DecidableEq, Repr

/-- What the actions take from outside: the database's comparison of strings, which need not
tell all of them apart, and the hex digest of a password. -/
structure Platform where
  equal : String → String → Bool
  sha1 : String → String

/-- The table with its AUTO_INCREMENT counter, the session service, and the number of User
objects made. -/
structure State where
  iaUser : List IaUser
  autoIncrement : Int
  sessions : SessionService.State User
  allocated : Nat

def init : State := ⟨[], 1, SessionService.init, 0⟩

variable (p : Platform)

/-- `StoreUserData.addUser`; `executed` is whether the database carries the insert out, which
it does not for an e-mail id that is taken. -/
def addUser (organisationId : Int) (email pass : String) (executed : Bool) (s : State) :
    Bool × State :=
  if executed && s.iaUser.all fun row => !p.equal row.emailId email then
    let row := ⟨s.autoIncrement, organisationId, email, some pass, .NORMAL⟩
    (true, { s with iaUser := s.iaUser ++ [row], autoIncrement := s.autoIncrement + 1 })
  else (false, s)

/-- `UserStatus.updateStatus`; true also when no row has the e-mail id. -/
def updateStatus (email : String) (status : Status) (executed : Bool) (s : State) : Bool × State :=
  if executed then
    let set row := if p.equal row.emailId email then { row with status := status } else row
    (true, { s with iaUser := s.iaUser.map set })
  else (false, s)

/-- `select … where email_id = … and password = …`; a null password equals nothing. -/
def selected (s : State) (emailId password : String) : List IaUser :=
  s.iaUser.filter fun row => p.equal row.emailId emailId &&
    row.password.any fun stored => p.equal stored (p.sha1 password)

/-- `new User()` with the e-mail id and the id of a row. -/
def State.newUser (s : State) (row : IaUser) : User := ⟨s.allocated, row.userId, some row.emailId⟩

/-- `UserCredentialAuthenticate.authenticate`; a query that fails is logged and gives null. -/
def authenticate (emailId password : String) (executed : Bool) : Java State (Option User) := do
  let s ← get
  if !executed then return none
  match selected p s emailId password with
  | [] => return none
  | row :: _ =>
    set { s with allocated := s.allocated + 1 }
    return some (s.newUser row)

inductive LoginForm where
  | malformed
  | missing
  | invalid (firstErrorMessage : String)
  | valid (userName password : String)
  deriving DecidableEq, Repr

/-- The JSON result; a success carries the user. -/
inductive Result where
  | success (user : User)
  | failure (message : String)
  deriving DecidableEq, Repr

structure Attempt where
  sessionId : Option String
  form : LoginForm
  executed : Bool

def sessionService {α : Type} (m : Java (SessionService.State User) α) : Java State α :=
  Prog.zoom State.sessions (fun sessions s => { s with sessions := sessions }) m

/-- `LoginAuthenticate.execute`; nothing is sent when the session is not logged in afterwards. -/
def execute (a : Attempt) : Java State (Option Result) := do
  match a.form with
  | .malformed => return some (.failure "INVALID_JSON")
  | .missing => return some (.failure "INVALID_PARAMETER")
  | .invalid firstErrorMessage => return some (.failure firstErrorMessage)
  | .valid userName password =>
    match ← authenticate p userName password a.executed with
    | some user =>
      sessionService (handleUserLogIn User.userId a.sessionId (some user))
      let s ← get
      if isSessionLoggedIn s.sessions a.sessionId then return some (.success user)
      else return none
    | none => return some (.failure "No User Available")

inductive Event where
  | addUser (organisationId : Int) (email password : String) (executed : Bool)
  | updateStatus (email : String) (status : Status) (executed : Bool)
  | logIn (attempt : Attempt)

def step (s : State) : Event → State
  | .addUser organisationId email password executed =>
    (addUser p organisationId email (p.sha1 password) executed s).2
  | .updateStatus email status executed => (updateStatus p email status executed s).2
  | .logIn attempt => ((execute p attempt).run s).2

/-- The attempt authenticates a user of this id and leaves the session bound to it. -/
def Binds (s : State) (a : Attempt) (userId : Int) : Prop :=
  ∃ userName password user t, a.form = .valid userName password ∧
    (authenticate p userName password a.executed).run s = (.ok (some user), t) ∧
    user.userId = userId ∧
    (step p s (.logIn a)).sessions.sessionIdToUserIdMap.get a.sessionId = some (some userId)

/-- A session is bound only to a user with the given password's hash and status NORMAL. -/
def BindsNormalOnly (s : State) (a : Attempt) : Prop :=
  ∀ userId, Binds p s a userId → ∃ row ∈ s.iaUser, row.userId = userId ∧
    (∃ userName password stored, a.form = .valid userName password ∧
      row.password = some stored ∧ p.equal stored (p.sha1 password)) ∧
    row.status = .NORMAL

/-- The row an attempt logs in: the first with the e-mail id and the password's hash. -/
def chosen (s : State) (a : Attempt) : Option IaUser :=
  match a.form with
  | .valid userName password =>
    if a.executed then (selected p s userName password).head? else none
  | _ => none

def ChoosesUnlocked (s : State) (a : Attempt) : Prop :=
  isNotBlank a.sessionId → ∀ row ∈ chosen p s a, row.status ≠ .LOCKED

variable {p} {s : State} {a : Attempt} {row : IaUser}

theorem authenticate_run (emailId password : String) (executed : Bool) (s : State) :
    (authenticate p emailId password executed).run s =
      match if executed then (selected p s emailId password).head? else none with
      | some row => (.ok (some (s.newUser row)), { s with allocated := s.allocated + 1 })
      | none => (.ok none, s) := by
  cases executed with
  | false => simp [authenticate, Prog.run_bind]
  | true => cases hsel : selected p s emailId password <;> simp [authenticate, Prog.run_bind, hsel]

theorem authenticate_chosen {userName password : String}
    (hf : a.form = .valid userName password) (s : State) :
    (authenticate p userName password a.executed).run s =
      match chosen p s a with
      | some row => (.ok (some (s.newUser row)), { s with allocated := s.allocated + 1 })
      | none => (.ok none, s) := by
  have hc : chosen p s a =
      if a.executed then (selected p s userName password).head? else none := by
    simp [chosen, hf]
  rw [authenticate_run, ← hc]

def loggedIn (s : State) (sessionId : Option String) (row : IaUser) : SessionService.State User :=
  after User.userId s.sessions (.handleUserLogIn sessionId (some (s.newUser row)))

theorem after_handleUserLogIn (t : SessionService.State User) (k : Option String) (u : User) :
    after User.userId t (.handleUserLogIn k (some u)) =
      ((handleUserLogIn User.userId k (some u)).run t).2 := by
  rw [after, call, Prog.run_bind]
  split <;> simp_all

theorem step_logIn (s : State) (a : Attempt) :
    step p s (.logIn a) =
      match chosen p s a with
      | some row => { s with
          allocated := s.allocated + 1
          sessions := loggedIn s a.sessionId row }
      | none => s := by
  cases hf : a.form with
  | malformed | missing | invalid => simp [step, execute, chosen, hf]
  | valid userName password =>
    have hrun := authenticate_chosen (p := p) hf s
    cases hch : chosen p s a with
    | none =>
      rw [hch] at hrun
      simp [step, execute, hf, Prog.run_bind, hrun]
    | some row =>
      rw [hch] at hrun
      simp only [step, execute, hf, Prog.run_bind, hrun, loggedIn, after_handleUserLogIn,
        sessionService, Prog.run_zoom]
      -- the service returns or throws; what is sent afterwards leaves the state alone
      generalize (handleUserLogIn User.userId a.sessionId (some (s.newUser row))).run s.sessions = r
      obtain ⟨e | _, t⟩ := r
      · rfl
      · simp only [Prog.run_get, Prog.run_ite, Prog.run_pure]
        split <;> rfl

theorem binds_iff {userId : Int} : Binds p s a userId ↔
    ∃ row ∈ chosen p s a, row.userId = userId ∧
      (step p s (.logIn a)).sessions.sessionIdToUserIdMap.get a.sessionId = some (some userId) := by
  constructor
  · rintro ⟨userName, password, user, t, hf, hrun, hid, hg⟩
    rw [authenticate_chosen hf] at hrun
    split at hrun
    · rename_i row hrow
      cases hrun
      exact ⟨row, hrow, hid, hg⟩
    · cases hrun
  · rintro ⟨row, hrow, hid, hg⟩
    cases hf : a.form with
    | malformed | missing | invalid => simp [chosen, hf] at hrow
    | valid userName password =>
      refine ⟨userName, password, s.newUser row, { s with allocated := s.allocated + 1 }, hf, ?_,
        hid, hg⟩
      rw [authenticate_chosen hf, hrow]

/-- Ids of the table are positive, below the counter and distinct; the session table is sound
and has no blank session. -/
structure Inv (s : State) : Prop where
  counter : 0 < s.autoIncrement
  range : ∀ row ∈ s.iaUser, 0 < row.userId ∧ row.userId < s.autoIncrement
  distinct : (s.iaUser.map IaUser.userId).Nodup
  sound : Sound User.userId s.sessions
  notBlank : ∀ k v, s.sessions.sessionIdToUserIdMap.get k = some v → isNotBlank k

theorem inv_init : Inv init :=
  ⟨by decide, by simp [init], by simp [init], sound_init,
    fun k v hg => by simp [init, SessionService.init] at hg⟩

theorem Inv.addUser (hi : Inv s) (organisationId : Int) (email pass : String) (executed : Bool) :
    Inv (addUser p organisationId email pass executed s).2 := by
  unfold UserAccounts.addUser
  split
  · have hfresh : s.autoIncrement ∉ s.iaUser.map IaUser.userId := by
      intro hmem
      obtain ⟨row, hrow, hid⟩ := List.mem_map.mp hmem
      have := (hi.range row hrow).2
      omega
    refine { hi with counter := ?_, range := ?_, distinct := ?_ }
    · have := hi.counter
      show 0 < s.autoIncrement + 1
      omega
    · intro row hrow
      show 0 < row.userId ∧ row.userId < s.autoIncrement + 1
      obtain hmem | hmem := List.mem_append.mp hrow
      · have := hi.range row hmem
        omega
      · have := hi.counter
        rw [List.mem_singleton.mp hmem]
        show 0 < s.autoIncrement ∧ s.autoIncrement < s.autoIncrement + 1
        omega
    · show ((s.iaUser ++ [_]).map IaUser.userId).Nodup
      rw [List.map_append, List.nodup_append_comm]
      exact List.nodup_cons.mpr ⟨hfresh, hi.distinct⟩
  · exact hi

theorem Inv.updateStatus (hi : Inv s) (email : String) (status : Status) (executed : Bool) :
    Inv (updateStatus p email status executed s).2 := by
  unfold UserAccounts.updateStatus
  split
  · have hid : ∀ row : IaUser, (if p.equal row.emailId email then { row with status := status }
        else row).userId = row.userId := by
      intro row
      split <;> rfl
    refine { hi with range := ?_, distinct := ?_ }
    · intro row hrow
      obtain ⟨old, hold, rfl⟩ := List.mem_map.mp hrow
      rw [hid]
      exact hi.range old hold
    · show ((s.iaUser.map _).map IaUser.userId).Nodup
      rw [List.map_map]
      simpa [Function.comp_def, hid] using hi.distinct
  · exact hi

theorem Inv.logIn (hi : Inv s) (a : Attempt) : Inv (UserAccounts.step p s (.logIn a)) := by
  rw [step_logIn]
  split
  · refine { hi with sound := hi.sound.step _, notBlank := ?_ }
    intro k v hg
    simp only [loggedIn, after_handleUserLogIn] at hg
    obtain ⟨u, _, _, hk, rfl, _⟩ | hold := handleUserLogIn_binds hg
    · exact hk
    · exact hi.notBlank k v hold
  · exact hi

theorem Inv.step (hi : Inv s) (e : Event) : Inv (UserAccounts.step p s e) := by
  cases e with
  | addUser organisationId email password executed => exact hi.addUser ..
  | updateStatus email status executed => exact hi.updateStatus ..
  | logIn a => exact hi.logIn a

theorem mem_of_chosen (h : chosen p s a = some row) : row ∈ s.iaUser ∧
    ∃ userName password stored, a.form = .valid userName password ∧
      row.password = some stored ∧ p.equal stored (p.sha1 password) := by
  unfold chosen at h
  split at h
  · rename_i userName password hf
    split at h
    · have hmem := List.mem_of_mem_head? h
      obtain ⟨hrow, hsel⟩ := List.mem_filter.mp hmem
      rw [Bool.and_eq_true, Option.any_eq_true] at hsel
      obtain ⟨_, stored, hstored, hequal⟩ := hsel
      exact ⟨hrow, userName, password, stored, hf, hstored, hequal⟩
    · cases h
  · cases h

theorem Inv.binds_chosen (hi : Inv s) (h : chosen p s a = some row) :
    (UserAccounts.step p s (.logIn a)).sessions.sessionIdToUserIdMap.get a.sessionId =
      some (some row.userId) ↔ isNotBlank a.sessionId := by
  refine ⟨(hi.logIn a).notBlank _ _, fun hb => ?_⟩
  obtain ⟨k, hk⟩ := isNotBlank_some hb
  have hpos := (hi.range row (mem_of_chosen h).1).1
  obtain ⟨t, hr, hm, _⟩ := hi.sound.logIn_run k (s.newUser row)
  have hu : 0 < User.userId (s.newUser row) := hpos
  have haccepted := handleUserLogIn_accepted (hk ▸ hb) hu s.sessions
  rw [step_logIn, h, hk]
  simp only [loggedIn, after_handleUserLogIn]
  rw [haccepted, hr, hm, if_pos rfl]
  rfl

/-- After every history, a login attempt binds its session to none but a NORMAL user of that
password exactly when the row it chooses is not LOCKED. -/
theorem bindsNormalOnly_iff {h : List Event} (hr : Run (total (step p)) AnyStep init h s)
    (a : Attempt) : BindsNormalOnly p s a ↔ ChoosesUnlocked p s a := by
  have hi : Inv s := hr.invariant (fun _ s => Inv s) inv_init (by
    rintro _ s e _ _ hi _ ⟨⟩
    exact hi.step e)
  constructor
  · intro hn hb row hrow hlocked
    obtain ⟨row', hrow', hid, _, hnormal⟩ := hn row.userId
      (binds_iff.mpr ⟨row, hrow, rfl, (hi.binds_chosen hrow).mpr hb⟩)
    obtain rfl : row' = row :=
      List.inj_on_of_nodup_map hi.distinct hrow' (mem_of_chosen hrow).1 hid
    rw [hnormal] at hlocked
    cases hlocked
  · intro hc userId hbinds
    obtain ⟨row, hrow, rfl, hg⟩ := binds_iff.mp hbinds
    obtain ⟨hmem, hpassword⟩ := mem_of_chosen hrow
    refine ⟨row, hmem, rfl, hpassword, ?_⟩
    have hnot := hc ((hi.binds_chosen hrow).mp hg) row hrow
    cases hstatus : row.status with
    | NORMAL => rfl
    | LOCKED => exact absurd hstatus hnot

/-- Strings compared as they are, and a digest that only prefixes the password. -/
def plainPlatform : Platform where
  equal a b := a = b
  sha1 input := "sha1:" ++ input

def lockedHistory : List Event :=
  [.addUser 1 "one@acme.com" "p1" true, .updateStatus "one@acme.com" .LOCKED true]

def lockedAttempt : Attempt := ⟨some "A", .valid "one@acme.com" "p1", true⟩

/-- With the lock lifted again the attempt is as it should be. -/
theorem bindsNormalOnly_iff_unlocked :
    BindsNormalOnly plainPlatform ((lockedHistory ++
      [Event.updateStatus "one@acme.com" .NORMAL true]).foldl (step plainPlatform) init)
      lockedAttempt := by
  refine (bindsNormalOnly_iff (run_anyStep_iff.mpr (exec_total _ _ _)) _).mpr fun _ row hrow => ?_
  have hrow' : some row = some ⟨1, 1, "one@acme.com", some "sha1:p1", .NORMAL⟩ :=
    hrow.symm.trans (by rfl)
  cases hrow'
  decide

/-- A user that was created and locked logs in with the right password. -/
theorem locked_user_logs_in :
    ∃ s, Run (total (step plainPlatform)) AnyStep init lockedHistory s ∧
      ¬ BindsNormalOnly plainPlatform s lockedAttempt := by
  refine ⟨lockedHistory.foldl (step plainPlatform) init, run_anyStep_iff.mpr (exec_total _ _ _),
    fun hn => ?_⟩
  have hall : ∀ row ∈ (lockedHistory.foldl (step plainPlatform) init).iaUser,
      row.status = .LOCKED := by decide
  obtain ⟨row, hrow, _, _, hnormal⟩ := hn 1 (binds_iff.mpr
    ⟨⟨1, 1, "one@acme.com", some "sha1:p1", .LOCKED⟩, by rfl, rfl, by rfl⟩)
  rw [hall row hrow] at hnormal
  cases hnormal

end InsightsAssist.UserAccounts
