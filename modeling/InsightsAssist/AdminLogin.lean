import InsightsAssist.Credentials
import InsightsAssist.Runs
import InsightsAssist.SessionMaps

/-! The admin login action, a singleton that keeps the request it is working on in its own
fields. Any number of requests run through its steps in any order. -/
namespace InsightsAssist.AdminLogin
open Runs

/-- A row of ia_admin_user: its first two columns, and the two it is selected by. -/
structure AdminUser where
  userId : Int
  emailId : Option String
  uname : String
  upass : String
  deriving DecidableEq

structure Database where
  iaAdminUser : List AdminUser
  equal : String → String → Bool

structure Request where
  sessionId : String
  username : Option String
  password : Option String
  deriving DecidableEq

/-- `select * from ia_admin_user where uname=? and upass=?` with the request's parameters. -/
def Database.select (db : Database) (request : Request) : List AdminUser :=
  match request.username, request.password with
  | some username, some password =>
    db.iaAdminUser.filter fun row => db.equal row.uname username && db.equal row.upass password
  | _, _ => []

/-- The fields of a User object. -/
structure Bean where
  userId : Int := 0
  emailId : Option String := none

def Bean.fill (b : Bean) (row : AdminUser) : Bean :=
  { b with emailId := row.emailId, userId := row.userId }

inductive Progress where
  | received | constructed | matching | validated | done
  deriving DecidableEq

/-- The fields `user` and `matcher` of the action, the User objects by reference, and the
session service, whose cache holds references. -/
structure State where
  objects : Nat → Bean
  allocated : Nat
  user : Option Nat
  matcher : Option String
  progress : Nat → Progress
  sessions : SessionService.State Nat

def init : State where
  objects _ := {}
  allocated := 0
  user := none
  matcher := none
  progress _ := .received
  sessions := SessionService.init

inductive Step where
  /-- `user = new User()` -/
  | construct (request : Nat)
  /-- `matcher = pattern.matcher(username)` -/
  | setMatcher (request : Nat)
  /-- `matcher.matches()`, then the query; its result set fails after `rows` rows -/
  | validate (request : Nat) (rows : Nat)
  /-- `service.handleUserLogIn(session.getId(), user)` -/
  | logIn (request : Nat)
  deriving DecidableEq

def Step.request : Step → Nat
  | .construct r | .setMatcher r | .validate r _ | .logIn r => r

def State.advance (s : State) (r : Nat) (p : Progress) : State :=
  { s with progress := Function.update s.progress r p }

variable (db : Database) (requests : Nat → Request)

/-- The rows a validation reads, none where the address in `matcher` does not match. -/
def rowsRead (matcher : Option String) (r rows : Nat) : List AdminUser :=
  if matcher.any matchesEmailPattern then (db.select (requests r)).take rows else []

/-- Each row is written to the object the field refers to. -/
def validate (s : State) (r rows : Nat) : State :=
  match s.user with
  | none => s
  | some ref =>
    let filled := (rowsRead db requests s.matcher r rows).foldl Bean.fill (s.objects ref)
    { s with objects := Function.update s.objects ref filled }

/-- The session service reads the id out of the object; a throw ends the request. -/
def logIn (s : State) (r : Nat) : State :=
  let getUserId ref := (s.objects ref).userId
  let login := SessionService.handleUserLogIn getUserId (some (requests r).sessionId) s.user
  { s with sessions := (login.run s.sessions).2 }

def step (s : State) : Step → Option State
  | .construct r =>
    if s.progress r = .received && !isEmpty (requests r).username && !isEmpty (requests r).password
    then some ({ s with
        objects := Function.update s.objects s.allocated {}
        allocated := s.allocated + 1
        user := some s.allocated }.advance r .constructed)
    else none
  | .setMatcher r =>
    if s.progress r = .constructed
    then some ({ s with matcher := (requests r).username }.advance r .matching)
    else none
  | .validate r rows =>
    if s.progress r = .matching then some ((validate db requests s r rows).advance r .validated)
    else none
  | .logIn r =>
    if s.progress r = .validated then some ((logIn requests s r).advance r .done) else none

/-- Every binding is to the id of a row that a request of the same session selects. -/
def OwnIdentity (h : List Step) (s : State) : Prop :=
  ∀ k v, s.sessions.sessionIdToUserIdMap.get k = some v →
    ∃ a ∈ h, ∃ row ∈ db.select (requests a.request),
      k = some (requests a.request).sessionId ∧ v = some row.userId

/-- What the history says of the shared fields: the address last given to the matcher, and the
request whose rows were last written to the object now in `user`. -/
structure Shared where
  matcher : Option String := none
  filler : Option Nat := none

def Shared.after (f : Shared) : Step → Shared
  | .construct _ => { f with filler := none }
  | .setMatcher r => { f with matcher := (requests r).username }
  | .validate r rows =>
    if rowsRead db requests f.matcher r rows = [] then f else { f with filler := some r }
  | .logIn _ => f

def shared (h : List Step) : Shared := h.foldl (Shared.after db requests) {}

/-- A request logs in with an object it has filled itself, or that was filled for its own
session or with the rows it selects. -/
def OwnObject (h : List Step) (_ : State) : Step → Prop
  | .logIn r => ∀ r' ∈ (shared db requests h).filler,
      (requests r').sessionId = (requests r).sessionId ∨
        db.select (requests r') = db.select (requests r)
  | _ => True

variable {db requests} {h : List Step} {s s' : State}

/-- The history is right about the matcher, and about the object in `user`: nothing written
since it was made, or last a row that the filler selects. -/
structure Inv (db : Database) (requests : Nat → Request) (h : List Step) (s : State) : Prop where
  matcher : s.matcher = (shared db requests h).matcher
  unfilled : (shared db requests h).filler = none →
    ∀ ref ∈ s.user, (s.objects ref).userId = 0
  filled : ∀ r ∈ (shared db requests h).filler, (∃ a ∈ h, a.request = r) ∧
    ∀ ref ∈ s.user, ∃ row ∈ db.select (requests r), (s.objects ref).userId = row.userId

theorem shared_snoc (h : List Step) (a : Step) :
    shared db requests (h ++ [a]) = (shared db requests h).after db requests a := by
  simp [shared]

theorem inv_init : Inv db requests [] init :=
  ⟨rfl, fun _ _ hr => (Option.not_mem_none _ hr).elim, fun _ hr => (Option.not_mem_none _ hr).elim⟩

theorem Inv.frame {a : Step} (hi : Inv db requests h s) (ho : s'.objects = s.objects)
    (hu : s'.user = s.user)
    (hm : s'.matcher = ((shared db requests h).after db requests a).matcher)
    (hf : ((shared db requests h).after db requests a).filler = (shared db requests h).filler) :
    Inv db requests (h ++ [a]) s' := by
  refine ⟨?_, ?_, ?_⟩ <;> rw [shared_snoc]
  · exact hm
  · rw [hf, ho, hu]
    exact hi.unfilled
  · rw [hf, ho, hu]
    intro r hr
    obtain ⟨⟨b, hb, hbr⟩, hrow⟩ := hi.filled r hr
    exact ⟨⟨b, List.mem_append_left _ hb, hbr⟩, hrow⟩

theorem foldl_fill_userId (rows : List AdminUser) (hne : rows ≠ []) (b : Bean) :
    ∃ row ∈ rows, (rows.foldl Bean.fill b).userId = row.userId := by
  obtain ⟨front, last, rfl⟩ := (List.eq_nil_or_concat rows).resolve_left hne
  exact ⟨last, by simp, by simp [Bean.fill]⟩

theorem rowsRead_subset {matcher : Option String} {r rows : Nat} {row : AdminUser}
    (hr : row ∈ rowsRead db requests matcher r rows) : row ∈ db.select (requests r) := by
  unfold rowsRead at hr
  split at hr
  · exact List.mem_of_mem_take hr
  · cases hr

theorem validate_of_none {r rows : Nat} (hrows : rowsRead db requests s.matcher r rows = []) :
    validate db requests s r rows = s := by
  unfold validate
  split
  · rfl
  · simp [hrows]

theorem validate_of_rows {r rows : Nat} (hrows : rowsRead db requests s.matcher r rows ≠ []) :
    (validate db requests s r rows).user = s.user ∧
      (validate db requests s r rows).matcher = s.matcher ∧
      ∀ ref ∈ s.user, ∃ row ∈ db.select (requests r),
        ((validate db requests s r rows).objects ref).userId = row.userId := by
  unfold validate
  split
  · rename_i hu
    simp [hu]
  · rename_i ref hu
    refine ⟨rfl, rfl, fun ref' href => ?_⟩
    obtain rfl : ref = ref' := by simpa [hu] using href
    obtain ⟨row, hrow, hid⟩ := foldl_fill_userId _ hrows (s.objects ref)
    exact ⟨row, rowsRead_subset hrow, by simpa using hid⟩

theorem Inv.step {a : Step} (hi : Inv db requests h s) (hs : step db requests s a = some s') :
    Inv db requests (h ++ [a]) s' := by
  cases a with
  | construct r =>
    obtain ⟨_, ⟨⟩⟩ := Option.ite_none_right_eq_some.mp hs
    refine ⟨?_, ?_, ?_⟩ <;> rw [shared_snoc]
    · exact hi.matcher
    · rintro _ ref ⟨⟩
      simp [State.advance]
    · intro r' hr'
      cases hr'
  | setMatcher r =>
    obtain ⟨_, ⟨⟩⟩ := Option.ite_none_right_eq_some.mp hs
    exact hi.frame rfl rfl rfl rfl
  | validate r rows =>
    obtain ⟨_, ⟨⟩⟩ := Option.ite_none_right_eq_some.mp hs
    by_cases hrows : rowsRead db requests s.matcher r rows = []
    · have hafter : (shared db requests h).after db requests (.validate r rows) =
          shared db requests h := by simp [Shared.after, ← hi.matcher, hrows]
      rw [validate_of_none hrows]
      exact hi.frame rfl rfl (by rw [hafter]; exact hi.matcher) (by rw [hafter])
    · have hafter : (shared db requests h).after db requests (.validate r rows) =
          { shared db requests h with filler := some r } := by
        simp [Shared.after, ← hi.matcher, hrows]
      obtain ⟨hu, hm, hrow⟩ := validate_of_rows hrows
      refine ⟨?_, ?_, ?_⟩ <;> rw [shared_snoc, hafter]
      · exact hm.trans hi.matcher
      · intro hf
        cases hf
      · rintro _ ⟨⟩
        refine ⟨⟨.validate r rows, by simp, rfl⟩, fun ref href => hrow ref ?_⟩
        rwa [← hu]
  | logIn r =>
    obtain ⟨_, ⟨⟩⟩ := Option.ite_none_right_eq_some.mp hs
    exact hi.frame rfl rfl hi.matcher rfl

theorem OwnIdentity.mono {a : Step} (ho : OwnIdentity db requests h s)
    (hs : ∀ k v, s'.sessions.sessionIdToUserIdMap.get k = some v →
      s.sessions.sessionIdToUserIdMap.get k = some v) :
    OwnIdentity db requests (h ++ [a]) s' := by
  intro k v hg
  obtain ⟨b, hb, hrow⟩ := ho k v (hs k v hg)
  exact ⟨b, List.mem_append_left _ hb, hrow⟩

theorem OwnIdentity.logIn {r : Nat} (hi : Inv db requests h s) (ho : OwnIdentity db requests h s)
    (hc : OwnObject db requests h s (.logIn r)) :
    OwnIdentity db requests (h ++ [.logIn r]) (logIn requests s r) := by
  intro k v hg
  obtain ⟨ref, href, hpos, _, rfl, rfl⟩ | hg := SessionService.handleUserLogIn_binds hg
  · cases hf : (shared db requests h).filler with
    | none =>
      -- a fresh object has id 0, which the session service refuses
      have hzero := hi.unfilled hf ref href
      simp [hzero] at hpos
    | some r' =>
      obtain ⟨⟨a, ha, rfl⟩, hrow⟩ := hi.filled r' hf
      obtain ⟨row, hrow, hid⟩ := hrow ref href
      obtain hsession | hselect := hc _ hf
      · exact ⟨a, List.mem_append_left _ ha, row, hrow, by rw [hsession], by rw [hid]⟩
      · exact ⟨.logIn r, by simp, row, hselect ▸ hrow, rfl, by rw [hid]⟩
  · obtain ⟨b, hb, hrow⟩ := ho k v hg
    exact ⟨b, List.mem_append_left _ hb, hrow⟩

theorem OwnIdentity.step {a : Step} (hi : Inv db requests h s) (ho : OwnIdentity db requests h s)
    (hc : OwnObject db requests h s a) (hs : step db requests s a = some s') :
    OwnIdentity db requests (h ++ [a]) s' := by
  cases a with
  | construct r | setMatcher r =>
    obtain ⟨_, ⟨⟩⟩ := Option.ite_none_right_eq_some.mp hs
    exact ho.mono fun _ _ hg => hg
  | validate r rows =>
    obtain ⟨_, ⟨⟩⟩ := Option.ite_none_right_eq_some.mp hs
    refine ho.mono fun k v hg => ?_
    have hv : (validate db requests s r rows).sessions = s.sessions := by
      unfold validate
      split <;> rfl
    rwa [← hv]
  | logIn r =>
    obtain ⟨_, ⟨⟩⟩ := Option.ite_none_right_eq_some.mp hs
    exact OwnIdentity.logIn hi ho hc

/-- In every interleaving in which each request logs in with an object filled on its own
account, no session is bound to an identity that its own requests did not supply. -/
theorem sessions_bound_to_own_identity
    (hr : Run (step db requests) (OwnObject db requests) init h s) :
    OwnIdentity db requests h s := by
  refine (hr.invariant (fun h s => Inv db requests h s ∧ OwnIdentity db requests h s) ?_ ?_).2
  · exact ⟨inv_init, fun k v hg => by simp [init, SessionService.init] at hg⟩
  · rintro h s a s' _ ⟨hi, ho⟩ hc hs
    exact ⟨hi.step hs, ho.step hi hc hs⟩

def twoAdmins : Database where
  iaAdminUser := [⟨1, some "one@acme.com", "one@acme.com", "p1"⟩,
    ⟨2, some "two@acme.com", "two@acme.com", "p2"⟩]
  equal a b := a = b

def twoRequests : Nat → Request
  | 0 => ⟨"A", some "one@acme.com", some "p1"⟩
  | _ => ⟨"B", some "two@acme.com", some "p2"⟩

/-- The second request runs between the first one's `new User()` and its query. -/
theorem sessions_bound_to_own_identity_nested :
    ∃ s, Run (step twoAdmins twoRequests) (OwnObject twoAdmins twoRequests) init
        [.construct 0, .construct 1, .setMatcher 1, .validate 1 1, .logIn 1] s ∧
      OwnIdentity twoAdmins twoRequests
        [.construct 0, .construct 1, .setMatcher 1, .validate 1 1, .logIn 1] s := by
  obtain ⟨s, hr⟩ : ∃ s, Run (step twoAdmins twoRequests) (OwnObject twoAdmins twoRequests) init
      [.construct 0, .construct 1, .setMatcher 1, .validate 1 1, .logIn 1] s := by
    refine ⟨_, .snoc (h := [_, _, _, _]) (.snoc (h := [_, _, _]) (.snoc (h := [_, _])
      (.snoc (h := [_]) (.snoc (h := []) .nil trivial rfl) trivial rfl) trivial rfl) trivial rfl)
      ?_ rfl⟩
    rintro _ ⟨⟩
    exact .inl rfl
  exact ⟨s, hr, sessions_bound_to_own_identity hr⟩

/-- The second request fills the object that the first one then logs in with. -/
theorem session_bound_to_another_identity :
    ∃ s, Run (step twoAdmins twoRequests) AnyStep init
        [.construct 0, .setMatcher 0, .validate 0 1, .construct 1, .setMatcher 1, .validate 1 1,
          .logIn 0] s ∧
      ¬ OwnIdentity twoAdmins twoRequests
        [.construct 0, .setMatcher 0, .validate 0 1, .construct 1, .setMatcher 1, .validate 1 1,
          .logIn 0] s := by
  refine ⟨_, run_anyStep_iff.mpr rfl, fun ho => ?_⟩
  exact absurd (ho (some "A") (some 2) (by decide)) (by decide)

end InsightsAssist.AdminLogin
