import InsightsAssist.Admission
import InsightsAssist.SessionRefinement

/-! Who reaches the administration actions. Ordinary and admin logins feed one session table,
and the dispatcher asks that table alone. -/
namespace InsightsAssist.AdminAccess
open Java Runs Dispatch SessionService
variable {υ : Type}

/-- The table a login was checked against: ia_user or ia_admin_user. -/
inductive LoginKind where
  | ordinary | admin
  deriving DecidableEq, Repr

/-- What happens to the server: a login whose credentials its action has accepted, a logout,
or any other request. -/
inductive Event (υ : Type) where
  | logIn (kind : LoginKind) (sessionId : Option String) (user : υ)
  | logOut (sessionId : Option String)
  | request (request : Request)

/-- The call that reaches the session service; both logins make the same one. -/
def Event.call : Event υ → Option (Call υ)
  | .logIn _ sessionId user => some (.handleUserLogIn sessionId (some user))
  | .logOut sessionId => some (.handleUserLogOut sessionId)
  | .request _ => none

def dispatch (missing : MissingActions) (allActionPaths : List String) (cache : OrganisationCache)
    (sessions : State υ) (request : Request) : Java (Option String) (Option Action) := do
  match ← doFilter cache request with
  | .chain => getAction missing allActionPaths sessions request
  | .sendError _ => return none

variable (getUserId : υ → Int)

/-- The event ends the login of the user on the session: a logout or a login on the session,
or a login of the user anywhere. -/
def Event.Ends (sessionId : String) (user : υ) : Event υ → Prop
  | .logIn _ k v => loginAccepted getUserId k (some v) ∧
      (k = some sessionId ∨ getUserId v = getUserId user)
  | .logOut k => k = some sessionId
  | .request _ => False

def CurrentLogIn (h : List (Event υ)) (sessionId : String) (kind : LoginKind) (user : υ) : Prop :=
  ∃ pre post, h = pre ++ .logIn kind (some sessionId) user :: post ∧
    loginAccepted getUserId (some sessionId) (some user) ∧
    ∀ e ∈ post, ¬ e.Ends getUserId sessionId user

variable {getUserId} {h : List (Event υ)} {e : Event υ} {k : String} {u : υ} {kind : LoginKind}

theorem CurrentLogIn.snoc (hc : CurrentLogIn getUserId h k kind u)
    (he : ¬ e.Ends getUserId k u) : CurrentLogIn getUserId (h ++ [e]) k kind u := by
  obtain ⟨pre, post, rfl, hacc, hpost⟩ := hc
  refine ⟨pre, post ++ [e], by simp, hacc, fun e' he' => ?_⟩
  obtain hmem | hmem := List.mem_append.mp he'
  · exact hpost e' hmem
  · rwa [List.mem_singleton.mp hmem]

theorem CurrentLogIn.of_logIn (hacc : loginAccepted getUserId (some k) (some u)) :
    CurrentLogIn getUserId (h ++ [.logIn kind (some k) u]) k kind u :=
  ⟨h, [], rfl, hacc, by simp⟩

/-- Every entry of the reference map has a current login behind it. -/
def Explained (getUserId : υ → Int) (h : List (Event υ)) (m : Model getUserId) : Prop :=
  ∀ k u, m.user k = some u → ∃ kind, CurrentLogIn getUserId h k kind u

theorem Explained.of_subset {m m' : Model getUserId} (hx : Explained getUserId h m)
    (hsub : ∀ k u, m'.user k = some u → m.user k = some u)
    (he : ∀ k u, m'.user k = some u → ¬ e.Ends getUserId k u) :
    Explained getUserId (h ++ [e]) m' := by
  intro k u hu
  obtain ⟨kind, hc⟩ := hx k u (hsub k u hu)
  exact ⟨kind, hc.snoc (he k u hu)⟩

theorem Explained.isNotBlank {m : Model getUserId} (hx : Explained getUserId h m)
    (hu : m.user k = some u) : isNotBlank (some k) := by
  obtain ⟨_, _, _, _, hacc, _⟩ := hx k u hu
  rw [loginAccepted, Bool.and_eq_true] at hacc
  exact hacc.1

def Event.model (m : Model getUserId) (e : Event υ) : Model getUserId :=
  match e.call with
  | some c => m.step getUserId c
  | none => m

theorem Explained.step {m : Model getUserId} (hx : Explained getUserId h m) (e : Event υ) :
    Explained getUserId (h ++ [e]) (e.model m) := by
  cases e with
  | logIn kind sessionId user =>
    cases hacc : loginAccepted getUserId sessionId (some user) with
    | false =>
      have hm : (Event.logIn kind sessionId user).model m = m := by
        simp [Event.model, Event.call, Model.step, Call.accepted, hacc]
      rw [hm]
      refine hx.of_subset (fun _ _ hu => hu) fun k u _ hends => ?_
      rw [hends.1] at hacc
      cases hacc
    | true =>
      obtain ⟨k, v, rfl, ⟨⟩, _⟩ := loginAccepted_some hacc
      have hm : (Event.logIn kind (some k) user).model m = m.logIn k user := by
        simp [Event.model, Event.call, Model.step, Call.accepted, hacc]
      rw [hm]
      intro t u hu
      obtain ⟨rfl, rfl⟩ | ⟨hne, hid, hu⟩ := (m.user_logIn k t user u).mp hu
      · exact ⟨kind, .of_logIn hacc⟩
      · obtain ⟨kind', hc⟩ := hx t u hu
        refine ⟨kind', hc.snoc ?_⟩
        rintro ⟨_, hk | hv⟩
        · cases hk
          exact hne rfl
        · exact hid hv.symm
  | logOut sessionId =>
    cases hb : Java.isNotBlank sessionId with
    | false =>
      have hm : (Event.logOut sessionId).model m = m := by
        simp [Event.model, Event.call, Model.step, Call.accepted, hb]
      rw [hm]
      refine hx.of_subset (fun _ _ hu => hu) fun k u hu hends => ?_
      have hk := hx.isNotBlank hu
      rw [← hends, hb] at hk
      cases hk
    | true =>
      obtain ⟨k, rfl⟩ := isNotBlank_some hb
      have hm : (Event.logOut (some k)).model m = m.dropSession k := by
        simp [Event.model, Event.call, Model.step, Call.accepted, hb]
      rw [hm]
      refine hx.of_subset (fun t u hu => ((m.user_filter _ t u).mp hu).1) fun t u hu hends => ?_
      cases hends
      simpa using ((m.user_filter _ _ u).mp hu).2
  | request request => exact hx.of_subset (fun _ _ hu => hu) fun _ _ _ hends => hends

variable [DecidableEq υ] (getUserId)

def step (s : State υ) (e : Event υ) : State υ :=
  match e.call with
  | some c => after getUserId s c
  | none => s

variable {getUserId} {s : State υ}

theorem refines_step {m : Model getUserId} (hr : Refines getUserId s m) (e : Event υ) :
    Refines getUserId (step getUserId s e) (e.model m) := by
  cases e with
  | logIn kind sessionId user => exact (hr.step rfl).1
  | logOut sessionId => exact (hr.step rfl).1
  | request request => exact hr

theorem session_explained (hr : Run (total (step getUserId)) AnyStep init h s)
    {sessionId : Option String} (hl : isSessionLoggedIn s sessionId) :
    ∃ k kind u, sessionId = some k ∧ CurrentLogIn getUserId h k kind u := by
  obtain ⟨m, href, hx⟩ := hr.invariant
    (fun h s => ∃ m, Refines getUserId s m ∧ Explained getUserId h m)
    ⟨.empty, refines_init, fun k u hu => by cases hu⟩ (by
      rintro h s e _ _ ⟨m, href, hx⟩ _ ⟨⟩
      exact ⟨_, refines_step href e, hx.step e⟩)
  cases sessionId with
  | none =>
    rw [href.sessionLoggedIn_eq, href.get_null] at hl
    cases hl
  | some k =>
    rw [href.sessionLoggedIn, Option.isSome_iff_exists] at hl
    obtain ⟨u, hu⟩ := hl
    obtain ⟨kind, hc⟩ := hx k u hu
    exact ⟨k, kind, u, rfl, hc⟩

theorem foldl_step_of_calls {h' : List (Event υ)} (hcalls : h'.map Event.call = h.map Event.call)
    (s : State υ) : h'.foldl (step getUserId) s = h.foldl (step getUserId) s := by
  have hstep : ∀ h : List (Event υ), h.foldl (step getUserId) s =
      (h.map Event.call).foldl (fun s c => c.elim s (after getUserId s)) s := by
    intro h
    rw [List.foldl_map]
    refine List.foldl_ext _ _ _ fun t e _ => ?_
    cases e <;> rfl
  rw [hstep, hstep, hcalls]

omit [DecidableEq υ] in
theorem dispatch_eq_some {missing : MissingActions} {allActionPaths : List String}
    {cache : OrganisationCache} {request : Request} {action : Action} {flash flash' : Option String}
    (hd : (dispatch missing allActionPaths cache s request).run flash =
      (.ok (some action), flash')) :
    (getAction missing allActionPaths s request).run flash = (.ok (some action), flash') := by
  obtain ⟨filtered, _, hf, hd⟩ := Prog.run_bind_eq_ok.mp hd
  cases filtered with
  | chain =>
    obtain ⟨rfl, _⟩ := doFilter_eq_chain.mp hf
    exact hd
  | sendError code => cases hd

/-- An action that requires login, an administration action among them, is handed a request
only in a session with a current login. Of which kind a login is plays no part: the same run
with other kinds ends in the same state. -/
theorem action_in_current_login {missing : MissingActions} {allActionPaths : List String}
    {cache : OrganisationCache} {request : Request} {action : Action} {flash flash' : Option String}
    (hr : Run (total (step getUserId)) AnyStep init h s)
    (hd : (dispatch missing allActionPaths cache s request).run flash =
      (.ok (some action), flash'))
    (hlogin : action.requiresLogin missing) :
    (∃ k kind u, request.sessionId = some k ∧ CurrentLogIn getUserId h k kind u) ∧
      ∀ h', h'.map Event.call = h.map Event.call →
        Run (total (step getUserId)) AnyStep init h' s := by
  obtain ⟨_, _, _, _, _, hsession⟩ := getAction_eq_some.mp (dispatch_eq_some hd)
  refine ⟨session_explained hr (hsession hlogin), fun h' hcalls => ?_⟩
  rw [run_anyStep_iff, exec_total] at hr ⊢
  rw [foldl_step_of_calls hcalls, hr]

def dashboardRequest : Request where
  pathInfo := some "/api/v1/alogin/dashboard"
  parameter _ := none
  sessionId := some "A"

theorem action_in_current_login_admin :
    ∃ k kind u, dashboardRequest.sessionId = some k ∧
      CurrentLogIn User.userId [.logIn .admin (some "A") user1] k kind u := by
  have hr : Run (total (step User.userId)) AnyStep init [.logIn .admin (some "A") user1]
      (step User.userId init (.logIn .admin (some "A") user1)) := run_anyStep_iff.mpr rfl
  have hd : (dispatch ⟨true, false⟩ registerAllPaths acmeCache
      (step User.userId init (.logIn .admin (some "A") user1)) dashboardRequest).run none =
      (.ok (some .StoreUserData), none) := by rfl
  exact (action_in_current_login hr hd rfl).1

theorem admin_action_in_ordinary_login :
    ∃ s, Run (total (step User.userId)) AnyStep init [.logIn .ordinary (some "A") user1] s ∧
      (dispatch ⟨true, false⟩ registerAllPaths acmeCache s dashboardRequest).run none =
        (.ok (some .StoreUserData), none) ∧
      Action.StoreUserData.admin ∧ Action.StoreUserData.requiresLogin ⟨true, false⟩ ∧
      ∀ u, ¬ CurrentLogIn User.userId [.logIn .ordinary (some "A") user1] "A" .admin u := by
  refine ⟨_, run_anyStep_iff.mpr rfl, rfl, rfl, rfl, ?_⟩
  rintro u ⟨pre, post, hh, _⟩
  have hmem : Event.logIn .admin (some "A") u ∈ [Event.logIn .ordinary (some "A") user1] := by
    rw [hh]
    simp
  simp at hmem

end InsightsAssist.AdminAccess
