import InsightsAssist.AdminAccess

/-! Accounts of the two login tables that have the same id. The session service knows users by
their ids alone. -/
namespace InsightsAssist.AdminAccess
open Java Runs SessionService
variable {υ : Type} (getUserId : υ → Int)

/-- The event ends the session of an account as the account's own table would have it: a logout or
a login on the session, or a login of the same account anywhere. -/
def Event.EndsOwn (sessionId : String) (kind : LoginKind) (user : υ) : Event υ → Prop
  | .logIn kind' k v => loginAccepted getUserId k (some v) ∧
      (k = some sessionId ∨ (kind' = kind ∧ getUserId v = getUserId user))
  | .logOut k => k = some sessionId
  | .request _ => False

/-- A login of an account of the other table with the same id. -/
def Event.SharesId (kind : LoginKind) (user : υ) : Event υ → Prop
  | .logIn kind' k v => loginAccepted getUserId k (some v) ∧ kind' ≠ kind ∧
      getUserId v = getUserId user
  | _ => False

variable {getUserId} {kind : LoginKind} {user : υ} {sessionId : String} {e : Event υ}
  {m : Model getUserId}

theorem ends_iff : e.Ends getUserId sessionId user ↔
    e.EndsOwn getUserId sessionId kind user ∨
      (e.SharesId getUserId kind user) := by
  cases e with
  | logIn kind' k v =>
    by_cases hkind : kind' = kind
    · simp [Event.Ends, Event.EndsOwn, Event.SharesId, hkind]
    · simp only [Event.Ends, Event.EndsOwn, Event.SharesId, hkind, false_and, or_false, ne_eq,
        not_false_eq_true, true_and, ← and_or_left]
  | logOut k => simp [Event.Ends, Event.EndsOwn, Event.SharesId]
  | request request => simp [Event.Ends, Event.EndsOwn, Event.SharesId]

theorem model_logIn {k : String} {v : υ} (hacc : loginAccepted getUserId (some k) (some v)) :
    (Event.logIn kind (some k) v).model m = m.logIn k v := by
  simp [Event.model, Event.call, Model.step, Call.accepted, hacc]

theorem user_model_of_apart (hin : ∀ kind' k v, e = .logIn kind' k v →
      loginAccepted getUserId k (some v) → k ≠ some sessionId ∧
        ∀ w, m.user sessionId = some w → getUserId w ≠ getUserId v)
    (hout : ∀ k, e = .logOut k → k ≠ some sessionId) :
    (e.model m).user sessionId = m.user sessionId := by
  cases e with
  | logIn kind' k v =>
    cases hacc : loginAccepted getUserId k (some v) with
    | false => simp [Event.model, Event.call, Model.step, Call.accepted, hacc]
    | true =>
      obtain ⟨hk, hid⟩ := hin kind' k v rfl hacc
      apply m.step_frame
      rintro (hsame | ⟨u, w, hu, hw, hids⟩)
      · exact hk hsame
      · cases hu
        exact hid w hw hids
  | logOut k =>
    apply m.step_frame
    exact hout k rfl
  | request request => rfl

theorem user_of_not_ends (hu : m.user sessionId = some user)
    (he : ¬ e.Ends getUserId sessionId user) : (e.model m).user sessionId = some user := by
  rw [user_model_of_apart, hu]
  · rintro kind' k v rfl hacc
    refine ⟨fun hk => he ⟨hacc, .inl hk⟩, fun w hw hid => ?_⟩
    rw [hu] at hw
    cases hw
    exact he ⟨hacc, .inr hid.symm⟩
  · rintro k rfl hk
    exact he hk

theorem user_of_not_endsOwn (hu : m.user sessionId = none)
    (he : ¬ e.EndsOwn getUserId sessionId kind user) : (e.model m).user sessionId = none := by
  rw [user_model_of_apart, hu]
  · rintro kind' k v rfl hacc
    refine ⟨fun hk => he ⟨hacc, .inl hk⟩, fun w hw => ?_⟩
    rw [hu] at hw
    cases hw
  · rintro k rfl hk
    exact he hk

theorem user_of_sharesId (hu : m.user sessionId = some user)
    (he : ¬ e.EndsOwn getUserId sessionId kind user) (hshares : e.SharesId getUserId kind user) :
    (e.model m).user sessionId = none := by
  cases e with
  | logIn kind' k v =>
    obtain ⟨hacc, _, hid⟩ := hshares
    obtain ⟨k, w, rfl, ⟨⟩, _⟩ := loginAccepted_some hacc
    rw [model_logIn hacc]
    apply Option.eq_none_iff_forall_ne_some.mpr
    intro w hw
    obtain ⟨rfl, _⟩ | ⟨_, hne, hold⟩ := (m.user_logIn k sessionId v w).mp hw
    · exact he ⟨hacc, .inl rfl⟩
    · rw [hu] at hold
      cases hold
      exact hne hid.symm
  | logOut k => exact absurd hshares id
  | request request => exact absurd hshares id

theorem foldl_model_none {post : List (Event υ)}
    (hpost : ∀ e ∈ post, ¬ e.EndsOwn getUserId sessionId kind user)
    (hu : m.user sessionId = none) :
    (post.foldl (fun m e => e.model m) m).user sessionId = none := by
  induction post generalizing m with
  | nil => exact hu
  | cons e post ih =>
    apply ih (fun e he => hpost e (List.mem_cons_of_mem _ he))
    exact user_of_not_endsOwn hu (hpost e List.mem_cons_self)

theorem foldl_model_iff {post : List (Event υ)}
    (hpost : ∀ e ∈ post, ¬ e.EndsOwn getUserId sessionId kind user)
    (hu : m.user sessionId = some user) :
    (post.foldl (fun m e => e.model m) m).user sessionId = some user ↔
      ∀ e ∈ post, ¬ e.SharesId getUserId kind user := by
  induction post generalizing m with
  | nil => simpa using hu
  | cons e post ih =>
    have hrest : ∀ e ∈ post, ¬ e.EndsOwn getUserId sessionId kind user :=
      fun e he => hpost e (List.mem_cons_of_mem _ he)
    have he := hpost e List.mem_cons_self
    rw [List.foldl_cons, List.forall_mem_cons]
    by_cases hshares : e.SharesId getUserId kind user
    · rw [foldl_model_none hrest (user_of_sharesId hu he hshares)]
      exact iff_of_false (fun h => nomatch h) fun h => h.1 hshares
    · rw [ih hrest (user_of_not_ends hu fun h => (ends_iff.mp h).elim he hshares)]
      exact (and_iff_right hshares).symm

variable [DecidableEq υ] {s : State υ} {pre post h : List (Event υ)}

theorem refines_foldl (hr : Refines getUserId s m) :
    Refines getUserId (h.foldl (step getUserId) s) (h.foldl (fun m e => e.model m) m) := by
  induction h generalizing s m with
  | nil => exact hr
  | cons e h ih => exact ih (refines_step hr e)

/-- In every run of ordinary logins, admin logins, logouts and requests: a session whose account
has neither logged out nor logged in again is still that account's exactly if no account of the
other table with the same id has logged in since. -/
theorem session_kept_iff (hr : Run (total (step getUserId)) AnyStep init
      (pre ++ .logIn kind (some sessionId) user :: post) s)
    (hacc : loginAccepted getUserId (some sessionId) (some user))
    (hpost : ∀ e ∈ post, ¬ e.EndsOwn getUserId sessionId kind user) :
    (isSessionLoggedIn s (some sessionId) ∧ getUser s (some sessionId) = some user) ↔
      ∀ e ∈ post, ¬ e.SharesId getUserId kind user := by
  have hrefines : Refines getUserId s ((pre ++ .logIn kind (some sessionId) user :: post).foldl
      (fun m e => e.model m) .empty) := by
    rw [run_anyStep_iff, exec_total] at hr
    cases hr
    exact refines_foldl refines_init
  rw [List.foldl_append, List.foldl_cons] at hrefines
  have hlogged : ((Event.logIn kind (some sessionId) user).model
      (pre.foldl (fun m e => e.model m) (.empty : Model getUserId))).user sessionId =
        some user := by
    rw [model_logIn hacc, Model.user_logIn]
    exact .inl ⟨rfl, rfl⟩
  rw [hrefines.sessionLoggedIn, hrefines.getUser_eq, ← foldl_model_iff hpost hlogged]
  constructor
  · exact And.right
  · exact fun hu => ⟨by rw [hu]; rfl, hu⟩

/-- An ordinary account with the id of the admin account `user1`. -/
def twin : User := ⟨2, 1, some "ann@acme.com"⟩

theorem admin_session_kept :
    ∃ s, Run (total (step User.userId)) AnyStep init
        ([] ++ .logIn .admin (some "A") user1 ::
          [.logIn .ordinary (some "B") user2, .logOut (some "B")]) s ∧
      isSessionLoggedIn s (some "A") ∧ getUser s (some "A") = some user1 := by
  have hr : Run (total (step User.userId)) AnyStep init
      ([] ++ .logIn .admin (some "A") user1 ::
        [.logIn .ordinary (some "B") user2, .logOut (some "B")]) _ := run_anyStep_iff.mpr rfl
  refine ⟨_, hr, (session_kept_iff hr (by decide) ?_).mpr ?_⟩
  · simp [Event.EndsOwn, user1, user2]
  · simp [Event.SharesId, user1, user2]

/-- The ordinary login with the id of the admin ends the admin's session, on another one. -/
theorem admin_session_ended :
    ∃ s, Run (total (step User.userId)) AnyStep init
        ([] ++ .logIn .admin (some "A") user1 :: [.logIn .ordinary (some "B") twin]) s ∧
      (∀ e ∈ [Event.logIn .ordinary (some "B") twin],
        ¬ e.EndsOwn User.userId "A" .admin user1) ∧
      isSessionLoggedIn s (some "A") = false ∧ getUser s (some "A") = none ∧
      getUser s (some "B") = some twin := by
  refine ⟨_, run_anyStep_iff.mpr rfl, ?_, rfl, rfl, rfl⟩
  simp [Event.EndsOwn]

end InsightsAssist.AdminAccess
