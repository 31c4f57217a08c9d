import InsightsAssist.Runs
import InsightsAssist.SessionMaps

/-! What the session table is for, as a partial one-to-one map from session ids to users,
and that the two maps of the service refine it. -/
namespace InsightsAssist.SessionService
open Java Runs
variable {υ : Type} (getUserId : υ → Int)

/-- Sessions and the users logged in on them; a user id is on one session at most. -/
@[ext] structure Model where
  user : String → Option υ
  one_to_one : ∀ {s t u v}, user s = some u → user t = some v → getUserId u = getUserId v → s = t

namespace Model
variable {getUserId}

def empty : Model getUserId := ⟨fun _ => none, by simp⟩

def filter (m : Model getUserId) (keep : String → υ → Bool) : Model getUserId where
  user t := (m.user t).filter (keep t)
  one_to_one hs ht hid :=
    m.one_to_one (Option.filter_eq_some_iff.mp hs).1 (Option.filter_eq_some_iff.mp ht).1 hid

def dropSession (m : Model getUserId) (sessionId : String) : Model getUserId :=
  m.filter fun t _ => t ≠ sessionId

def dropUser (m : Model getUserId) (userId : Int) : Model getUserId :=
  m.filter fun _ u => getUserId u ≠ userId

/-- Drop the session's entry and the user's, then add the new one. -/
def logIn (m : Model getUserId) (sessionId : String) (u : υ) : Model getUserId where
  user t :=
    if t = sessionId then some u else ((m.dropSession sessionId).dropUser (getUserId u)).user t
  one_to_one := by
    have hgone : ∀ t v, ((m.dropSession sessionId).dropUser (getUserId u)).user t = some v →
        getUserId v ≠ getUserId u := by
      intro t v h
      simpa using (Option.filter_eq_some_iff.mp h).2
    intro s t v w hs ht hid
    split at hs <;> split at ht
    · simp_all
    · cases hs
      exact absurd hid.symm (hgone _ _ ht)
    · cases ht
      exact absurd hid (hgone _ _ hs)
    · exact Model.one_to_one _ hs ht hid

end Model

def Call.invalidates : Call υ → Bool
  | .invalidateUserCache _ => true
  | _ => false

/-- The reference step; a refused call changes nothing. -/
def Model.step (m : Model getUserId) (c : Call υ) : Model getUserId :=
  if c.accepted getUserId then
    match c with
    | .handleUserLogIn (some sessionId) (some u) => m.logIn sessionId u
    | .handleUserLogOut (some sessionId) => m.dropSession sessionId
    | .handleUserSessionExpired (some sessionId) => m.dropSession sessionId
    | .forceLogout userId => m.dropUser userId
    | .restart => .empty
    | .stop => .empty
    | _ => m
  else m

/-- The entries a call is about: those of the session and of the user it names. -/
def Call.Concerns (c : Call υ) (m : Model getUserId) (t : String) : Prop :=
  match c with
  | .handleUserLogIn sessionId user =>
    sessionId = some t ∨ ∃ u v, user = some u ∧ m.user t = some v ∧ getUserId v = getUserId u
  | .handleUserLogOut sessionId => sessionId = some t
  | .handleUserSessionExpired sessionId => sessionId = some t
  | .forceLogout userId => ∃ v, m.user t = some v ∧ getUserId v = userId
  | .invalidateUserCache _ => False
  | .restart => True
  | .stop => True

namespace Model
variable {getUserId}

theorem user_filter (m : Model getUserId) (keep : String → υ → Bool) (t : String) (v : υ) :
    (m.filter keep).user t = some v ↔ m.user t = some v ∧ keep t v :=
  Option.filter_eq_some_iff

theorem user_logIn (m : Model getUserId) (sessionId t : String) (u v : υ) :
    (m.logIn sessionId u).user t = some v ↔
      (t = sessionId ∧ v = u) ∨
        (t ≠ sessionId ∧ getUserId v ≠ getUserId u ∧ m.user t = some v) := by
  by_cases ht : t = sessionId
  · simp [logIn, ht, eq_comm]
  · have h : (m.logIn sessionId u).user t =
        ((m.dropSession sessionId).dropUser (getUserId u)).user t := if_neg ht
    rw [h, dropUser, user_filter, dropSession, user_filter]
    simp [ht, and_comm]

theorem dropUser_eq_dropSession {m : Model getUserId} {k : String} {u : υ}
    (h : m.user k = some u) : m.dropUser (getUserId u) = m.dropSession k := by
  ext t v
  rw [dropUser, dropSession, user_filter, user_filter]
  refine and_congr_right fun hv => ?_
  simp only [ne_eq, decide_not, Bool.not_eq_eq_eq_not, Bool.not_true, decide_eq_false_iff_not]
  refine not_congr ⟨fun hid => m.one_to_one hv h hid, fun ht => ?_⟩
  subst ht
  rw [h] at hv
  cases hv
  rfl

theorem dropSession_of_none {m : Model getUserId} {k : String} (h : m.user k = none) :
    m.dropSession k = m := by
  ext t v
  rw [dropSession, user_filter]
  refine ⟨And.left, fun hv => ⟨hv, ?_⟩⟩
  by_cases ht : t = k
  · rw [ht, h] at hv
    cases hv
  · simp [ht]

theorem dropUser_of_absent {m : Model getUserId} {userId : Int}
    (h : ∀ k u, m.user k = some u → getUserId u ≠ userId) : m.dropUser userId = m := by
  ext t v
  rw [dropUser, user_filter]
  exact ⟨And.left, fun hv => ⟨hv, by simpa using h t v hv⟩⟩

theorem user_dropSession_of_ne (m : Model getUserId) {k t : String} (h : t ≠ k) :
    (m.dropSession k).user t = m.user t := by
  ext v
  rw [dropSession, user_filter]
  simp [h]

theorem step_frame (m : Model getUserId) (c : Call υ) (t : String) (h : ¬ c.Concerns getUserId m t) :
    (m.step getUserId c).user t = m.user t := by
  unfold step
  split
  · split
    · rename_i k u _
      have hk : t ≠ k := fun he => h (.inl (by rw [he]))
      have hu : ∀ v, m.user t = some v → getUserId v ≠ getUserId u := fun v hv hid =>
        h (.inr ⟨u, v, rfl, hv, hid⟩)
      ext v
      rw [user_logIn]
      simp only [hk, false_and, ne_eq, not_false_eq_true, true_and, false_or]
      exact ⟨And.right, fun hv => ⟨hu v hv, hv⟩⟩
    · exact m.user_dropSession_of_ne fun he => h (by rw [he]; rfl)
    · exact m.user_dropSession_of_ne fun he => h (by rw [he]; rfl)
    · ext v
      rw [dropUser, user_filter]
      exact ⟨And.left, fun hv => ⟨hv, by simpa using fun hid => h ⟨v, hv, hid⟩⟩⟩
    · exact absurd trivial h
    · exact absurd trivial h
    · rfl
  · rfl

end Model

/-- The table holds the model's entries: under every session the user's id, and under that
id the user. -/
structure Refines (s : State υ) (m : Model getUserId) : Prop extends Sound getUserId s where
  session : ∀ {k userId}, s.sessionIdToUserIdMap.get (some k) = some (some userId) ↔
    ∃ u, m.user k = some u ∧ getUserId u = userId
  cached : ∀ {k u}, m.user k = some u → s.userCache.get (getUserId u) = some u

variable {getUserId} {s : State υ} {m : Model getUserId}

theorem Refines.getUser_eq (h : Refines getUserId s m) (k : String) :
    getUser s (some k) = m.user k := by
  cases hu : m.user k with
  | some u =>
    have hs := h.session.mpr ⟨u, hu, rfl⟩
    simp [getUser, hs, retrieveUserFromCache, h.cached hu]
  | none =>
    obtain hg | ⟨userId, hg⟩ := h.get_cases (some k)
    · simp [getUser, hg]
    · obtain ⟨u, hu', _⟩ := h.session.mp hg
      simp [hu] at hu'

theorem Refines.sessionLoggedIn (h : Refines getUserId s m) (k : String) :
    isSessionLoggedIn s (some k) = (m.user k).isSome := by
  rw [h.sessionLoggedIn_eq]
  cases hu : m.user k with
  | some u => simp [h.session.mpr ⟨u, hu, rfl⟩]
  | none =>
    obtain hg | ⟨userId, hg⟩ := h.get_cases (some k)
    · simp [hg]
    · obtain ⟨u, hu', _⟩ := h.session.mp hg
      simp [hu] at hu'

theorem Refines.userLoggedIn (h : Refines getUserId s m) (userId : Int) :
    isUserLoggedIn s userId ↔ ∃ k u, m.user k = some u ∧ getUserId u = userId := by
  rw [h.userLoggedIn_iff]
  constructor
  · rintro ⟨k, hg⟩
    obtain ⟨t, _, rfl, _⟩ := h.no_null hg
    exact ⟨t, h.session.mp hg⟩
  · rintro ⟨k, hu⟩
    exact ⟨some k, h.session.mpr hu⟩

theorem refines_init : Refines getUserId (init : State υ) .empty :=
  { sound_init with
    session := by simp [init, Model.empty]
    cached := by simp [Model.empty] }

theorem Refines.dropUser (h : Refines getUserId s m) (userId : Int) :
    Refines getUserId (removeUserFromMaps userId s) (m.dropUser userId) where
  toSound := h.toSound.remove userId
  session := by
    intro k i
    rw [h.toSound.get_remove]
    constructor
    · intro hg
      split at hg
      · cases hg
      · rename_i hne
        obtain ⟨u, hu, hid⟩ := h.session.mp hg
        refine ⟨u, (m.user_filter _ k u).mpr ⟨hu, ?_⟩, hid⟩
        have : i ≠ userId := fun he => hne (by rw [hg, he])
        simpa [hid] using this
    · rintro ⟨u, hu, hid⟩
      obtain ⟨hu, hne⟩ := (m.user_filter _ k u).mp hu
      have hg := h.session.mpr ⟨u, hu, hid⟩
      have : i ≠ userId := by simpa [hid] using hne
      rw [if_neg (by simpa [hg] using this), hg]
  cached := by
    intro k u hu
    obtain ⟨hu, hne⟩ := (m.user_filter _ k u).mp hu
    rw [cache_remove, if_neg (by simpa using hne)]
    exact h.cached hu

theorem Refines.logIn {s' : State υ} {k : String} {u : υ} (h : Refines getUserId s m)
    (hm : ∀ i, s'.sessionIdToUserIdMap.get i =
      if i = some k then some (some (getUserId u))
      else if s.sessionIdToUserIdMap.get i = some (some (getUserId u)) then none
      else s.sessionIdToUserIdMap.get i)
    (hc : ∀ i, s'.userCache.get i = if i = getUserId u then some u else s.userCache.get i) :
    Refines getUserId s' (m.logIn k u) where
  toSound := h.toSound.of_logIn hm hc
  session := by
    intro t i
    rw [hm]
    by_cases ht : t = k
    · subst ht
      simp only [if_true, Option.some.injEq, m.user_logIn]
      constructor
      · rintro rfl
        exact ⟨u, .inl ⟨trivial, rfl⟩, rfl⟩
      · rintro ⟨v, ⟨_, rfl⟩ | ⟨hne, _⟩, hid⟩
        · exact hid
        · exact absurd rfl hne
    · rw [if_neg (by simpa using ht)]
      constructor
      · intro hg
        split at hg
        · cases hg
        · rename_i hne
          obtain ⟨v, hv, hid⟩ := h.session.mp hg
          refine ⟨v, (m.user_logIn k t u v).mpr (.inr ⟨ht, fun he => hne ?_, hv⟩), hid⟩
          rw [hg, ← he, hid]
      · rintro ⟨v, hv, hid⟩
        obtain ⟨he, _⟩ | ⟨_, hne, hv⟩ := (m.user_logIn k t u v).mp hv
        · exact absurd he ht
        · have hg := h.session.mpr ⟨v, hv, hid⟩
          rw [if_neg, hg]
          rw [hg, ← hid]
          simpa using hne
  cached := by
    intro t v hv
    rw [hc]
    obtain ⟨_, rfl⟩ | ⟨_, hne, hv⟩ := (m.user_logIn k t u v).mp hv
    · exact if_pos rfl
    · rw [if_neg hne]
      exact h.cached hv

theorem Refines.endSession (h : Refines getUserId s m) {k : String} (hk : isNotBlank (some k)) :
    ∃ r s', (endSession getUserId (some k)).run s = (.ok r, s') ∧
      Refines getUserId s' (m.dropSession k) := by
  rcases h.endSession_cases (some k) with
    ⟨hn, _⟩ | ⟨_, hg, hr⟩ | ⟨u, _, hg, hc, hr⟩ | ⟨userId, _, hg, hc, _⟩
  · rw [hk] at hn
    cases hn
  · refine ⟨_, _, hr, ?_⟩
    have hu : m.user k = none := by
      rw [← h.getUser_eq]
      simp [getUser, hg]
    rwa [Model.dropSession_of_none hu]
  · refine ⟨_, _, hr, ?_⟩
    obtain ⟨v, hv, hid⟩ := h.session.mp hg
    rw [← hid, ← Model.dropUser_eq_dropSession hv]
    exact h.dropUser _
  · obtain ⟨v, hv, hid⟩ := h.session.mp hg
    have hcv := h.cached hv
    rw [hid, hc] at hcv
    cases hcv

theorem Refines.forceLogout (h : Refines getUserId s m) (userId : Int) :
    ∃ r s', (forceLogout userId).run s = (.ok r, s') ∧
      Refines getUserId s' (m.dropUser userId) := by
  obtain ⟨hno, hr⟩ | ⟨⟨k, hg⟩, ⟨u, _, hr⟩ | ⟨hc, _⟩⟩ := h.forceLogout_cases userId
  · refine ⟨_, _, hr, ?_⟩
    rw [Model.dropUser_of_absent fun k u hu hid => hno (some k) (h.session.mpr ⟨u, hu, hid⟩)]
    exact h
  · exact ⟨_, _, hr, h.dropUser userId⟩
  · obtain ⟨t, _, rfl, _⟩ := h.no_null hg
    obtain ⟨v, hv, hid⟩ := h.session.mp hg
    have hcv := h.cached hv
    rw [hid, hc] at hcv
    cases hcv

variable [DecidableEq υ]

/-- One call: an accepted one returns and moves the model's way, a refused one throws and
leaves the maps alone. -/
theorem Refines.step (h : Refines getUserId s m) {c : Call υ} (hc : c.invalidates = false) :
    Refines getUserId (after getUserId s c) (m.step getUserId c) ∧
      (c.accepted getUserId → ∃ r, ((call getUserId c).run s).1 = .ok r) := by
  have hend : ∀ {c : Call υ} {sessionId : Option String},
      call getUserId c = SessionService.endSession getUserId sessionId →
      c.accepted getUserId = isNotBlank sessionId →
      (∀ k, sessionId = some k → isNotBlank (some k) → m.step getUserId c = m.dropSession k) →
      Refines getUserId (after getUserId s c) (m.step getUserId c) ∧
        (c.accepted getUserId → ∃ r, ((call getUserId c).run s).1 = .ok r) := by
    intro c sessionId hcall hacc hstep
    rw [after, hcall, hacc]
    cases hk : isNotBlank sessionId with
    | false =>
      have hm : m.step getUserId c = m := if_neg (by simp [hacc, hk])
      obtain ⟨e, hr⟩ := endSession_refused hk s
      rw [hr, hm]
      exact ⟨h, by simp⟩
    | true =>
      obtain ⟨k, rfl⟩ := isNotBlank_some hk
      obtain ⟨r, s', hr, href⟩ := h.endSession hk
      rw [hr, hstep k rfl hk]
      exact ⟨href, fun _ => ⟨r, rfl⟩⟩
  cases c with
  | handleUserLogIn sessionId user =>
    cases ha : loginAccepted getUserId sessionId user with
    | false =>
      obtain ⟨e, hr⟩ := handleUserLogIn_refused ha s
      have hs : after getUserId s (.handleUserLogIn sessionId user) = s := by
        simp [after, call, Prog.run_bind, hr]
      have hm : m.step getUserId (.handleUserLogIn sessionId user) = m := by
        simp [Model.step, Call.accepted, ha]
      rw [hs, hm]
      exact ⟨h, by simp [Call.accepted, ha]⟩
    | true =>
      obtain ⟨k, u, rfl, rfl, hk, hu⟩ := loginAccepted_some ha
      obtain ⟨s', hr, hmap, hcache⟩ := h.logIn_run k u
      have hrun : (call getUserId (.handleUserLogIn (some k) (some u))).run s = (.ok none, s') := by
        simp [call, Prog.run_bind, handleUserLogIn_accepted hk hu, hr]
      have hm : m.step getUserId (.handleUserLogIn (some k) (some u)) = m.logIn k u := by
        simp [Model.step, Call.accepted, ha]
      rw [after, hrun, hm]
      exact ⟨h.logIn hmap hcache, fun _ => ⟨_, rfl⟩⟩
  | handleUserLogOut sessionId | handleUserSessionExpired sessionId =>
    refine hend rfl rfl fun k hk hb => ?_
    subst hk
    simp [Model.step, Call.accepted, hb]
  | forceLogout userId =>
    obtain ⟨r, s', hr, href⟩ := h.forceLogout userId
    have hm : m.step getUserId (.forceLogout userId) = m.dropUser userId := by
      simp [Model.step, Call.accepted]
    rw [after, call, hr, hm]
    exact ⟨href, fun _ => ⟨r, rfl⟩⟩
  | invalidateUserCache userId => cases hc
  | restart => exact ⟨refines_init, fun _ => ⟨_, rfl⟩⟩
  | stop =>
    refine ⟨?_, fun _ => ⟨_, rfl⟩⟩
    exact {
      h.toSound.step .stop with
      session := by simp [after, call, Prog.run_bind, stop, clearSessionStorage, Model.step,
        Call.accepted, Model.empty]
      cached := by simp [Model.step, Call.accepted, Model.empty] }

/-- Over every run of logins, logouts, expiries, forced logouts, restarts and stops the
service answers as the reference map does, the next call returns unless its arguments are
refused, and it leaves the entries it is not about. -/
theorem refines_reference_map {calls : List (Call υ)}
    (hr : Run (total (after getUserId)) (fun _ _ c => c.invalidates = false) init calls s) :
    ∃ m, Run (total (Model.step getUserId)) AnyStep .empty calls m ∧
      (∀ k, getUser s (some k) = m.user k) ∧
      (∀ k, isSessionLoggedIn s (some k) = (m.user k).isSome) ∧
      (∀ userId, isUserLoggedIn s userId ↔ ∃ k u, m.user k = some u ∧ getUserId u = userId) ∧
      ∀ c : Call υ, c.invalidates = false →
        (c.accepted getUserId → ∃ r, ((call getUserId c).run s).1 = .ok r) ∧
        ∀ k, ¬ c.Concerns getUserId m k →
          getUser (after getUserId s c) (some k) = getUser s (some k) := by
  obtain ⟨m, hm, href⟩ : ∃ m, Run (total (Model.step getUserId)) AnyStep .empty calls m ∧
      Refines getUserId s m := by
    refine hr.simulates (Refines getUserId) refines_init ?_
    intro h s t c s' hR hc hs
    cases hs
    exact ⟨_, rfl, (hR.step hc).1⟩
  refine ⟨m, hm, href.getUser_eq, href.sessionLoggedIn, href.userLoggedIn, fun c hc => ?_⟩
  obtain ⟨hafter, hok⟩ := href.step hc
  refine ⟨hok, fun k hk => ?_⟩
  rw [hafter.getUser_eq, href.getUser_eq]
  exact m.step_frame c k hk

/-- Two users, the first of whom moves to the second one's session. -/
theorem refines_reference_map_relogin :
    ∃ m : Model User.userId, Run (total (Model.step User.userId)) AnyStep .empty
      [.handleUserLogIn (some "A") (some user1), .handleUserLogIn (some "B") (some user2),
        .handleUserLogIn (some "B") (some user1)] m ∧
      m.user "B" = some user1 :=
  have hr : Run (total (after User.userId)) (fun _ _ c => c.invalidates = false) init
      ([] ++ [.handleUserLogIn (some "A") (some user1)] ++
        [.handleUserLogIn (some "B") (some user2)] ++
        [.handleUserLogIn (some "B") (some user1)]) _ :=
    .snoc (.snoc (.snoc .nil rfl rfl) rfl rfl) rfl rfl
  have ⟨m, hm, hget, _⟩ := refines_reference_map hr
  ⟨m, hm, (hget "B").symm.trans (by decide)⟩

end InsightsAssist.SessionService
