import InsightsAssist.SessionCache

/-! The ways out of a session. They read the cached User, which may have been invalidated: a
logout and an expiry before they change the maps, a forced logout after it. -/
namespace InsightsAssist.SessionService
open Java Runs
variable {υ : Type}

/-- Sound, and every session under an id that a logout accepts. -/
structure Proper (getUserId : υ → Int) (s : State υ) : Prop extends Sound getUserId s where
  not_blank : ∀ {k v}, s.sessionIdToUserIdMap.get k = some v → isNotBlank k

def LoggedInCached (s : State υ) : Prop := ∀ userId, onSession s userId → cached s userId

variable {getUserId : υ → Int} {s s' : State υ} {c : Call υ} {userId : Int}
  {sessionId : Option String}

theorem proper_init : Proper getUserId (init : State υ) :=
  ⟨sound_init, fun h => by simp [init] at h⟩

theorem Effect.get_of_get {k : Option String} {v : Option Int} (he : Effect getUserId s c s')
    (hg : s'.sessionIdToUserIdMap.get k = some v) :
    isNotBlank k ∨ s.sessionIdToUserIdMap.get k = some v := by
  cases he with
  | refused | notLoggedIn | notCached | notForced | invalidated => exact .inr hg
  | loggedIn hk hu hm hc =>
    rw [hm] at hg
    split at hg
    · rename_i heq
      rw [heq]
      exact .inl hk
    · split at hg
      · cases hg
      · exact .inr hg
  | loggedOut | forcedOut => exact .inr (get_of_removeUserFromMaps hg)
  | restarted => simp [init] at hg
  | stopped => simp [clearSessionStorage] at hg

theorem Sound.remove_logged_out (h : Sound getUserId s) (userId : Int) :
    isUserLoggedIn (removeUserFromMaps userId s) userId = false := by
  rw [Bool.eq_false_iff, Ne, (h.remove userId).userLoggedIn_iff]
  intro ⟨k, hk⟩
  rw [h.get_remove] at hk
  split at hk
  · cases hk
  · contradiction

theorem Sound.endSession_unchanged {e : Throwable} (h : Sound getUserId s)
    (hr : (endSession getUserId sessionId).run s = (.error e, s')) : s' = s := by
  obtain ⟨_, e', hr'⟩ | ⟨_, _, hr'⟩ | ⟨u, _, _, _, hr'⟩ | ⟨i, _, _, _, hr'⟩ :=
    h.endSession_cases sessionId <;> rw [hr'] at hr <;> cases hr <;> rfl

variable [DecidableEq υ]

/-- The call returns, and neither the session nor its user is logged in afterwards. -/
def EndsWell (getUserId : υ → Int) (s : State υ) (c : Call υ) (sessionId : Option String) : Prop :=
  ∃ u s', (call getUserId c).run s = (.ok u, s') ∧ isSessionLoggedIn s' sessionId = false ∧
    ∀ userId, s.sessionIdToUserIdMap.get sessionId = some (some userId) →
      isUserLoggedIn s' userId = false

/-- Every way out works in this state, and what fails leaves the maps as they are. -/
structure ExitsWork (getUserId : υ → Int) (s : State υ) : Prop where
  logOut : ∀ sessionId, isSessionLoggedIn s sessionId →
    EndsWell getUserId s (.handleUserLogOut sessionId) sessionId
  expiry : ∀ sessionId, isSessionLoggedIn s sessionId →
    EndsWell getUserId s (.handleUserSessionExpired sessionId) sessionId
  forced : ∀ userId, isUserLoggedIn s userId →
    ∃ u s', (call getUserId (.forceLogout userId)).run s = (.ok u, s') ∧
      isUserLoggedIn s' userId = false
  unchanged : ∀ c e s', (call getUserId c).run s = (.error e, s') → s' = s

/-- The call takes the User of somebody who is logged in out of the cache. -/
def InvalidatesLoggedIn (s : State υ) : Call υ → Prop
  | .invalidateUserCache userId => isUserLoggedIn s userId
  | _ => False

theorem Proper.step (h : Proper getUserId s) (c : Call υ) :
    Proper getUserId (after getUserId s c) :=
  ⟨h.toSound.step c, fun hg => ((h.effect c).get_of_get hg).elim id h.not_blank⟩

theorem Proper.endsWell (h : Proper getUserId s) (hcached : LoggedInCached s)
    (hcall : call getUserId c = endSession getUserId sessionId)
    (hl : isSessionLoggedIn s sessionId) : EndsWell getUserId s c sessionId := by
  rw [h.sessionLoggedIn_eq, Option.isSome_iff_exists] at hl
  obtain ⟨v, hv⟩ := hl
  have hblank := h.not_blank hv
  obtain ⟨hk, _⟩ | ⟨_, hg, _⟩ | ⟨u, _, hg, _, hr⟩ | ⟨userId, _, hg, hn, _⟩ :=
    h.endSession_cases sessionId
  · simp [hk] at hblank
  · simp [hg] at hv
  · refine ⟨some u, _, hcall ▸ hr, ?_, fun userId hid => ?_⟩
    · rw [(h.remove _).sessionLoggedIn_eq, h.get_remove, if_pos hg]
      rfl
    · rw [hg] at hid
      cases hid
      exact h.remove_logged_out _
  · obtain ⟨u, hu⟩ := hcached userId ⟨sessionId, hg⟩
    simp [hn] at hu

theorem Sound.call_unchanged {e : Throwable} (h : Sound getUserId s) (hcached : LoggedInCached s)
    (hr : (call getUserId c).run s = (.error e, s')) : s' = s := by
  cases c with
  | handleUserLogIn sessionId user =>
    cases ha : loginAccepted getUserId sessionId user with
    | false =>
      obtain ⟨e', hr'⟩ := handleUserLogIn_refused ha s
      simp [call, Prog.run_bind, hr'] at hr
      exact hr.2.symm
    | true =>
      obtain ⟨k, u, rfl, rfl, hk, hu⟩ := loginAccepted_some ha
      obtain ⟨t, hr', _⟩ := h.logIn_run k u
      simp [call, Prog.run_bind, handleUserLogIn_accepted hk hu, hr'] at hr
  | handleUserLogOut sessionId => exact h.endSession_unchanged hr
  | handleUserSessionExpired sessionId => exact h.endSession_unchanged hr
  | forceLogout userId =>
    obtain ⟨_, hr'⟩ | ⟨hon, ⟨u, _, hr'⟩ | ⟨hn, _⟩⟩ := h.forceLogout_cases userId
    · simp [call, hr'] at hr
    · simp [call, hr'] at hr
    · obtain ⟨u, hu⟩ := hcached userId hon
      simp [hn] at hu
  | invalidateUserCache userId => simp [call, Prog.run_bind] at hr
  | restart => simp [call, Prog.run_bind] at hr
  | stop => simp [call, Prog.run_bind] at hr

theorem Proper.exitsWork_iff (h : Proper getUserId s) :
    ExitsWork getUserId s ↔ LoggedInCached s := by
  constructor
  · intro hw userId hon
    obtain ⟨u, t, hr, _⟩ := hw.forced userId ((h.userLoggedIn_iff userId).mpr hon)
    obtain ⟨hn, _⟩ | ⟨_, ⟨u', hu, _⟩ | ⟨_, hr'⟩⟩ := h.forceLogout_cases userId
    · obtain ⟨k, hk⟩ := hon
      exact absurd hk (hn k)
    · exact ⟨u', hu⟩
    · simp [call, hr'] at hr
  · intro hcached
    refine ⟨fun k hl => h.endsWell hcached rfl hl, fun k hl => h.endsWell hcached rfl hl, ?_,
      fun c e t hr => h.call_unchanged hcached hr⟩
    intro userId hl
    have hon := (h.userLoggedIn_iff userId).mp hl
    obtain ⟨hn, _⟩ | ⟨_, ⟨u, _, hr⟩ | ⟨hn, _⟩⟩ := h.forceLogout_cases userId
    · obtain ⟨k, hk⟩ := hon
      exact absurd hk (hn k)
    · exact ⟨_, _, hr, h.remove_logged_out userId⟩
    · obtain ⟨u, hu⟩ := hcached userId hon
      simp [hn] at hu

theorem Sound.loggedInCached_after (h : Sound getUserId s) (hcached : LoggedInCached s)
    (c : Call υ) : LoggedInCached (after getUserId s c) ↔ ¬ InvalidatesLoggedIn s c := by
  constructor
  · intro hafter hinv
    cases c with
    | invalidateUserCache userId =>
      have hon : onSession s userId := (h.userLoggedIn_iff userId).mp hinv
      obtain ⟨u, hu⟩ := hafter userId hon
      simp [after, call, Prog.run_bind, invalidateUserCache, BiMap.get_remove] at hu
    | _ => exact hinv
  · intro hinv userId hon
    cases (h.effect c).forUser h userId with
    | loggedIn _ hc _ => exact hc
    | removed hs _ => exact absurd hon hs
    | kept hs _ hc _ => exact hc.mpr (hcached userId (hs hon))
    | uncached hs _ hi =>
      have hon := hs.mp hon
      specialize hi false
      cases c with
      | invalidateUserCache i =>
        have hi : i = userId := by simpa [invalidatedBy] using hi
        subst hi
        exact absurd ((h.userLoggedIn_iff i).mpr hon) hinv
      | _ => simp [invalidatedBy] at hi

/-- In a run every state reached has working exits iff no step invalidates somebody who is
logged in. At the start nobody is. -/
theorem exits_work_iff (getUserId : υ → Int) (calls : List (Call υ)) (s : State υ) :
    ExitsWork getUserId (init : State υ) ∧
      (Run (total (after getUserId)) (fun _ s c => ExitsWork getUserId (after getUserId s c)) init
          calls s ↔
        Run (total (after getUserId)) (fun _ s c => ¬ InvalidatesLoggedIn s c) init calls s) := by
  have hinit : LoggedInCached (init : State υ) := fun userId ⟨k, hk⟩ => by simp [init] at hk
  refine ⟨proper_init.exitsWork_iff.mpr hinit, ?_, ?_⟩
  · refine Run.weaken_of_invariant (fun _ s => Proper getUserId s ∧ LoggedInCached s)
      ⟨proper_init, hinit⟩ ?_ ?_
    · rintro _ s c _ _ ⟨hs, _⟩ hw ⟨⟩
      exact ⟨hs.step c, (hs.step c).exitsWork_iff.mp hw⟩
    · rintro _ s c _ ⟨hs, hcached⟩ ⟨⟩ hw
      exact (hs.loggedInCached_after hcached c).mp ((hs.step c).exitsWork_iff.mp hw)
  · refine Run.weaken_of_invariant (fun _ s => Proper getUserId s ∧ LoggedInCached s)
      ⟨proper_init, hinit⟩ ?_ ?_
    · rintro _ s c _ _ ⟨hs, hcached⟩ hc ⟨⟩
      exact ⟨hs.step c, (hs.loggedInCached_after hcached c).mpr hc⟩
    · rintro _ s c _ ⟨hs, hcached⟩ ⟨⟩ hc
      exact (hs.step c).exitsWork_iff.mpr ((hs.loggedInCached_after hcached c).mpr hc)

/-- After a login and an invalidation the forced logout fails with the maps changed, and the
logout fails. -/
theorem exits_fail : ∃ s t, Run (total (after User.userId)) AnyStep init
    [.handleUserLogIn (some "A") (some user1), .invalidateUserCache 1] s ∧
      isSessionLoggedIn s (some "A") ∧
      (call User.userId (.handleUserLogOut (some "A"))).run s = (.error .nullPointer, s) ∧
      (call User.userId (.forceLogout 1)).run s = (.error .nullPointer, t) ∧
      isSessionLoggedIn t (some "A") = false ∧ ¬ ExitsWork User.userId s := by
  refine ⟨_, _, run_anyStep_iff.mpr rfl, rfl, rfl, rfl, rfl, fun hw => ?_⟩
  obtain ⟨u, t, hr, _⟩ := hw.forced 1 rfl
  cases hr

end InsightsAssist.SessionService
