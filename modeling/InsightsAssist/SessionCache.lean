import InsightsAssist.Runs
import InsightsAssist.SessionMaps

/-! Which users are cached, and which users are on a session. The two sets part ways by
`invalidateUserCache`, by `stop`, and by a login on a session that another user holds. -/
namespace InsightsAssist.SessionService
open Java Runs
variable {υ : Type} {getUserId : υ → Int} {s s' : State υ} {c : Call υ} {userId : Int}

def onSession (s : State υ) (userId : Int) : Prop :=
  ∃ k, s.sessionIdToUserIdMap.get k = some (some userId)

def cached (s : State υ) (userId : Int) : Prop := ∃ u, s.userCache.get userId = some u

instance (s : State υ) (userId : Int) : Decidable (onSession s userId) :=
  decidable_of_iff _ (s.sessionIdToUserIdMap.containsValue_iff (some userId))

instance (s : State υ) (userId : Int) : Decidable (cached s userId) :=
  decidable_of_iff _ (s.userCache.containsKey_iff userId)

def CacheMatchesSessions (s : State υ) : Prop := ∀ userId, cached s userId ↔ onSession s userId

/-- Whether a call leaves the user invalidated: an accepted login caches the user again. -/
def invalidatedBy (getUserId : υ → Int) (userId : Int) (before : Bool) : Call υ → Bool
  | .invalidateUserCache i => before || i = userId
  | .handleUserLogIn sessionId user =>
    before && !(loginAccepted getUserId sessionId user && user.any fun u => getUserId u = userId)
  | _ => before

def invalidatedSinceLogIn (getUserId : υ → Int) (userId : Int) (calls : List (Call υ)) : Bool :=
  calls.foldl (invalidatedBy getUserId userId) false

/-- The call takes a session away from its user without taking the user out of the cache. -/
def LeavesUserBehind (getUserId : υ → Int) (s : State υ) : Call υ → Prop
  | .handleUserLogIn sessionId user => loginAccepted getUserId sessionId user ∧
      ∃ userId, s.sessionIdToUserIdMap.get sessionId = some (some userId) ∧
        ∀ u ∈ user, getUserId u ≠ userId
  | .stop => ∃ userId, onSession s userId
  | _ => False

/-- What a call does for one user: logs it in, takes it out of both maps, takes it out of the
cache alone, or leaves its cache entry and adds no session to it. -/
inductive UserEffect (getUserId : υ → Int) (s : State υ) (c : Call υ) (s' : State υ)
    (userId : Int) : Prop
  | loggedIn (hs : onSession s' userId) (hc : cached s' userId)
      (hi : ∀ b, invalidatedBy getUserId userId b c = false)
  | removed (hs : ¬ onSession s' userId) (hc : ¬ cached s' userId)
  | uncached (hs : onSession s' userId ↔ onSession s userId) (hc : ¬ cached s' userId)
      (hi : ∀ b, invalidatedBy getUserId userId b c = true)
  | kept (hs : onSession s' userId → onSession s userId)
      (hk : ¬ LeavesUserBehind getUserId s c → onSession s userId → onSession s' userId)
      (hc : cached s' userId ↔ cached s userId)
      (hi : ∀ b, invalidatedBy getUserId userId b c = b)

theorem UserEffect.same (hi : ∀ b, invalidatedBy getUserId userId b c = b) :
    UserEffect getUserId s c s userId :=
  .kept id (fun _ h => h) .rfl hi

theorem UserEffect.of_remove (h : Sound getUserId s) (removed : Int)
    (hi : ∀ b, invalidatedBy getUserId userId b c = b) :
    UserEffect getUserId s c (removeUserFromMaps removed s) userId := by
  have hs : onSession (removeUserFromMaps removed s) userId ↔
      onSession s userId ∧ userId ≠ removed := by
    constructor
    · rintro ⟨k, hk⟩
      rw [h.get_remove] at hk
      split at hk
      · cases hk
      · rename_i hne
        exact ⟨⟨k, hk⟩, fun he => hne (by rw [hk, he])⟩
    · rintro ⟨⟨k, hk⟩, hne⟩
      refine ⟨k, ?_⟩
      rw [h.get_remove, if_neg (by simpa [hk] using hne), hk]
  by_cases he : userId = removed
  · refine .removed (fun hon => (hs.mp hon).2 he) ?_
    simp [cached, cache_remove, he]
  · refine .kept (fun hon => (hs.mp hon).1) (fun _ hon => hs.mpr ⟨hon, he⟩) ?_ hi
    simp [cached, cache_remove, he]

theorem UserEffect.of_logIn {k : String} {u : υ} (hk : isNotBlank (some k)) (hu : 0 < getUserId u)
    (hm : ∀ i, s'.sessionIdToUserIdMap.get i =
      if i = some k then some (some (getUserId u))
      else if s.sessionIdToUserIdMap.get i = some (some (getUserId u)) then none
      else s.sessionIdToUserIdMap.get i)
    (hc : ∀ i, s'.userCache.get i = if i = getUserId u then some u else s.userCache.get i) :
    UserEffect getUserId s (.handleUserLogIn (some k) (some u)) s' userId := by
  have hacc : loginAccepted getUserId (some k) (some u) := by simp [loginAccepted, hk, hu]
  by_cases he : userId = getUserId u
  · subst he
    refine .loggedIn ⟨some k, by rw [hm, if_pos rfl]⟩ ⟨u, by rw [hc, if_pos rfl]⟩ fun b => ?_
    simp [invalidatedBy, hacc]
  · refine .kept ?_ ?_ (by simp [cached, hc, he]) fun b => ?_
    · rintro ⟨i, hi⟩
      rw [hm] at hi
      split at hi
      · cases hi
        exact absurd rfl he
      · split at hi
        · cases hi
        · exact ⟨i, hi⟩
    · rintro hleft ⟨i, hi⟩
      refine ⟨i, ?_⟩
      rw [hm]
      split
      · -- the session logged in on was this user's own
        rename_i hik
        subst hik
        exact absurd ⟨hacc, userId, hi, by simpa [eq_comm] using he⟩ hleft
      · rw [if_neg (by simpa [hi] using he), hi]
    · simp [invalidatedBy, hacc, Ne.symm he]

theorem Effect.forUser (h : Sound getUserId s) (he : Effect getUserId s c s') (userId : Int) :
    UserEffect getUserId s c s' userId := by
  have hend : ∀ {k : String}, c.endsSession = some k →
      ∀ b, invalidatedBy getUserId userId b c = b := by
    intro k hk b
    cases c <;> simp_all [Call.endsSession, invalidatedBy]
  cases he with
  | refused hr =>
    refine .same fun b => ?_
    cases c <;> simp_all [Call.accepted, invalidatedBy]
  | loggedIn hk hu hm hc => exact .of_logIn hk hu hm hc
  | notLoggedIn hc | notCached hc => exact .same (hend hc)
  | loggedOut hc => exact .of_remove h _ (hend hc)
  | forcedOut => exact .of_remove h _ fun _ => rfl
  | notForced => exact .same fun _ => rfl
  | @invalidated i =>
    by_cases hi : userId = i
    · subst hi
      refine .uncached .rfl ?_ fun b => by simp [invalidatedBy]
      simp [cached, invalidateUserCache, BiMap.get_remove]
    · refine .kept id (fun _ hon => hon) ?_ fun b => by simp [invalidatedBy, Ne.symm hi]
      simp [cached, invalidateUserCache, BiMap.get_remove, hi]
  | restarted => exact .removed (by simp [onSession, init]) (by simp [cached, init])
  | stopped =>
    refine .kept ?_ (fun hleft hon => absurd ⟨userId, hon⟩ hleft) .rfl fun _ => rfl
    rintro ⟨k, hk⟩
    simp [clearSessionStorage] at hk

/-- The users on a session are cached unless invalidated since. -/
def SessionsCached (getUserId : υ → Int) (calls : List (Call υ)) (s : State υ) : Prop :=
  ∀ userId, onSession s userId →
    (cached s userId ↔ invalidatedSinceLogIn getUserId userId calls = false)

def CacheExact (getUserId : υ → Int) (calls : List (Call υ)) (s : State υ) : Prop :=
  ∀ userId, cached s userId ↔
    onSession s userId ∧ invalidatedSinceLogIn getUserId userId calls = false

variable {calls : List (Call υ)}

theorem SessionsCached.step (h : SessionsCached getUserId calls s)
    (he : ∀ userId, UserEffect getUserId s c s' userId) :
    SessionsCached getUserId (calls ++ [c]) s' := by
  intro userId hon
  rw [invalidatedSinceLogIn, List.foldl_concat]
  cases he userId with
  | loggedIn _ hc hi => simp [hc, hi]
  | removed hs => exact absurd hon hs
  | uncached _ hc hi => simp [hc, hi]
  | kept hs _ hc hi =>
    rw [hc, hi]
    exact h userId (hs hon)

theorem CacheExact.step (h : CacheExact getUserId calls s)
    (hleft : ¬ LeavesUserBehind getUserId s c)
    (he : ∀ userId, UserEffect getUserId s c s' userId) :
    CacheExact getUserId (calls ++ [c]) s' := by
  intro userId
  rw [invalidatedSinceLogIn, List.foldl_concat]
  cases he userId with
  | loggedIn hs hc hi => simp [hs, hc, hi]
  | removed hs hc => simp [hs, hc]
  | uncached _ hc hi => simp [hc, hi]
  | kept hs hk hc hi =>
    have hon : onSession s' userId ↔ onSession s userId := ⟨hs, hk hleft⟩
    rw [hc, hi, hon]
    exact h userId

variable [DecidableEq υ]

/-- After every run a user on a session is cached exactly when not invalidated since its last
login. Where in addition no session was taken away from a user with the cache untouched,
nobody else is cached. -/
theorem cached_iff_onSession (s : State υ) (calls : List (Call υ)) :
    (Run (total (after getUserId)) AnyStep init calls s → SessionsCached getUserId calls s) ∧
    (Run (total (after getUserId)) (fun _ s c => ¬ LeavesUserBehind getUserId s c) init calls s →
      CacheExact getUserId calls s) := by
  constructor <;> intro hr
  · refine (hr.invariant (fun h s => Sound getUserId s ∧ SessionsCached getUserId h s) ?_ ?_).2
    · exact ⟨sound_init, fun userId ⟨k, hk⟩ => by simp [init] at hk⟩
    · rintro h s c _ _ ⟨hs, hi⟩ _ ⟨⟩
      exact ⟨hs.step c, hi.step fun userId => (hs.effect c).forUser hs userId⟩
  · refine (hr.invariant (fun h s => Sound getUserId s ∧ CacheExact getUserId h s) ?_ ?_).2
    · exact ⟨sound_init, fun userId => by simp [cached, onSession, init]⟩
    · rintro h s c _ _ ⟨hs, hi⟩ hleft ⟨⟩
      exact ⟨hs.step c, hi.step hleft fun userId => (hs.effect c).forUser hs userId⟩

theorem cached_iff_onSession_two_users :
    CacheExact User.userId [.handleUserLogIn (some "A") (some user1),
        .handleUserLogIn (some "B") (some user2), .handleUserLogOut (some "A")]
      (after User.userId (after User.userId (after User.userId init
        (.handleUserLogIn (some "A") (some user1))) (.handleUserLogIn (some "B") (some user2)))
        (.handleUserLogOut (some "A"))) := by
  refine (cached_iff_onSession _ _).2 (.snoc (h := [_, _]) (.snoc (h := [_]) (.snoc (h := [])
    .nil ?_ rfl) ?_ rfl) ?_ rfl)
  · rintro ⟨_, userId, hg, _⟩
    simp [init] at hg
  · rintro ⟨_, userId, hg, _⟩
    cases hg
  · exact id

/-- The two sets differ after an invalidation, after a login on an occupied session, and
after a stop. -/
theorem cache_differs_from_sessions :
    (∃ s, Run (total (after User.userId)) AnyStep init
      [.handleUserLogIn (some "A") (some user1), .invalidateUserCache 1] s ∧
        ¬ CacheMatchesSessions s) ∧
    (∃ s, Run (total (after User.userId)) AnyStep init
      [.handleUserLogIn (some "A") (some user1), .handleUserLogIn (some "A") (some user2)] s ∧
        ¬ CacheMatchesSessions s) ∧
    (∃ s, Run (total (after User.userId)) AnyStep init
      [.handleUserLogIn (some "A") (some user1), .stop] s ∧ ¬ CacheMatchesSessions s) := by
  refine ⟨⟨_, run_anyStep_iff.mpr rfl, fun h => ?_⟩, ⟨_, run_anyStep_iff.mpr rfl, fun h => ?_⟩,
    ⟨_, run_anyStep_iff.mpr rfl, fun h => ?_⟩⟩ <;>
  exact absurd (h 1) (by decide)

end InsightsAssist.SessionService
