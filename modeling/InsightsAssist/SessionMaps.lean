import InsightsAssist.SessionService

/-! What each operation of the session service does to the two maps, said by lookups. -/
namespace InsightsAssist.SessionService
open Java
variable {υ : Type}

/-- No null key or value in the session map, and every cached user under its own id. -/
structure Sound (getUserId : υ → Int) (s : State υ) : Prop where
  no_null : ∀ {k v}, s.sessionIdToUserIdMap.get k = some v →
    ∃ sessionId userId, k = some sessionId ∧ v = some userId
  cached_id : ∀ {i u}, s.userCache.get i = some u → getUserId u = i

variable {getUserId : υ → Int} {s : State υ}

theorem sound_init : Sound getUserId (init : State υ) :=
  ⟨fun h => by simp [init] at h, fun h => by simp [init] at h⟩

theorem Sound.get_null (h : Sound getUserId s) : s.sessionIdToUserIdMap.get none = none := by
  cases hg : s.sessionIdToUserIdMap.get none with
  | none => rfl
  | some v =>
    obtain ⟨_, _, hk, _⟩ := h.no_null hg
    cases hk

theorem Sound.get_cases (h : Sound getUserId s) (k : Option String) :
    s.sessionIdToUserIdMap.get k = none ∨
      ∃ userId, s.sessionIdToUserIdMap.get k = some (some userId) := by
  cases hg : s.sessionIdToUserIdMap.get k with
  | none => exact .inl rfl
  | some v =>
    obtain ⟨_, userId, _, rfl⟩ := h.no_null hg
    exact .inr ⟨userId, rfl⟩

theorem Sound.sessionLoggedIn_eq (h : Sound getUserId s) (k : Option String) :
    isSessionLoggedIn s k = (s.sessionIdToUserIdMap.get k).isSome := by
  have hnull : s.sessionIdToUserIdMap.containsValue none = false := by
    rw [Bool.eq_false_iff, Ne, BiMap.containsValue_iff]
    rintro ⟨k, hk⟩
    obtain ⟨_, _, _, hv⟩ := h.no_null hk
    cases hv
  simp [isSessionLoggedIn, isLoggedIn, hnull, BiMap.containsKey]

theorem Sound.userLoggedIn_iff (h : Sound getUserId s) (userId : Int) :
    isUserLoggedIn s userId ↔ ∃ k, s.sessionIdToUserIdMap.get k = some (some userId) := by
  have hnull : s.sessionIdToUserIdMap.containsKey none = false := by
    simp [BiMap.containsKey, h.get_null]
  simp [isUserLoggedIn, isLoggedIn, hnull, BiMap.containsValue_iff]

theorem Sound.get_remove (h : Sound getUserId s) (userId : Int) (k : Option String) :
    (removeUserFromMaps userId s).sessionIdToUserIdMap.get k =
      if s.sessionIdToUserIdMap.get k = some (some userId) then none
      else s.sessionIdToUserIdMap.get k := by
  simp only [removeUserFromMaps, BiMap.get_remove, BiMap.get_removeValue]
  cases hk : s.sessionIdToUserIdMap.getKey (some userId) with
  | none =>
    -- nothing under this id: the second removal is of the null key
    by_cases hn : k = none
    · simp [hn, h.get_null]
    · simp [hn]
  | some k' =>
    have hk' := (s.sessionIdToUserIdMap.getKey_eq_some k' _).mp hk
    by_cases he : k = k'
    · simp [he, hk']
    · simp [he]

theorem cache_remove (userId i : Int) :
    (removeUserFromMaps userId s).userCache.get i =
      if i = userId then none else s.userCache.get i := by
  simp [removeUserFromMaps, BiMap.get_remove]

theorem get_of_removeUserFromMaps {userId : Int} {k : Option String} {v : Option Int}
    (h : (removeUserFromMaps userId s).sessionIdToUserIdMap.get k = some v) :
    s.sessionIdToUserIdMap.get k = some v := by
  simp only [removeUserFromMaps, BiMap.get_remove, BiMap.get_removeValue] at h
  split at h
  · cases h
  · split at h
    · cases h
    · exact h

theorem Sound.of_subset {s' : State υ} (h : Sound getUserId s)
    (hm : ∀ {k v}, s'.sessionIdToUserIdMap.get k = some v → s.sessionIdToUserIdMap.get k = some v)
    (hc : ∀ {i u}, s'.userCache.get i = some u → s.userCache.get i = some u) :
    Sound getUserId s' :=
  ⟨fun hg => h.no_null (hm hg), fun hg => h.cached_id (hc hg)⟩

theorem Sound.remove (h : Sound getUserId s) (userId : Int) :
    Sound getUserId (removeUserFromMaps userId s) := by
  refine h.of_subset (fun hg => ?_) (fun hg => ?_)
  · rw [h.get_remove] at hg
    split at hg
    · cases hg
    · exact hg
  · rw [cache_remove] at hg
    split at hg
    · cases hg
    · exact hg

theorem endSession_refused {sessionId : Option String} (hk : isNotBlank sessionId = false)
    (s : State υ) : ∃ e, (endSession getUserId sessionId).run s = (.error e, s) :=
  ⟨_, by simp [endSession, Prog.run_bind, hk]; rfl⟩

/-- Ending a session: the refusal of a blank id, a session that is not logged in, one whose
user is cached, and one whose user is not. -/
theorem Sound.endSession_cases (h : Sound getUserId s) (sessionId : Option String) :
    (isNotBlank sessionId = false ∧
      ∃ e, (endSession getUserId sessionId).run s = (.error e, s)) ∨
    (isNotBlank sessionId ∧ s.sessionIdToUserIdMap.get sessionId = none ∧
      (endSession getUserId sessionId).run s = (.ok none, s)) ∨
    (∃ u, isNotBlank sessionId ∧
      s.sessionIdToUserIdMap.get sessionId = some (some (getUserId u)) ∧
      s.userCache.get (getUserId u) = some u ∧
      (endSession getUserId sessionId).run s =
        (.ok (some u), removeUserFromMaps (getUserId u) s)) ∨
    (∃ userId, isNotBlank sessionId ∧
      s.sessionIdToUserIdMap.get sessionId = some (some userId) ∧
      s.userCache.get userId = none ∧
      (endSession getUserId sessionId).run s = (.error .nullPointer, s)) := by
  cases hk : isNotBlank sessionId with
  | false => exact .inl ⟨rfl, endSession_refused hk s⟩
  | true =>
    have hl := h.sessionLoggedIn_eq sessionId
    obtain hg | ⟨userId, hg⟩ := h.get_cases sessionId
    · refine .inr (.inl ⟨rfl, hg, ?_⟩)
      simp [endSession, Prog.run_bind, hk, hl, hg]
    · cases hc : s.userCache.get userId with
      | none =>
        refine .inr (.inr (.inr ⟨userId, rfl, hg, hc, ?_⟩))
        simp [endSession, Prog.run_bind, hk, hl, hg, getUser, retrieveUserFromCache, hc]
      | some u =>
        have hid := h.cached_id hc
        subst hid
        refine .inr (.inr (.inl ⟨u, rfl, hg, hc, ?_⟩))
        simp [endSession, Prog.run_bind, hk, hl, hg, getUser, retrieveUserFromCache, hc]

/-- Forcing a user out: not logged in, cached, or no longer cached; in the last case the
maps have changed by the time the log line fails. -/
theorem Sound.forceLogout_cases (h : Sound getUserId s) (userId : Int) :
    ((∀ k, s.sessionIdToUserIdMap.get k ≠ some (some userId)) ∧
      (forceLogout userId).run s = (.ok none, s)) ∨
    ((∃ k, s.sessionIdToUserIdMap.get k = some (some userId)) ∧
      ((∃ u, s.userCache.get userId = some u ∧
          (forceLogout userId).run s = (.ok (some u), removeUserFromMaps userId s)) ∨
        (s.userCache.get userId = none ∧
          (forceLogout userId).run s = (.error .nullPointer, removeUserFromMaps userId s)))) := by
  have hl := h.userLoggedIn_iff userId
  by_cases hk : ∃ k, s.sessionIdToUserIdMap.get k = some (some userId)
  · right
    refine ⟨hk, ?_⟩
    cases hc : s.userCache.get userId with
    | none =>
      refine .inr ⟨rfl, ?_⟩
      simp [forceLogout, Prog.run_bind, hl.mpr hk, retrieveUserFromCache, hc]
    | some u =>
      refine .inl ⟨u, rfl, ?_⟩
      simp [forceLogout, Prog.run_bind, hl.mpr hk, retrieveUserFromCache, hc]
  · left
    refine ⟨fun k hg => hk ⟨k, hg⟩, ?_⟩
    have hf : isUserLoggedIn s userId = false := Bool.eq_false_iff.mpr fun ht => hk (hl.mp ht)
    simp [forceLogout, Prog.run_bind, hf]

variable {sessionId : Option String} {user : Option υ}

def loginAccepted (getUserId : υ → Int) (sessionId : Option String) (user : Option υ) : Bool :=
  isNotBlank sessionId && user.any fun u => 0 < getUserId u

theorem loginAccepted_some (h : loginAccepted getUserId sessionId user) :
    ∃ k u, sessionId = some k ∧ user = some u ∧ isNotBlank (some k) ∧ 0 < getUserId u := by
  rw [loginAccepted, Bool.and_eq_true] at h
  obtain ⟨k, rfl⟩ := isNotBlank_some h.1
  cases user with
  | none => simp at h
  | some u => exact ⟨k, u, rfl, rfl, h.1, by simpa using h.2⟩

theorem Sound.of_logIn {s' : State υ} {k : String} {u : υ} (h : Sound getUserId s)
    (hm : ∀ i, s'.sessionIdToUserIdMap.get i =
      if i = some k then some (some (getUserId u))
      else if s.sessionIdToUserIdMap.get i = some (some (getUserId u)) then none
      else s.sessionIdToUserIdMap.get i)
    (hc : ∀ i, s'.userCache.get i = if i = getUserId u then some u else s.userCache.get i) :
    Sound getUserId s' := by
  constructor
  · intro i v hg
    rw [hm] at hg
    split at hg
    · rename_i hi
      cases hg
      exact ⟨k, getUserId u, hi, rfl⟩
    · split at hg
      · cases hg
      · exact h.no_null hg
  · intro i v hg
    rw [hc] at hg
    split at hg
    · rename_i hi
      cases hg
      exact hi.symm
    · exact h.cached_id hg

variable [DecidableEq υ]

/-- A login on a sound table goes through: the session and the id are bound afresh, and
everything else in both maps stays. -/
theorem Sound.logIn_run (h : Sound getUserId s) (sessionId : String) (user : υ) :
    ∃ s', (logIn (some sessionId) (getUserId user) user).run s = (.ok (), s') ∧
      (∀ k, s'.sessionIdToUserIdMap.get k =
        if k = some sessionId then some (some (getUserId user))
        else if s.sessionIdToUserIdMap.get k = some (some (getUserId user)) then none
        else s.sessionIdToUserIdMap.get k) ∧
      ∀ i, s'.userCache.get i = if i = getUserId user then some user else s.userCache.get i := by
  -- the table once the id has been dropped, if it was there
  let t := if isLoggedIn s (some sessionId) (some (getUserId user))
    then removeUserFromMaps (getUserId user) s else s
  have ht : ∀ k, t.sessionIdToUserIdMap.get k =
      if s.sessionIdToUserIdMap.get k = some (some (getUserId user)) then none
      else s.sessionIdToUserIdMap.get k := by
    intro k
    by_cases hl : isLoggedIn s (some sessionId) (some (getUserId user))
    · simp only [t, if_pos hl, h.get_remove]
    · have hk : s.sessionIdToUserIdMap.get k ≠ some (some (getUserId user)) := by
        intro hg
        have hv := (s.sessionIdToUserIdMap.containsValue_iff _).mpr ⟨k, hg⟩
        exact hl (by simp [isLoggedIn, hv])
      simp only [t, if_neg hl, if_neg hk]
  have hc : ∀ i, i ≠ getUserId user → t.userCache.get i = s.userCache.get i := by
    intro i hi
    by_cases hl : isLoggedIn s (some sessionId) (some (getUserId user))
    · simp only [t, if_pos hl, cache_remove, if_neg hi]
    · simp only [t, if_neg hl]
  obtain ⟨m, hm, hmget⟩ := t.sessionIdToUserIdMap.put_of_free (some sessionId)
    (some (getUserId user)) (by
      intro k hk
      rw [ht] at hk
      split at hk
      · cases hk
      · contradiction)
  obtain ⟨c, hput, hcget⟩ := t.userCache.put_of_free (getUserId user) user (by
    intro i hi
    by_cases he : i = getUserId user
    · exact he
    · rw [hc i he] at hi
      exact (h.cached_id hi).symm)
  refine ⟨⟨m, c⟩, ?_, ?_, ?_⟩
  · have hadd : (addUserToUserMaps (some sessionId) (getUserId user) user).run t =
        (.ok (), ⟨m, c⟩) := by
      simp [addUserToUserMaps, putSession, putUser, Prog.run_bind, hm, hput]
    rw [← hadd]
    by_cases hl : isLoggedIn s (some sessionId) (some (getUserId user))
    · simp only [logIn, Prog.run_bind, Prog.run_get, hl, if_true, Prog.run_modify, t]
    · simp only [logIn, Prog.run_bind, Prog.run_get, hl, Bool.false_eq_true, if_false, t]
  · intro k
    rw [hmget, ht]
  · intro i
    rw [hcget]
    split
    · rfl
    · rename_i hi
      exact hc i hi

theorem handleUserLogIn_accepted {k : String} {u : υ} (hk : isNotBlank (some k))
    (hu : 0 < getUserId u) (s : State υ) :
    (handleUserLogIn getUserId (some k) (some u)).run s = (logIn (some k) (getUserId u) u).run s := by
  simp [handleUserLogIn, Prog.run_bind, hk, hu]

theorem handleUserLogIn_refused (h : loginAccepted getUserId sessionId user = false) (s : State υ) :
    ∃ e, (handleUserLogIn getUserId sessionId user).run s = (.error e, s) := by
  cases hk : isNotBlank sessionId with
  | false => exact ⟨_, by simp [handleUserLogIn, Prog.run_bind, hk]; rfl⟩
  | true =>
    cases user with
    | none => exact ⟨_, by simp [handleUserLogIn, Prog.run_bind, hk]; rfl⟩
    | some u =>
      have hu : ¬ 0 < getUserId u := by simpa [loginAccepted, hk] using h
      exact ⟨_, by simp [handleUserLogIn, Prog.run_bind, hk, hu]; rfl⟩

theorem addUserToUserMaps_binds {userId : Int} {u : υ} {k : Option String} {v : Option Int}
    (h : ((addUserToUserMaps sessionId userId u).run s).2.sessionIdToUserIdMap.get k = some v) :
    (k = sessionId ∧ v = some userId) ∨ s.sessionIdToUserIdMap.get k = some v := by
  cases hm : s.sessionIdToUserIdMap.put sessionId (some userId) with
  | none =>
    right
    simpa [addUserToUserMaps, putSession, Prog.run_bind, hm] using h
  | some m =>
    refine BiMap.get_of_put hm ?_
    cases hc : s.userCache.put userId u <;>
      simpa [addUserToUserMaps, putSession, putUser, Prog.run_bind, hm, hc] using h

/-- On any table, and also when it throws half way, a login binds no session but its own, and
that one to the positive id of the user it was given. -/
theorem handleUserLogIn_binds {k : Option String} {v : Option Int}
    (h : ((handleUserLogIn getUserId sessionId user).run s).2.sessionIdToUserIdMap.get k = some v) :
    (∃ u, user = some u ∧ 0 < getUserId u ∧ isNotBlank sessionId ∧ k = sessionId ∧
        v = some (getUserId u)) ∨
      s.sessionIdToUserIdMap.get k = some v := by
  cases ha : loginAccepted getUserId sessionId user with
  | false =>
    obtain ⟨e, hr⟩ := handleUserLogIn_refused ha s
    rw [hr] at h
    exact .inr h
  | true =>
    obtain ⟨t, u, rfl, rfl, hk, hu⟩ := loginAccepted_some ha
    rw [handleUserLogIn_accepted hk hu] at h
    have hadd : (k = some t ∧ v = some (getUserId u)) ∨ s.sessionIdToUserIdMap.get k = some v := by
      by_cases hl : isLoggedIn s (some t) (some (getUserId u))
      · simp only [logIn, Prog.run_bind, Prog.run_get, hl, if_true, Prog.run_modify] at h
        exact (addUserToUserMaps_binds h).imp_right get_of_removeUserFromMaps
      · simp only [logIn, Prog.run_bind, Prog.run_get, hl, Bool.false_eq_true, if_false] at h
        exact addUserToUserMaps_binds h
    exact hadd.imp_left fun ⟨hk', hv⟩ => ⟨u, rfl, hu, hk, hk', hv⟩

def Call.accepted (getUserId : υ → Int) : Call υ → Bool
  | .handleUserLogIn sessionId user => loginAccepted getUserId sessionId user
  | .handleUserLogOut sessionId => isNotBlank sessionId
  | .handleUserSessionExpired sessionId => isNotBlank sessionId
  | _ => true

def Call.endsSession : Call υ → Option String
  | .handleUserLogOut sessionId => sessionId
  | .handleUserSessionExpired sessionId => sessionId
  | _ => none

/-- Everything a call can do to a sound table, whether it returns or throws. -/
inductive Effect (getUserId : υ → Int) (s : State υ) : Call υ → State υ → Prop
  | refused {c : Call υ} (h : c.accepted getUserId = false) : Effect getUserId s c s
  | loggedIn {k : String} {u : υ} {s' : State υ} (hk : isNotBlank (some k)) (hu : 0 < getUserId u)
      (hm : ∀ i, s'.sessionIdToUserIdMap.get i =
        if i = some k then some (some (getUserId u))
        else if s.sessionIdToUserIdMap.get i = some (some (getUserId u)) then none
        else s.sessionIdToUserIdMap.get i)
      (hc : ∀ i, s'.userCache.get i = if i = getUserId u then some u else s.userCache.get i) :
      Effect getUserId s (.handleUserLogIn (some k) (some u)) s'
  | notLoggedIn {c : Call υ} {k : String} (hc : c.endsSession = some k)
      (hg : s.sessionIdToUserIdMap.get (some k) = none) : Effect getUserId s c s
  | notCached {c : Call υ} {k : String} {userId : Int} (hc : c.endsSession = some k)
      (hg : s.sessionIdToUserIdMap.get (some k) = some (some userId))
      (hu : s.userCache.get userId = none) : Effect getUserId s c s
  | loggedOut {c : Call υ} {k : String} {userId : Int} (hc : c.endsSession = some k)
      (hg : s.sessionIdToUserIdMap.get (some k) = some (some userId)) :
      Effect getUserId s c (removeUserFromMaps userId s)
  | forcedOut {userId : Int} : Effect getUserId s (.forceLogout userId) (removeUserFromMaps userId s)
  | notForced {userId : Int} (h : ∀ k, s.sessionIdToUserIdMap.get k ≠ some (some userId)) :
      Effect getUserId s (.forceLogout userId) s
  | invalidated {userId : Int} :
      Effect getUserId s (.invalidateUserCache userId) (invalidateUserCache userId s)
  | restarted : Effect getUserId s .restart init
  | stopped : Effect getUserId s .stop (clearSessionStorage s)

theorem Sound.effect (h : Sound getUserId s) (c : Call υ) :
    Effect getUserId s c (after getUserId s c) := by
  have hend : ∀ {c : Call υ} {sessionId : Option String},
      call getUserId c = endSession getUserId sessionId → c.endsSession = sessionId →
      c.accepted getUserId = isNotBlank sessionId →
      Effect getUserId s c (after getUserId s c) := by
    intro c sessionId hcall hses hacc
    rw [after, hcall]
    rcases h.endSession_cases sessionId with
      ⟨hk, e, hr⟩ | ⟨hk, hg, hr⟩ | ⟨u, hk, hg, _, hr⟩ | ⟨userId, hk, hg, hn, hr⟩ <;> rw [hr]
    · exact .refused (hacc.trans hk)
    · obtain ⟨k, rfl⟩ := isNotBlank_some hk
      exact .notLoggedIn hses hg
    · obtain ⟨k, rfl⟩ := isNotBlank_some hk
      exact .loggedOut hses hg
    · obtain ⟨k, rfl⟩ := isNotBlank_some hk
      exact .notCached hses hg hn
  cases c with
  | handleUserLogIn sessionId user =>
    cases ha : loginAccepted getUserId sessionId user with
    | false =>
      obtain ⟨e, hr⟩ := handleUserLogIn_refused ha s
      have hs : after getUserId s (.handleUserLogIn sessionId user) = s := by
        simp [after, call, Prog.run_bind, hr]
      rw [hs]
      exact .refused ha
    | true =>
      obtain ⟨k, u, rfl, rfl, hk, hu⟩ := loginAccepted_some ha
      obtain ⟨s', hr, hm, hc⟩ := h.logIn_run k u
      have hs : after getUserId s (.handleUserLogIn (some k) (some u)) = s' := by
        simp [after, call, Prog.run_bind, handleUserLogIn_accepted hk hu, hr]
      rw [hs]
      exact .loggedIn hk hu hm hc
  | handleUserLogOut sessionId => exact hend rfl rfl rfl
  | handleUserSessionExpired sessionId => exact hend rfl rfl rfl
  | forceLogout userId =>
    obtain ⟨hn, hr⟩ | ⟨_, ⟨u, _, hr⟩ | ⟨_, hr⟩⟩ := h.forceLogout_cases userId <;>
      rw [after, call, hr]
    · exact .notForced hn
    · exact .forcedOut
    · exact .forcedOut
  | invalidateUserCache userId => exact .invalidated
  | restart => exact .restarted
  | stop => exact .stopped

theorem Sound.step (h : Sound getUserId s) (c : Call υ) :
    Sound getUserId (after getUserId s c) := by
  generalize after getUserId s c = s', h.effect c = he
  cases he with
  | refused | notLoggedIn | notCached | notForced => exact h
  | loggedIn _ _ hm hc => exact h.of_logIn hm hc
  | loggedOut | forcedOut => exact h.remove _
  | invalidated =>
    refine h.of_subset (fun hg => hg) (fun hg => ?_)
    rw [invalidateUserCache, BiMap.get_remove] at hg
    split at hg
    · cases hg
    · exact hg
  | restarted => exact sound_init
  | stopped =>
    refine h.of_subset (fun hg => ?_) (fun hg => hg)
    simp [clearSessionStorage] at hg

end InsightsAssist.SessionService
