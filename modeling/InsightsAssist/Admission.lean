import InsightsAssist.Dispatch

/-! Which requests reach which actions. The filter and the action service read the path of a
request differently; where they differ the filter is the stricter one. -/
namespace InsightsAssist.Dispatch
open Java
variable {σ υ : Type} {s t : σ} {cache : OrganisationCache} {request : Request}

/-- The derived path is the raw one without its trailing slashes; inner empty segments stay. -/
theorem deriveActionPath_eq_ok {pathInfo : Option String} {path : String} :
    (deriveActionPath pathInfo).run s = (.ok path, t) ↔ s = t ∧ ∃ raw, pathInfo = some raw ∧
      isNotBlank (some raw) ∧ raw.toList.head? = some '/' ∧ (∃ c ∈ raw.toList, c ≠ '/') ∧
      path = String.ofList (raw.toList.rdropWhile (· = '/')) := by
  have hparts : ∀ raw : String, raw.toList.head? = some '/' →
      (1 ≤ (split raw.toList '/').length ↔ ∃ c ∈ raw.toList, c ≠ '/') := by
    intro raw hraw
    have hmem : '/' ∈ raw.toList := List.mem_of_mem_head? hraw
    rw [Nat.one_le_iff_ne_zero, Ne, List.length_eq_zero_iff, split_eq_nil_iff]
    simp [hmem]
  simp only [deriveActionPath, Prog.run_bind_eq_ok, checkArgument_eq_ok, checkPositionIndex_eq_ok,
    Prog.run_pure, join_split, decide_eq_true_eq]
  constructor
  · rintro ⟨_, _, ⟨hb, rfl⟩, raw, _, hd, _, _, ⟨hhead, rfl⟩, _, _, ⟨hlen, rfl⟩, hpath⟩
    cases pathInfo with
    | none => simp at hd
    | some raw' =>
      obtain ⟨rfl, rfl⟩ := by simpa using hd
      obtain ⟨rfl, rfl⟩ := by simpa using hpath
      exact ⟨rfl, _, rfl, hb, hhead, (hparts _ hhead).mp hlen, rfl⟩
  · rintro ⟨rfl, raw, rfl, hb, hhead, hc, rfl⟩
    exact ⟨(), s, ⟨hb, rfl⟩, raw, s, rfl, (), s, ⟨hhead, rfl⟩, (), s, ⟨(hparts _ hhead).mpr hc, rfl⟩,
      rfl⟩

theorem doFilter_eq_chain : (doFilter cache request).run s = (.ok .chain, t) ↔
    s = t ∧ ∃ raw, request.pathInfo = some raw ∧ isNotBlank (some raw) ∧
      (pathsToPermissions.lookup raw = some .NONE ∨
        ∃ organisation, cache.getOrganisation request.organisationName = some organisation ∧
          organisation.enabled) := by
  simp only [doFilter, getMethodExpected, getPermissionExpected, Prog.run_bind]
  cases hraw : request.pathInfo with
  | none => simp [isNotBlank, isBlank]
  | some raw =>
    cases hb : isNotBlank (some raw) with
    | false => simp [hb]
    | true =>
      simp only [checkArgument_true, Prog.run_pure, Option.bind_some]
      by_cases hp : pathsToPermissions.lookup raw = some .NONE
      · simp [hp, hb]
      · cases ho : cache.getOrganisation request.organisationName with
        | none => simp [hp]
        | some organisation =>
          cases he : organisation.enabled <;> simp [hp, he, hb, isPermitted]

theorem actionNamed_eq_ok {path : String} {action : Action} :
    (actionNamed path).run s = (.ok action, t) ↔ s = t ∧ bindings.lookup path = some action := by
  unfold actionNamed
  cases bindings.lookup path with
  | none => simp
  | some bound => simp [and_comm]

variable {missing : MissingActions} {allActionPaths : List String}
  {sessions : SessionService.State υ} {action : Action} {flash flash' : Option String}

theorem getAction_eq_some :
    (getAction missing allActionPaths sessions request).run flash = (.ok (some action), flash') ↔
      flash = flash' ∧ ∃ path, (deriveActionPath request.pathInfo).run flash = (.ok path, flash) ∧
        path ∈ allActionPaths ∧ bindings.lookup path = some action ∧
        (action.requiresLogin missing →
          SessionService.isSessionLoggedIn sessions request.sessionId) := by
  rw [getAction, Prog.run_bind_eq_ok]
  constructor
  · rintro ⟨path, u, hpath, h⟩
    obtain ⟨rfl, -⟩ := deriveActionPath_eq_ok.mp hpath
    by_cases hmem : path ∈ allActionPaths
    · simp only [hmem, not_true_eq_false, if_false, Prog.run_bind_eq_ok, actionNamed_eq_ok] at h
      obtain ⟨bound, _, ⟨rfl, hb⟩, h⟩ := h
      cases hl : bound.requiresLogin missing with
      | false =>
        obtain ⟨rfl, rfl⟩ : bound = action ∧ flash = flash' := by simpa [hl] using h
        exact ⟨rfl, path, hpath, hmem, hb, by simp [hl]⟩
      | true =>
        cases hs : SessionService.isSessionLoggedIn sessions request.sessionId with
        | false => simp [hl, hs, Prog.run_bind] at h
        | true =>
          obtain ⟨rfl, rfl⟩ : bound = action ∧ flash = flash' := by simpa [hl, hs] using h
          exact ⟨rfl, path, hpath, hmem, hb, fun _ => rfl⟩
    · simp [hmem] at h
  · rintro ⟨rfl, path, hpath, hmem, hb, hl⟩
    have hnamed := (actionNamed_eq_ok (s := flash)).mpr ⟨rfl, hb⟩
    refine ⟨path, flash, hpath, ?_⟩
    cases hr : action.requiresLogin missing <;>
      simp_all [Prog.run_bind]

/-- A path in the permission table has no trailing slash, so it derives to itself. -/
theorem permission_path_derives {raw : String} {mode : Mode}
    (h : pathsToPermissions.lookup raw = some mode) :
    String.ofList (raw.toList.rdropWhile (· = '/')) = raw := by
  have htable : ∀ entry ∈ pathsToPermissions,
      entry.1.toList.rdropWhile (· = '/') = entry.1.toList := by decide
  obtain ⟨front, back, hmem, _⟩ := List.lookup_eq_some_iff.mp h
  have hraw := htable (raw, mode) (by simp [hmem])
  rw [hraw, String.ofList_toList]

/-- A request that passes the filter and is given an action: the path the action is bound to
has permission NONE or the request names a cached and enabled organisation, and an action that
requires login has a logged-in session. -/
theorem dispatched_only_if_permitted (hfilter : (doFilter cache request).run s = (.ok .chain, t))
    (haction : (getAction missing allActionPaths sessions request).run flash =
      (.ok (some action), flash')) :
    ∃ path, (deriveActionPath request.pathInfo).run flash = (.ok path, flash) ∧
      bindings.lookup path = some action ∧
      (pathsToPermissions.lookup path = some .NONE ∨
        ∃ organisation, cache.getOrganisation request.organisationName = some organisation ∧
          organisation.enabled) ∧
      (action.requiresLogin missing →
        SessionService.isSessionLoggedIn sessions request.sessionId) := by
  obtain ⟨_, raw, hraw, _, hpermitted⟩ := doFilter_eq_chain.mp hfilter
  obtain ⟨_, path, hpath, _, hbound, hlogin⟩ := getAction_eq_some.mp haction
  refine ⟨path, hpath, hbound, hpermitted.imp_left fun hnone => ?_, hlogin⟩
  obtain ⟨_, raw', hraw', _, _, _, rfl⟩ := deriveActionPath_eq_ok.mp hpath
  obtain rfl : raw = raw' := by simpa [hraw] using hraw'
  rwa [permission_path_derives hnone]

def acmeCache : OrganisationCache where
  nameToIdMap := (BiMap.empty.put (some "acme") 1).getD .empty
  idToOrganisationMap := AList.insert 1 ⟨1, "acme", true⟩ ∅

/-- A path with trailing slashes, whose raw form is in neither table. -/
def downloadRequest : Request where
  pathInfo := some "/api/v1/downloadReport//"
  parameter name := if name = "organisation" then some "acme" else none
  sessionId := some "A"

theorem dispatched_only_if_permitted_download :
    ∃ path, (deriveActionPath downloadRequest.pathInfo).run () = (.ok path, ()) ∧
      bindings.lookup path = some .DownloadReport ∧
      (pathsToPermissions.lookup path = some .NONE ∨
        ∃ organisation, acmeCache.getOrganisation downloadRequest.organisationName =
          some organisation ∧ organisation.enabled) := by
  have hfilter : (doFilter acmeCache downloadRequest).run () = (.ok .chain, ()) := by rfl
  have haction : (getAction ⟨true, false⟩ registerAllPaths
      (SessionService.init : SessionService.State Nat) downloadRequest).run none =
      (.ok (some .DownloadReport), none) := by rfl
  obtain ⟨path, hpath, hbound, hpermitted, _⟩ := dispatched_only_if_permitted hfilter haction
  exact ⟨path, deriveActionPath_eq_ok.mpr ⟨rfl, (deriveActionPath_eq_ok.mp hpath).2⟩, hbound,
    hpermitted⟩

end InsightsAssist.Dispatch
