import InsightsAssist.Admission
import InsightsAssist.RequestLog
import InsightsAssist.ResponseSecurity

/-! A request on its way through four of the five filters of web.xml and the servlet, and runs of
requests. Before these stands UrlRewriteFilter, of a library: what it rewrites it forwards, and the
forwarded request passes the four with its new path. Over the chain stands a machine that says which
action each request leads to. -/
namespace InsightsAssist.RequestChain
open Java Dispatch ResponseSecurityFilter
variable {ω υ κ : Type}

/-- `content` is what else the actions read of it, as headers and parts. -/
structure HttpServletRequest (κ : Type) where
  remoteAddr : List Char
  sessionId : String
  method : List Char
  servletPath : List Char
  pathInfo : Option String
  parameters : List Parameter
  content : κ

/-- The first value of a parameter. -/
def HttpServletRequest.getParameter (request : HttpServletRequest κ) (name : String) :
    Option String := do
  let parameter ← request.parameters.find? (·.name = name.toList)
  let values ← parameter.values
  let value ← values.head?
  value.map String.ofList

def HttpServletRequest.logged (request : HttpServletRequest κ) : RequestLogger.Request :=
  ⟨request.remoteAddr, request.sessionId.toList, request.method, request.servletPath,
    request.pathInfo.map String.toList⟩

def HttpServletRequest.dispatched (request : HttpServletRequest κ) : Dispatch.Request :=
  ⟨request.pathInfo, request.getParameter, some request.sessionId⟩

inductive Reply where
  | sendError (status : Nat)
  | error (code : ApiErrorCode)
  /-- what `HttpServlet` answers to the methods that the servlet does not override -/
  | httpServlet
  deriving DecidableEq, Repr

/-- The flash messages are by session; the world is all that the actions work on. -/
structure State (ω : Type) where
  logged : List (List Char)
  replies : List Reply
  executed : List Action
  flash : String → Option String
  world : ω

/-- `expected` is an organisation's own check of an address, `isCommitted` whether what was done
so far includes that the response has gone out. -/
structure Server (ω υ κ : Type) where
  missing : MissingActions
  allActionPaths : List String
  cache : ω → OrganisationCache
  sessions : ω → SessionService.State υ
  expected : Organisation → Mode → List Char → Bool
  execute : Action → HttpServletRequest κ → Java ω Unit
  isCommitted : ω → Bool

def SC_FORBIDDEN : Nat := 403
def SC_NOT_FOUND : Nat := 404
def SC_INTERNAL_SERVER_ERROR : Nat := 500

def reply (r : Reply) : Java (State ω) Unit :=
  modify fun s => { s with replies := s.replies ++ [r] }

/-! ### The filters, each with the rest of the chain -/

def requestLogger (request : HttpServletRequest κ) (chain : Java (State ω) Unit) :
    Java (State ω) Unit := do
  Prog.zoom (fun s => ⟨s.logged, false⟩) (fun t s => { s with logged := t.logged })
    (RequestLogger.info (RequestLogger.generateLogString request.logged))
  chain

def responseSecurityFilter (request : HttpServletRequest κ) (chain : Java (State ω) Unit) :
    Java (State ω) Unit := do
  let s ← get
  let t := ResponseSecurityFilter.doFilter request.parameters ⟨s.logged, none, false⟩
  set { s with
    logged := t.logged
    replies := s.replies ++ (t.error.map Reply.sendError).toList }
  if t.forwarded then chain else pure ()

def verifyPermissions (server : Server ω υ κ) (request : HttpServletRequest κ)
    (chain : Java (State ω) Unit) : Java (State ω) Unit := do
  let s ← get
  match ← Dispatch.doFilter (server.cache s.world) request.dispatched with
  | .chain => chain
  | .sendError code => reply (.error code)

def isExpectedRemoteAddress (server : Server ω υ κ) (organisation : Organisation)
    (permission : Option Mode) (remoteAddress : List Char) : Bool :=
  match permission with
  | none => true
  | some mode => server.expected organisation mode remoteAddress

/-- The permission is null whatever the path. -/
def verifyRemoteAddress (server : Server ω υ κ) (request : HttpServletRequest κ)
    (chain : Java (State ω) Unit) : Java (State ω) Unit := do
  let s ← get
  let organisation := (server.cache s.world).getOrganisation request.dispatched.organisationName
  let permission : Option Mode := none
  let flag := if organisation.isSome then 1 else 0
  if flag = 0 ∧ (permission = none ∨ permission = some .NONE) then chain
  else
    match organisation with
    | none => reply (.sendError SC_NOT_FOUND)
    | some organisation =>
      if !isExpectedRemoteAddress server organisation none request.remoteAddr then
        reply (.sendError SC_FORBIDDEN)
      else chain

/-! ### The servlet -/

/-- Once the response has gone out, no error can be sent. -/
def sendError (server : Server ω υ κ) (status : Nat) : Java (State ω) Unit := do
  let s ← get
  if server.isCommitted s.world then throw (.illegalState "response committed")
  else reply (.sendError status)

def executeAction (server : Server ω υ κ) (request : HttpServletRequest κ) (action : Action) :
    Java (State ω) Unit :=
  tryCatch
    (do
      modify fun s => { s with executed := s.executed ++ [action] }
      Prog.zoom State.world (fun world s => { s with world }) (server.execute action request))
    fun _ => sendError server SC_INTERNAL_SERVER_ERROR

def isSafeHTTPMethod (httpMethod : List Char) : Bool :=
  httpMethod.map Char.toUpper == "GET".toList || httpMethod.map Char.toUpper == "POST".toList

def processRequest (server : Server ω υ κ) (request : HttpServletRequest κ) :
    Java (State ω) Unit := do
  let s ← get
  let action ← Prog.zoom (fun s => s.flash request.sessionId)
    (fun message s => { s with flash := Function.update s.flash request.sessionId message })
    (Dispatch.getAction server.missing server.allActionPaths (server.sessions s.world)
      request.dispatched)
  match action with
  | none => reply (.sendError SC_NOT_FOUND)
  | some action =>
    if !isSafeHTTPMethod request.method then reply (.sendError SC_NOT_FOUND)
    else executeAction server request action

/-- `HttpServlet.service`: doHead calls doGet. -/
def service (server : Server ω υ κ) (request : HttpServletRequest κ) : Java (State ω) Unit :=
  if request.method = "GET".toList ∨ request.method = "HEAD".toList ∨
      request.method = "POST".toList then
    processRequest server request
  else reply .httpServlet

def serve (server : Server ω υ κ) (request : HttpServletRequest κ) : Java (State ω) Unit :=
  requestLogger request (responseSecurityFilter request (verifyPermissions server request
    (verifyRemoteAddress server request (service server request))))

def serveAll (server : Server ω υ κ) (s : State ω) (requests : List (HttpServletRequest κ)) :
    State ω :=
  requests.foldl (fun s request => ((serve server request).run s).2) s

/-! ### What the chain is for -/

structure Admitted (server : Server ω υ κ) (world : ω) (request : HttpServletRequest κ)
    (action : Action) : Prop where
  logs : (format (RequestLogger.generateLogString request.logged)).isSome
  clear : ∀ string ∈ strings request.parameters, ¬Spelled string
  path : ∃ raw, request.pathInfo = some raw ∧ isNotBlank (some raw) ∧
    raw.toList.head? = some '/' ∧
    String.ofList (raw.toList.rdropWhile (· = '/')) ∈ server.allActionPaths ∧
    bindings.lookup (String.ofList (raw.toList.rdropWhile (· = '/'))) = some action ∧
    (pathsToPermissions.lookup raw = some .NONE ∨
      ∃ organisation, (server.cache world).getOrganisation request.dispatched.organisationName =
        some organisation ∧ organisation.enabled)
  login : action.requiresLogin server.missing →
    SessionService.isSessionLoggedIn (server.sessions world) (some request.sessionId)
  method : request.method = "GET".toList ∨ request.method = "POST".toList

noncomputable def given (server : Server ω υ κ) (world : ω) (request : HttpServletRequest κ) :
    Option Action :=
  open Classical in
  if h : ∃ action, Admitted server world request action then some h.choose else none

/-- What a request does to the world: only the action that it is given works on it. -/
noncomputable def effect (server : Server ω υ κ) (world : ω) (request : HttpServletRequest κ) : ω :=
  match given server world request with
  | some action => ((server.execute action request).run world).2
  | none => world

noncomputable def givenAll (server : Server ω υ κ) : ω → List (HttpServletRequest κ) → List Action
  | _, [] => []
  | world, request :: requests =>
    (given server world request).toList ++
      givenAll server (effect server world request) requests

/-- A request that leads to no action: one answer or an exception, and at most a flash message. -/
structure Refused (request : HttpServletRequest κ) (s : State ω)
    (r : Except Throwable Unit × State ω) : Prop where
  world : r.2.world = s.world
  executed : r.2.executed = s.executed
  flash : r.2.flash = s.flash ∨
    r.2.flash = Function.update s.flash request.sessionId (some msgLoginFirst)
  answered : (r.1 = .ok () ∧ ∃ answer, r.2.replies = s.replies ++ [answer]) ∨
    (r.1 ≠ .ok () ∧ r.2.replies = s.replies)

section Filters
variable {server : Server ω υ κ} {request : HttpServletRequest κ} {chain : Java (State ω) Unit}
  {action : Action}

theorem refused_reply (request : HttpServletRequest κ) (s : State ω) (answer : Reply) :
    Refused request s ((reply answer).run s) :=
  ⟨rfl, rfl, .inl rfl, .inl ⟨rfl, answer, rfl⟩⟩

theorem refused_throw (request : HttpServletRequest κ) (s : State ω) (e : Throwable) :
    Refused request s (.error e, s) :=
  ⟨rfl, rfl, .inl rfl, .inr ⟨nofun, rfl⟩⟩

theorem requestLogger_cases (request : HttpServletRequest κ) (chain : Java (State ω) Unit)
    (s : State ω) :
    (∃ text, format (RequestLogger.generateLogString request.logged) = some text ∧
      (requestLogger request chain).run s =
        chain.run { s with logged := s.logged ++ [RequestLogger.logMessagePrefix ++ text] }) ∨
    (format (RequestLogger.generateLogString request.logged) = none ∧
      Refused request s ((requestLogger request chain).run s)) := by
  cases htext : format (RequestLogger.generateLogString request.logged) with
  | some text =>
    refine .inl ⟨text, rfl, ?_⟩
    simp [requestLogger, RequestLogger.info, htext, Prog.run_bind, Prog.run_zoom]
  | none =>
    refine .inr ⟨rfl, ?_⟩
    have hrun : (requestLogger request chain).run s =
        (.error (.external "IllegalFormatException"), s) := by
      simp [requestLogger, RequestLogger.info, htext, Prog.run_bind, Prog.run_zoom]
    rw [hrun]
    exact refused_throw request s _

theorem responseSecurityFilter_cases (request : HttpServletRequest κ)
    (chain : Java (State ω) Unit) (s : State ω) :
    ((∀ string ∈ strings request.parameters, ¬Spelled string) ∧
      (responseSecurityFilter request chain).run s = chain.run s) ∨
    ((∃ string ∈ strings request.parameters, Spelled string) ∧
      Refused request s ((responseSecurityFilter request chain).run s)) := by
  by_cases h : ∃ string ∈ strings request.parameters, Spelled string
  · obtain ⟨name, hrejects⟩ := doFilter_rejects h ⟨s.logged, none, false⟩
    refine .inr ⟨h, ?_⟩
    simp only [responseSecurityFilter, Prog.run_bind, Prog.run_get, Prog.run_set, hrejects]
    exact ⟨rfl, rfl, .inl rfl, .inl ⟨rfl, _, rfl⟩⟩
  · have hclear : ∀ string ∈ strings request.parameters, ¬Spelled string := by
      simpa only [not_exists, not_and] using h
    refine .inl ⟨hclear, ?_⟩
    simp [responseSecurityFilter, Prog.run_bind, doFilter_forwards hclear]

theorem keeps_checkArgument {σ : Type} {P : σ → Prop} (expression : Bool)
    (errorMessage : Option String) : Prog.Keeps P (checkArgument expression errorMessage) :=
  .ite (.pure _) (.throw _)

theorem doFilter_keeps (cache : OrganisationCache) (dispatched : Dispatch.Request) (s : State ω) :
    ((Dispatch.doFilter cache dispatched).run s).2 = s := by
  have hexpected : Prog.Keeps (· = s) (getMethodExpected dispatched.pathInfo) :=
    .bind (keeps_checkArgument _ _) fun _ => .pure _
  have hpermission : Prog.Keeps (· = s) (getPermissionExpected dispatched.pathInfo) :=
    .bind (keeps_checkArgument _ _) fun _ => .pure _
  have hfilter : Prog.Keeps (· = s) (Dispatch.doFilter cache dispatched) := by
    refine .bind hexpected fun _ => .bind hpermission fun permission => .ite (.pure _) ?_
    cases cache.getOrganisation dispatched.organisationName with
    | none => exact .pure _
    | some organisation => exact .ite (.pure _) (.ite (.pure _) (.pure _))
  exact hfilter s rfl

/-- The path has permission NONE or the request names an organisation that is enabled. -/
def Permitted (cache : OrganisationCache) (dispatched : Dispatch.Request) : Prop :=
  ∃ raw, dispatched.pathInfo = some raw ∧ isNotBlank (some raw) ∧
    (pathsToPermissions.lookup raw = some .NONE ∨
      ∃ organisation, cache.getOrganisation dispatched.organisationName = some organisation ∧
        organisation.enabled)

theorem verifyPermissions_cases (server : Server ω υ κ) (request : HttpServletRequest κ)
    (chain : Java (State ω) Unit) (s : State ω) :
    (Permitted (server.cache s.world) request.dispatched ∧
      (verifyPermissions server request chain).run s = chain.run s) ∨
    (¬Permitted (server.cache s.world) request.dispatched ∧
      Refused request s ((verifyPermissions server request chain).run s)) := by
  have hchain : (Dispatch.doFilter (server.cache s.world) request.dispatched).run s =
      (.ok .chain, s) ↔ s = s ∧ Permitted (server.cache s.world) request.dispatched :=
    doFilter_eq_chain
  have hkeeps := doFilter_keeps (server.cache s.world) request.dispatched s
  simp only [verifyPermissions, Prog.run_bind, Prog.run_get]
  rcases hrun : (Dispatch.doFilter (server.cache s.world) request.dispatched).run s with
    ⟨e | _ | code, t⟩ <;> rw [hrun] at hchain hkeeps <;> obtain rfl : t = s := hkeeps
  · exact .inr ⟨fun h => (nomatch hchain.mpr ⟨rfl, h⟩), refused_throw request t e⟩
  · exact .inl ⟨(hchain.mp rfl).2, rfl⟩
  · exact .inr ⟨fun h => (nomatch hchain.mpr ⟨rfl, h⟩), refused_reply request t _⟩

/-- The address decides nothing. -/
theorem verifyRemoteAddress_eq (server : Server ω υ κ) (request : HttpServletRequest κ)
    (chain : Java (State ω) Unit) : verifyRemoteAddress server request chain = chain := by
  funext s
  change (verifyRemoteAddress server request chain).run s = chain.run s
  simp only [verifyRemoteAddress, Prog.run_bind, Prog.run_get]
  cases (server.cache s.world).getOrganisation request.dispatched.organisationName with
  | none => rfl
  | some organisation => rfl

/-! ### The servlet -/

theorem deriveActionPath_keeps (pathInfo : Option String) (flash : Option String) :
    ((deriveActionPath pathInfo).run flash).2 = flash := by
  have hderive : Prog.Keeps (· = flash) (deriveActionPath pathInfo) := by
    refine .bind (keeps_checkArgument _ _) fun _ => .bind (keeps_deref _) fun raw => ?_
    exact .bind (keeps_checkArgument _ _) fun _ => .bind (.ite (.pure _) (.throw _)) fun _ =>
      .pure _
  exact hderive flash rfl

theorem getAction_cases (missing : MissingActions) (allActionPaths : List String)
    (sessions : SessionService.State υ) (dispatched : Dispatch.Request) (flash : Option String) :
    (∃ action, (Dispatch.getAction missing allActionPaths sessions dispatched).run flash =
      (.ok (some action), flash)) ∨
    (Dispatch.getAction missing allActionPaths sessions dispatched).run flash = (.ok none, flash) ∨
    (Dispatch.getAction missing allActionPaths sessions dispatched).run flash =
      (.ok none, some msgLoginFirst) ∨
    ∃ e, (Dispatch.getAction missing allActionPaths sessions dispatched).run flash =
      (.error e, flash) := by
  have hkeeps := deriveActionPath_keeps dispatched.pathInfo flash
  simp only [Dispatch.getAction, Prog.run_bind]
  rcases hpath : (deriveActionPath dispatched.pathInfo).run flash with ⟨e | path, t⟩ <;>
    rw [hpath] at hkeeps <;> obtain rfl : t = flash := hkeeps
  · exact .inr (.inr (.inr ⟨e, rfl⟩))
  · by_cases hmem : path ∈ allActionPaths
    · simp only [hmem, not_true_eq_false, if_false, Prog.run_bind, actionNamed]
      cases bindings.lookup path with
      | none => exact .inr (.inr (.inr ⟨_, rfl⟩))
      | some action =>
        simp only [Prog.run_pure]
        cases action.requiresLogin missing with
        | false => exact .inl ⟨action, rfl⟩
        | true =>
          cases SessionService.isSessionLoggedIn sessions dispatched.sessionId with
          | false => exact .inr (.inr (.inl rfl))
          | true => exact .inl ⟨action, rfl⟩
    · simp only [hmem, not_false_eq_true, if_true]
      exact .inr (.inl rfl)

theorem processRequest_cases (server : Server ω υ κ) (request : HttpServletRequest κ)
    (s : State ω) :
    (∃ action flash, (Dispatch.getAction server.missing server.allActionPaths
        (server.sessions s.world) request.dispatched).run (s.flash request.sessionId) =
          (.ok (some action), flash) ∧ isSafeHTTPMethod request.method ∧
      (processRequest server request).run s = (executeAction server request action).run s) ∨
    ((∀ action flash, (Dispatch.getAction server.missing server.allActionPaths
        (server.sessions s.world) request.dispatched).run (s.flash request.sessionId) =
          (.ok (some action), flash) → isSafeHTTPMethod request.method = false) ∧
      Refused request s ((processRequest server request).run s)) := by
  have hsame : ∀ message, message = s.flash request.sessionId →
      { s with flash := Function.update s.flash request.sessionId message } = s := by
    rintro _ rfl
    rw [Function.update_eq_self]
  simp only [processRequest, Prog.run_bind, Prog.run_get, Prog.run_zoom]
  rcases getAction_cases server.missing server.allActionPaths (server.sessions s.world)
    request.dispatched (s.flash request.sessionId) with ⟨action, h⟩ | h | h | ⟨e, h⟩ <;>
    simp only [h]
  · rw [hsame _ rfl]
    cases hmethod : isSafeHTTPMethod request.method with
    | true => exact .inl ⟨action, _, rfl, rfl, rfl⟩
    | false => exact .inr ⟨fun _ _ _ => rfl, refused_reply request s _⟩
  · rw [hsame _ rfl]
    exact .inr ⟨nofun, refused_reply request s _⟩
  · exact .inr ⟨nofun, rfl, rfl, .inr rfl, .inl ⟨rfl, _, rfl⟩⟩
  · rw [hsame _ rfl]
    exact .inr ⟨nofun, refused_throw request s e⟩

theorem bound_not_slashes {raw : String}
    (hbound : bindings.lookup (String.ofList (raw.toList.rdropWhile (· = '/'))) = some action) :
    ∃ c ∈ raw.toList, c ≠ '/' := by
  by_contra hall
  have hslashes : raw.toList.rdropWhile (· = '/') = [] := by
    rw [List.rdropWhile_eq_nil_iff]
    simpa using hall
  have hnone : bindings.lookup (String.ofList []) = none := by decide
  rw [hslashes, hnone] at hbound
  cases hbound

theorem admitted_iff {world : ω} (flash : Option String) :
    Admitted server world request action ↔
      (format (RequestLogger.generateLogString request.logged)).isSome ∧
      (∀ string ∈ strings request.parameters, ¬Spelled string) ∧
      Permitted (server.cache world) request.dispatched ∧
      (∃ flash', (Dispatch.getAction server.missing server.allActionPaths
        (server.sessions world) request.dispatched).run flash = (.ok (some action), flash')) ∧
      (request.method = "GET".toList ∨ request.method = "POST".toList) := by
  constructor
  · rintro ⟨hlogs, hclear, ⟨raw, hraw, hblank, hhead, hmem, hbound, hpermitted⟩, hlogin, hmethod⟩
    refine ⟨hlogs, hclear, ⟨raw, hraw, hblank, hpermitted⟩, ⟨flash, ?_⟩, hmethod⟩
    refine getAction_eq_some.mpr ⟨rfl, _, ?_, hmem, hbound, hlogin⟩
    exact deriveActionPath_eq_ok.mpr ⟨rfl, raw, hraw, hblank, hhead, bound_not_slashes hbound, rfl⟩
  · rintro ⟨hlogs, hclear, ⟨raw, hraw, hblank, hpermitted⟩, ⟨flash', haction⟩, hmethod⟩
    obtain ⟨-, path, hpath, hmem, hbound, hlogin⟩ := getAction_eq_some.mp haction
    obtain ⟨-, raw', hraw', -, hhead, -, rfl⟩ := deriveActionPath_eq_ok.mp hpath
    obtain rfl : raw = raw' := Option.some.inj (hraw.symm.trans hraw')
    exact ⟨hlogs, hclear, ⟨raw, hraw, hblank, hhead, hmem, hbound, hpermitted⟩, hlogin, hmethod⟩

/-- Of the methods that reach the action service only HEAD is not a safe one. -/
theorem service_cases (server : Server ω υ κ) (request : HttpServletRequest κ) (s : State ω) :
    (∃ action flash, (Dispatch.getAction server.missing server.allActionPaths
        (server.sessions s.world) request.dispatched).run (s.flash request.sessionId) =
          (.ok (some action), flash) ∧
      (request.method = "GET".toList ∨ request.method = "POST".toList) ∧
      (service server request).run s = (executeAction server request action).run s) ∨
    ((∀ action flash, (Dispatch.getAction server.missing server.allActionPaths
        (server.sessions s.world) request.dispatched).run (s.flash request.sessionId) =
          (.ok (some action), flash) →
        ¬(request.method = "GET".toList ∨ request.method = "POST".toList)) ∧
      Refused request s ((service server request).run s)) := by
  by_cases hmethod : request.method = "GET".toList ∨ request.method = "HEAD".toList ∨
      request.method = "POST".toList
  · have hservice : service server request = processRequest server request := if_pos hmethod
    rw [hservice]
    have hsafe : isSafeHTTPMethod request.method ↔
        request.method = "GET".toList ∨ request.method = "POST".toList := by
      rcases hmethod with h | h | h
      · rw [h]
        decide
      · rw [h]
        decide
      · rw [h]
        decide
    rcases processRequest_cases server request s with ⟨action, flash, haction, h, hrun⟩ | ⟨h, hrun⟩
    · exact .inl ⟨action, flash, haction, hsafe.mp h, hrun⟩
    · refine .inr ⟨fun action flash haction => ?_, hrun⟩
      rw [← hsafe, h action flash haction]
      exact Bool.false_ne_true
  · have hservice : service server request = reply .httpServlet := if_neg hmethod
    rw [hservice]
    exact .inr ⟨fun _ _ _ h => hmethod (h.imp_right .inr), refused_reply request s _⟩

theorem serve_cases (server : Server ω υ κ) (request : HttpServletRequest κ) (s : State ω) :
    (∃ action line, Admitted server s.world request action ∧
      (serve server request).run s =
        (executeAction server request action).run { s with logged := s.logged ++ [line] }) ∨
    ((∀ action, ¬Admitted server s.world request action) ∧
      Refused request s ((serve server request).run s)) := by
  have hadmitted (action : Action) : Admitted server s.world request action ↔ _ :=
    admitted_iff (s.flash request.sessionId)
  rw [serve, verifyRemoteAddress_eq]
  rcases requestLogger_cases request _ s with ⟨text, htext, hrun⟩ | ⟨htext, hrefused⟩
  · rw [hrun]
    rcases responseSecurityFilter_cases request _ _ with ⟨hclear, hrun⟩ | ⟨hspelled, hrefused⟩
    · rw [hrun]
      rcases verifyPermissions_cases server request _ _ with ⟨hpermitted, hrun⟩ | ⟨hnot, hrefused⟩
      · rw [hrun]
        rcases service_cases server request _ with
          ⟨action, flash, haction, hmethod, hrun⟩ | ⟨hnot, hrefused⟩
        · refine .inl ⟨action, _, (hadmitted action).mpr ?_, hrun⟩
          exact ⟨by rw [htext]; rfl, hclear, hpermitted, ⟨flash, haction⟩, hmethod⟩
        · refine .inr ⟨fun action h => ?_, hrefused.1, hrefused.2, hrefused.3, hrefused.4⟩
          obtain ⟨-, -, -, ⟨flash, haction⟩, hmethod⟩ := (hadmitted action).mp h
          exact hnot action flash haction hmethod
      · exact .inr ⟨fun action h => hnot ((hadmitted action).mp h).2.2.1, hrefused.1, hrefused.2,
          hrefused.3, hrefused.4⟩
    · obtain ⟨string, hstring, hspelled⟩ := hspelled
      exact .inr ⟨fun action h => h.clear string hstring hspelled, hrefused.1, hrefused.2,
        hrefused.3, hrefused.4⟩
  · exact .inr ⟨fun action h => by simpa [htext] using h.logs, hrefused⟩

/-- An action is run on the world as it is. The error of one that throws is answered unless the
response has gone out. -/
theorem run_executeAction (server : Server ω υ κ) (request : HttpServletRequest κ) (action : Action)
    (s : State ω) :
    ((executeAction server request action).run s).2.executed = s.executed ++ [action] ∧
    ((executeAction server request action).run s).2.world =
      ((server.execute action request).run s.world).2 ∧
    ((executeAction server request action).run s).2.flash = s.flash ∧
    (((executeAction server request action).run s).2.replies = s.replies ∨
      ((executeAction server request action).run s).2.replies =
        s.replies ++ [.sendError SC_INTERNAL_SERVER_ERROR]) := by
  simp only [executeAction, Prog.run_tryCatch, Prog.run_bind, Prog.run_modify, Prog.run_zoom]
  rcases (server.execute action request).run s.world with ⟨e | _, world⟩
  · simp only [sendError, Prog.run_bind, Prog.run_get]
    cases server.isCommitted world with
    | true => exact ⟨rfl, rfl, rfl, .inl rfl⟩
    | false => exact ⟨rfl, rfl, rfl, .inr rfl⟩
  · exact ⟨rfl, rfl, rfl, .inl rfl⟩

end Filters

section Runs
variable {server : Server ω υ κ} {world : ω} {request : HttpServletRequest κ} {action : Action}

theorem admitted_unique {action' : Action} (h : Admitted server world request action)
    (h' : Admitted server world request action') : action = action' := by
  obtain ⟨raw, hraw, -, -, -, hbound, -⟩ := h.path
  obtain ⟨raw', hraw', -, -, -, hbound', -⟩ := h'.path
  obtain rfl : raw = raw' := Option.some.inj (hraw.symm.trans hraw')
  exact Option.some.inj (hbound.symm.trans hbound')

theorem given_eq_some :
    given server world request = some action ↔ Admitted server world request action := by
  unfold given
  split
  · rename_i h
    rw [Option.some.injEq]
    constructor
    · rintro rfl
      exact h.choose_spec
    · exact fun ha => admitted_unique h.choose_spec ha
  · rename_i h
    exact ⟨nofun, fun ha => absurd ⟨action, ha⟩ h⟩

theorem given_eq_none : given server world request = none ↔
    ∀ action, ¬Admitted server world request action := by
  rw [Option.eq_none_iff_forall_ne_some]
  exact forall_congr' fun action => not_congr given_eq_some

theorem serve_given (server : Server ω υ κ) (request : HttpServletRequest κ) (s : State ω) :
    ((serve server request).run s).2.executed =
        s.executed ++ (given server s.world request).toList ∧
      ((serve server request).run s).2.world = effect server s.world request := by
  rcases serve_cases server request s with ⟨action, line, h, hrun⟩ | ⟨h, hrefused⟩
  · obtain ⟨hexecuted, hworld, -, -⟩ :=
      run_executeAction server request action { s with logged := s.logged ++ [line] }
    rw [hrun, hexecuted, hworld, effect, given_eq_some.mpr h]
    exact ⟨rfl, rfl⟩
  · rw [hrefused.executed, hrefused.world, effect, given_eq_none.mpr h]
    exact ⟨(List.append_nil _).symm, rfl⟩

theorem executed_iff (server : Server ω υ κ) (request : HttpServletRequest κ) (s : State ω)
    (action : Action) :
    ((serve server request).run s).2.executed = s.executed ++ [action] ↔
      Admitted server s.world request action := by
  rw [(serve_given server request s).1, List.append_cancel_left_eq, ← given_eq_some]
  cases given server s.world request with
  | none => simp
  | some given => simp

/-- Any other request is answered once, or fails with an exception and no answer; the world stays
as it was. -/
theorem given_or_refused (server : Server ω υ κ) (request : HttpServletRequest κ) (s : State ω) :
    (∃ action, Admitted server s.world request action) ∨
      Refused request s ((serve server request).run s) := by
  rcases serve_cases server request s with ⟨action, line, h, hrun⟩ | ⟨h, hrefused⟩
  · exact .inl ⟨action, h⟩
  · exact .inr hrefused

/-- Requests one after the other run the actions that they are given, in this order, and leave the
world that these make. -/
theorem serveAll_given (server : Server ω υ κ) (requests : List (HttpServletRequest κ))
    (s : State ω) :
    (serveAll server s requests).executed = s.executed ++ givenAll server s.world requests ∧
      (serveAll server s requests).world = requests.foldl (effect server) s.world := by
  induction requests generalizing s with
  | nil => exact ⟨(List.append_nil _).symm, rfl⟩
  | cons request requests ih =>
    obtain ⟨hexecuted, hworld⟩ := serve_given server request s
    obtain ⟨hall, hend⟩ := ih ((serve server request).run s).2
    constructor
    · change (serveAll server ((serve server request).run s).2 requests).executed = _
      rw [hall, hexecuted, hworld, List.append_assoc]
      rfl
    · change (serveAll server ((serve server request).run s).2 requests).world = _
      rw [hend, hworld]
      rfl

end Runs

end InsightsAssist.RequestChain
