import InsightsAssist.SessionService
import InsightsAssist.Split

/-! A request on its way to an action: the permission filter looks its path up as it stands,
the action service splits and joins it first. -/
namespace InsightsAssist.Dispatch
open Java
variable {σ υ : Type}

inductive Mode where
  | IA | NONE
  deriving DecidableEq, Repr

inductive HttpMethod where
  | GET | POST
  deriving DecidableEq, Repr

structure Request where
  pathInfo : Option String
  parameter : String → Option String
  sessionId : Option String

/-! ### The tables -/

def pathsToHTTPMethod : List (String × HttpMethod) :=
  [("/api/v1/login", .POST), ("/api/v1/logout", .POST), ("/api/v1/generateUrl", .POST),
    ("/api/v1/handleInsightsReturnUrl", .POST), ("/api/v1/completedReport", .POST),
    ("/api/v1/fetchData", .POST), ("/api/v1/downloadReport", .GET), ("/api/v1/alogin", .POST),
    ("/api/v1/alogin/dashboard", .POST), ("/api/v1/alogin/dashboard_org", .POST),
    ("/api/v1/alogin/dashboard_dropdown", .POST), ("/api/v1/adminLogout", .POST)]

/-- The entry of downloadReport is commented out in the source. -/
def pathsToPermissions : List (String × Mode) :=
  [("/api/v1/login", .IA), ("/api/v1/logout", .IA), ("/api/v1/generateUrl", .IA),
    ("/api/v1/handleInsightsReturnUrl", .IA), ("/api/v1/completedReport", .IA),
    ("/api/v1/fetchData", .IA), ("/api/v1/alogin", .NONE), ("/api/v1/alogin/dashboard", .NONE),
    ("/api/v1/alogin/dashboard_org", .NONE), ("/api/v1/alogin/dashboard_dropdown", .NONE),
    ("/api/v1/adminLogout", .NONE)]

inductive Action where
  | LogOut | OrganisationFilter | StoreOrganisation | StoreUserData | adminlogin
  | LoginAuthenticate | Logout | GenerateInsightsStatementUploadUrl | HandleInsightsReturnUrl
  | TransactionCallBackComplete | FetchUserData | DownloadReport
  deriving DecidableEq, Repr

/-- The paths in the order in which the action service registers them, each with the class
that the injector binds to it. -/
def bindings : List (String × Action) :=
  [("/api/v1/adminLogout", .LogOut), ("/api/v1/alogin/dashboard_dropdown", .OrganisationFilter),
    ("/api/v1/alogin/dashboard_org", .StoreOrganisation),
    ("/api/v1/alogin/dashboard", .StoreUserData), ("/api/v1/alogin", .adminlogin),
    ("/api/v1/login", .LoginAuthenticate), ("/api/v1/logout", .Logout),
    ("/api/v1/generateUrl", .GenerateInsightsStatementUploadUrl),
    ("/api/v1/handleInsightsReturnUrl", .HandleInsightsReturnUrl),
    ("/api/v1/completedReport", .TransactionCallBackComplete),
    ("/api/v1/fetchData", .FetchUserData), ("/api/v1/downloadReport", .DownloadReport)]

def registerAllPaths : List String :=
  ["/api/v1/adminLogout", "/api/v1/alogin/dashboard_dropdown", "/api/v1/alogin/dashboard_org",
    "/api/v1/alogin/dashboard", "/api/v1/alogin", "/api/v1/login", "/api/v1/logout",
    "/api/v1/generateUrl", "/api/v1/handleInsightsReturnUrl", "/api/v1/completedReport",
    "/api/v1/fetchData", "/api/v1/downloadReport"]

/-- Every registered path has a method and a class, and no other path has a permission. -/
theorem registered_paths_bound :
    (∀ path ∈ registerAllPaths, (pathsToHTTPMethod.lookup path).isSome ∧
      (bindings.lookup path).isSome) ∧
    ∀ entry ∈ pathsToPermissions, entry.1 ∈ registerAllPaths := by
  decide

def Action.admin : Action → Bool
  | .LogOut | .OrganisationFilter | .StoreOrganisation | .StoreUserData | .adminlogin => true
  | _ => false

/-- The two classes that the module binds but the sources do not contain. -/
structure MissingActions where
  organisationFilterRequiresLogin : Bool
  adminloginRequiresLogin : Bool

def Action.requiresLogin (missing : MissingActions) : Action → Bool
  | .OrganisationFilter => missing.organisationFilterRequiresLogin
  | .adminlogin => missing.adminloginRequiresLogin
  | .LogOut | .StoreOrganisation | .StoreUserData | .Logout
  | .GenerateInsightsStatementUploadUrl | .FetchUserData => true
  | .LoginAuthenticate | .HandleInsightsReturnUrl | .TransactionCallBackComplete
  | .DownloadReport => false

/-! ### VerifyPermissions -/

def getMethodExpected (path : Option String) : Java σ (Option HttpMethod) := do
  checkArgument (isNotBlank path) none
  return path.bind fun path => pathsToHTTPMethod.lookup path

def getPermissionExpected (path : Option String) : Java σ (Option Mode) := do
  checkArgument (isNotBlank path) none
  return path.bind fun path => pathsToPermissions.lookup path

structure Organisation where
  organisationId : Int
  organisationName : String
  enabled : Bool
  deriving DecidableEq, Repr

structure OrganisationCache where
  nameToIdMap : BiMap (Option String) Int
  idToOrganisationMap : AList fun _ : Int => Organisation

def OrganisationCache.getOrganisation (cache : OrganisationCache) (name : Option String) :
    Option Organisation :=
  match cache.nameToIdMap.get name with
  | none => none
  | some organisationId => cache.idToOrganisationMap.lookup organisationId

/-- The name a request goes by; API URLs use vendorId. -/
def Request.organisationName (request : Request) : Option String :=
  let organisationName := request.parameter "organisation"
  if isBlank organisationName then request.parameter "vendorId" else organisationName

inductive ApiErrorCode where
  | AccessDenied | NotSignedUp
  deriving DecidableEq, Repr

inductive Filtered where
  | chain
  | sendError (code : ApiErrorCode)
  deriving DecidableEq, Repr

/-- Every mode is permitted: the check of the organisation's modes is commented out. -/
def isPermitted (_ : Organisation) (_ : Option Mode) : Bool := true

/-- `VerifyPermissions.doFilter`. The expected method is looked up and not used. -/
def doFilter (cache : OrganisationCache) (request : Request) : Java σ Filtered := do
  let _ ← getMethodExpected request.pathInfo
  let organisation := cache.getOrganisation request.organisationName
  let permission ← getPermissionExpected request.pathInfo
  if permission = some .NONE then return .chain
  match organisation with
  | none => return .sendError .NotSignedUp
  | some organisation =>
    if !organisation.enabled then return .sendError .AccessDenied
    else if isPermitted organisation permission then return .chain
    else return .sendError .AccessDenied

/-! ### AbstractActionService -/

def msgPathInfoMustBeNonBlank : String := "PathInfo must be non-blank."
def msgPathInfoStartsWith : String := "PathInfo must start with '/'"
def msgPathInfoMinElements : String := "PathInfo must contain at least one path element"
def msgLoginFirst : String := "Please login to the application first"

def deriveActionPath (pathInfo : Option String) : Java σ String := do
  checkArgument (isNotBlank pathInfo) msgPathInfoMustBeNonBlank
  let pathInfo ← deref pathInfo
  checkArgument (pathInfo.toList.head? = some '/') msgPathInfoStartsWith
  let parts := split pathInfo.toList '/'
  checkPositionIndex 1 parts.length msgPathInfoMinElements
  return String.ofList (join '/' parts)

/-- The private `getAction(String)`: the injector's lookup by name. -/
def actionNamed (actionPath : String) : Java σ Action :=
  match bindings.lookup actionPath with
  | some action => pure action
  | none => throw (.external "No implementation was bound")

/-- `getAction(HttpServletRequest)`; the state is the flash message of the request's session. -/
def getAction (missing : MissingActions) (allActionPaths : List String)
    (sessions : SessionService.State υ) (request : Request) :
    Java (Option String) (Option Action) := do
  let path ← deriveActionPath request.pathInfo
  if path ∉ allActionPaths then return none
  let action ← actionNamed path
  if !action.requiresLogin missing then return some action
  else if action.requiresLogin missing &&
      !SessionService.isSessionLoggedIn sessions request.sessionId then
    set (some msgLoginFirst)
    return none
  else return some action

end InsightsAssist.Dispatch
