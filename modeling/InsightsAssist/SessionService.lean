import InsightsAssist.BiMap
import InsightsAssist.Java

/-! The session table: session ids to user ids, and user ids to the cached User objects.
User objects are compared by reference; `getUserId` reads the id field of one. -/
namespace InsightsAssist.SessionService
open Java
variable {υ : Type} [DecidableEq υ]

/-- The bean com.ia.beans.User; `ref` is the object's identity. -/
structure User where
  ref : Nat
  userId : Int
  emailId : Option String
  deriving DecidableEq, Repr

def user1 : User := ⟨0, 1, some "user1@acme.com"⟩
def user2 : User := ⟨1, 2, some "user2@acme.com"⟩

def msgSessionIdNotNull : String := "Session id must not be blank"
def msgUserIdGt0 : String := "UserId must be greater than 0"
def msgUserNotNull : String := "User must not be null"
def valueAlreadyPresent : String := "value already present"

structure State (υ : Type) where
  sessionIdToUserIdMap : BiMap (Option String) (Option Int)
  userCache : BiMap Int υ

def init : State υ := ⟨.empty, .empty⟩

/-- `isLoggedIn(String sessionId, Integer userId)`; either argument may be null. -/
def isLoggedIn (s : State υ) (sessionId : Option String) (userId : Option Int) : Bool :=
  s.sessionIdToUserIdMap.containsKey sessionId || s.sessionIdToUserIdMap.containsValue userId

def isUserLoggedIn (s : State υ) (userId : Int) : Bool := isLoggedIn s none (some userId)

def isSessionLoggedIn (s : State υ) (sessionId : Option String) : Bool := isLoggedIn s sessionId none

def retrieveUserFromCache (s : State υ) (userId : Int) : Option υ := s.userCache.get userId

def getUser (s : State υ) (sessionId : Option String) : Option υ :=
  match (s.sessionIdToUserIdMap.get sessionId).join with
  | some userId => retrieveUserFromCache s userId
  | none => none

/-- The id is taken out of both maps; the key that `inverse().remove` gives back, null when
there was none, is removed once more. -/
def removeUserFromMaps (userId : Int) (s : State υ) : State υ :=
  let sessionId := (s.sessionIdToUserIdMap.getKey (some userId)).join
  { sessionIdToUserIdMap := (s.sessionIdToUserIdMap.removeValue (some userId)).remove sessionId
    userCache := s.userCache.remove userId }

def clearSessionStorage (s : State υ) : State υ := { s with sessionIdToUserIdMap := .empty }

def clearUserCacheStorage (s : State υ) : State υ := { s with userCache := .empty }

def putSession (sessionId : Option String) (userId : Int) : Java (State υ) Unit := do
  let s ← get
  match s.sessionIdToUserIdMap.put sessionId (some userId) with
  | some m => set { s with sessionIdToUserIdMap := m }
  | none => throw (.illegalArgument valueAlreadyPresent)

def putUser (userId : Int) (user : υ) : Java (State υ) Unit := do
  let s ← get
  match s.userCache.put userId user with
  | some m => set { s with userCache := m }
  | none => throw (.illegalArgument valueAlreadyPresent)

def addUserToUserMaps (sessionId : Option String) (userId : Int) (user : υ) :
    Java (State υ) Unit := do
  putSession sessionId userId
  putUser userId user

def forceLogout (userId : Int) : Java (State υ) (Option υ) := do
  let s ← get
  if !isUserLoggedIn s userId then return none
  else
    let user := retrieveUserFromCache s userId
    modify (removeUserFromMaps userId)
    -- the log line reads the user's e-mail id, after the maps have changed
    let _ ← deref user
    return user

/-- `handleUserLogIn(String sessionId, int userId, User user)`. -/
def logIn (sessionId : Option String) (userId : Int) (user : υ) : Java (State υ) Unit := do
  let s ← get
  if isLoggedIn s sessionId (some userId) then modify (removeUserFromMaps userId)
  addUserToUserMaps sessionId userId user

def handleUserLogIn (getUserId : υ → Int) (sessionId : Option String) (user : Option υ) :
    Java (State υ) Unit := do
  checkArgument (isNotBlank sessionId) msgSessionIdNotNull
  checkArgument user.isSome msgUserNotNull
  let user ← deref user
  checkState (0 < getUserId user) msgUserIdGt0
  logIn sessionId (getUserId user) user

/-- The body that handleUserLogOut and handleUserSessionExpired share. -/
def endSession (getUserId : υ → Int) (sessionId : Option String) : Java (State υ) (Option υ) := do
  checkArgument (isNotBlank sessionId) msgSessionIdNotNull
  let s ← get
  if !isSessionLoggedIn s sessionId then return none
  else
    let user ← deref (getUser s sessionId)
    modify (removeUserFromMaps (getUserId user))
    return some user

def handleUserLogOut (getUserId : υ → Int) (sessionId : Option String) :
    Java (State υ) (Option υ) := endSession getUserId sessionId

def handleUserSessionExpired (getUserId : υ → Int) (sessionId : Option String) :
    Java (State υ) (Option υ) := endSession getUserId sessionId

def invalidateUserCache (userId : Int) (s : State υ) : State υ :=
  { s with userCache := s.userCache.remove userId }

def restart (s : State υ) : State υ := clearUserCacheStorage (clearSessionStorage s)

/-- Only the session map is cleared. -/
def stop (s : State υ) : State υ := clearSessionStorage s

inductive Call (υ : Type) where
  | handleUserLogIn (sessionId : Option String) (user : Option υ)
  | handleUserLogOut (sessionId : Option String)
  | handleUserSessionExpired (sessionId : Option String)
  | forceLogout (userId : Int)
  | invalidateUserCache (userId : Int)
  | restart
  | stop

/-- A call with its result; null for the operations that return nothing. -/
def call (getUserId : υ → Int) : Call υ → Java (State υ) (Option υ)
  | .handleUserLogIn sessionId user => do
    handleUserLogIn getUserId sessionId user
    return none
  | .handleUserLogOut sessionId => handleUserLogOut getUserId sessionId
  | .handleUserSessionExpired sessionId => handleUserSessionExpired getUserId sessionId
  | .forceLogout userId => forceLogout userId
  | .invalidateUserCache userId => do
    modify (invalidateUserCache userId)
    return none
  | .restart => do
    modify restart
    return none
  | .stop => do
    modify stop
    return none

/-- The maps as a call leaves them, whether it returns or throws. -/
def after (getUserId : υ → Int) (s : State υ) (c : Call υ) : State υ := ((call getUserId c).run s).2

end InsightsAssist.SessionService
