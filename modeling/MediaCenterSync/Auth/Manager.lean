import MediaCenterSync.Lib.LabelledRun
import MediaCenterSync.Matching.Service

/-!
# Signing in, staying in and getting out

`AuthManager`, `UserManager`, the two tables they share and what a bearer of an access token is told
(`JwtStrategy.validate`).  A refresh token is used once: the session it belongs to is revoked and
another takes its place.  One that comes back within `REFRESH_RACE_MS` of being spent is taken for a
second tab and served; one that comes later is taken for a thief's, and every session of the account
goes.

Calls run into one another: a `Call` is where one has come to, with what it has read, and each of its
steps reads or writes one table.  What a step cannot know (the bytes of a new token, the answer of a
media server, a new password hash) is in the `Answer` it is given.  Identifiers and the bytes of a
token are never drawn twice.
-/

namespace MediaCenterSync.Auth

open Matching (units)
open Quality (trim)

/-! ### The tables -/

inductive UserRole where
  | ADMIN
  | USER
  | GUEST
deriving DecidableEq

def INTERNAL_PROVIDER : String := "internal"

/-- A spent token presented this soon comes from another tab. -/
def REFRESH_RACE_MS : ℕ := 10000

def MINIMUM_PASSWORD_LENGTH : ℕ := 8

structure User where
  id : ℕ
  username : String
  role : UserRole
  /-- `internal`, or `service:<uuid>`. -/
  provider : String
  providerUserId : Option String
  /-- Null for an account that is mirrored. -/
  passwordHash : Option String

/-- One row per refresh token. -/
structure Session where
  id : ℕ
  userId : ℕ
  refreshTokenHash : String
  expiresAt : ℕ
  revokedAt : Option ℕ

def Session.isValid (now : ℕ) (session : Session) : Bool :=
  session.revokedAt = none ∧ now < session.expiresAt

structure TokenPair where
  /-- `sub` of the access token. -/
  sub : ℕ
  /-- `sid` of the access token. -/
  sid : ℕ
  refreshToken : String

inductive Failure where
  | AUTH_SESSION_EXPIRED
  | AUTH_INVALID_CREDENTIALS
  | AUTH_FORBIDDEN
  | AUTH_PROVIDER_UNREACHABLE
  | USER_NOT_FOUND
  | USER_LAST_ADMIN
  /-- A constraint of a table. -/
  | DATABASE

/-- What a media server says of somebody whose credentials it accepts. -/
structure ExternalIdentity where
  externalUserId : String

structure Config where
  /-- `compare` of bcrypt. -/
  compare : String → String → Bool
  /-- `_hashToken`: SHA-256. -/
  hashToken : String → String
  /-- How long a refresh token lives, in milliseconds. -/
  refreshTtl : ℕ

/-- Where a call has come to: what it does next. -/
inductive Call where
  /-- `login` with an account of the gateway. -/
  | findForAuthentication (username password : String)
  | comparePassword (user : User) (password : String)
  /-- `login` through a media server: it is asked, and its account looked up and saved. -/
  | askService (provider : String)
  | findByProvider (provider : String) (identity : ExternalIdentity)
  | saveMirror (user : User)
  | createMirror (provider : String) (identity : ExternalIdentity)
  | touchLastSeen (user : User)
  /-- `refresh` -/
  | findValidByHash (hash : String)
  | findOwner (session : Session)
  | revoke (session : Session) (user : User)
  /-- `_justRotated`: the row of the token, and the account. -/
  | findSpent (hash : String)
  | findRacer (hash : String) (userId : ℕ)
  /-- `_reportReplay` -/
  | reportReplay (hash : String)
  | revokeReplayed (userId : ℕ)
  | logout (userId : ℕ)
  /-- `changePassword` -/
  | findForPassword (userId : ℕ) (current : String)
  | compareCurrent (user : User) (current : String)
  | savePassword (user : User)
  | revokeAfterPassword (user : User)
  /-- `setup` -/
  | countUsers (username password : String)
  | createAdmin (username : String)
  /-- `UserManager.update`, of a role. -/
  | requireForUpdate (userId : ℕ) (role : UserRole)
  | countForUpdate (user : User) (role : UserRole)
  | saveRole (user : User) (role : UserRole)
  /-- `UserManager.remove` -/
  | requireForRemove (userId : ℕ)
  | countForRemove (user : User)
  | revokeForRemove (user : User)
  | deleteUser (user : User)
  /-- `_issue` -/
  | issue (user : User)
  /-- The call is over. -/
  | answered
  | paired (pair : TokenPair)
  | failed (failure : Failure)

inductive Answer where
  | plain
  /-- The bytes of a new refresh token. -/
  | token (token : String)
  /-- The media server's answer: an identity, or why there is none. -/
  | identity (answer : Except Failure ExternalIdentity)
  | passwordHash (hash : String)
  /-- The name of a new account (`_freeUsername`). -/
  | account (username : String)

structure State where
  /-- Milliseconds. -/
  now : ℕ
  users : List User
  sessions : List Session
  nextUser : ℕ
  nextSession : ℕ
  /-- The hashes of the refresh tokens there have been. -/
  drawn : List String
  calls : List Call

/-! ### The repositories -/

namespace State

variable (s : State)

/-- `users.findOne({ where: { id } })` -/
def findUser (userId : ℕ) : Option User := s.users.find? (·.id = userId)

def findForAuthentication (username : String) : Option User :=
  s.users.find? (·.username = username)

def findByProvider (provider providerUserId : String) : Option User :=
  s.users.find? fun user => user.provider = provider ∧ user.providerUserId = some providerUserId

def countAdmins : ℕ := s.users.countP (·.role = .ADMIN)

/-- What is unique among users: the identifier, the name, and the account of a media server. -/
def isFree (user : User) : Bool :=
  s.users.all fun row => row.id ≠ user.id ∧ row.username ≠ user.username ∧
    (user.providerUserId = none ∨ row.provider ≠ user.provider ∨
      row.providerUserId ≠ user.providerUserId)

/-- `users.save(users.create(…))` -/
def createUser (user : User) : Option State :=
  if s.isFree user then
    some { s with users := s.users ++ [user], nextUser := max s.nextUser (user.id + 1) }
  else none

/-- `users.save`: the row that is there is written over, and one that is gone comes back, without
its password, which was not read. -/
def saveUser (user : User) (role : UserRole) : Option State :=
  if s.users.any (·.id = user.id) then
    some { s with users := s.users.map fun row =>
      if row.id = user.id then { row with role := role } else row }
  else s.createUser { user with role := role, passwordHash := none }

def setPassword (userId : ℕ) (hash : String) : State :=
  { s with users := s.users.map fun row =>
      if row.id = userId then { row with passwordHash := some hash } else row }

/-- The row goes, and its sessions with it. -/
def deleteUser (userId : ℕ) : State :=
  { s with
    users := s.users.filter (·.id ≠ userId)
    sessions := s.sessions.filter (·.userId ≠ userId) }

def findValidByHash (hash : String) : Option Session :=
  s.sessions.find? fun session => session.refreshTokenHash = hash ∧ session.isValid s.now

/-- `sessions.findOne({ where: { refreshTokenHash } })` -/
def findByHash (hash : String) : Option Session :=
  s.sessions.find? (·.refreshTokenHash = hash)

def findValidById (id : ℕ) : Option Session :=
  s.sessions.find? fun session => session.id = id ∧ session.isValid s.now

/-- The sessions that are meant and not revoked are revoked now. -/
def revokeWhere (meant : Session → Bool) : State :=
  { s with sessions := s.sessions.map fun session =>
      if meant session ∧ session.revokedAt = none then { session with revokedAt := some s.now }
      else session }

/-- `sessions.revoke` -/
def revoke (id : ℕ) : State := s.revokeWhere (·.id = id)

def revokeAllForUser (userId : ℕ) : State := s.revokeWhere (·.userId = userId)

def insertSession (session : Session) : State :=
  { s with
    sessions := s.sessions ++ [session]
    nextSession := s.nextSession + 1
    drawn := session.refreshTokenHash :: s.drawn }

end State

/-! ### A step of a call -/

namespace Call

variable (config : Config) (s : State)

/-- `_issue`.  The owner of a session has to be there. -/
def issueStep (user : User) (token : String) : Option (State × Call) :=
  if config.hashToken token ∈ s.drawn then none
  else if s.users.any (·.id = user.id) then
    some (s.insertSession
      { id := s.nextSession
        userId := user.id
        refreshTokenHash := config.hashToken token
        expiresAt := s.now + config.refreshTtl
        revokedAt := none },
      .paired ⟨user.id, s.nextSession, token⟩)
  else some (s, .failed .DATABASE)

def saved (result : Option State) (next : Call) : State × Call :=
  match result with
  | some s' => (s', next)
  | none => (s, .failed .DATABASE)

/-- `_justRotated`, as far as the row of the token decides. -/
def racing (hash : String) : Call :=
  match s.findByHash hash with
  | none => .reportReplay hash
  | some spent =>
    match spent.revokedAt with
    | none => .reportReplay hash
    | some revokedAt =>
      if REFRESH_RACE_MS < s.now - revokedAt then .reportReplay hash
      else .findRacer hash spent.userId

def read : Call → Option Call
  | .findForAuthentication username password => some <|
    match s.findForAuthentication username with
    | none => .failed .AUTH_INVALID_CREDENTIALS
    | some user =>
      if user.passwordHash = none then .failed .AUTH_INVALID_CREDENTIALS
      else .comparePassword user password
  | .comparePassword user password => some <|
    if user.passwordHash.any (config.compare password) then .touchLastSeen user
    else .failed .AUTH_INVALID_CREDENTIALS
  | .findByProvider provider identity => some <|
    match s.findByProvider provider identity.externalUserId with
    | some user => .saveMirror user
    | none => .createMirror provider identity
  | .touchLastSeen user => some (.issue user)
  | .findValidByHash hash => some <|
    match s.findValidByHash hash with
    | some session => .findOwner session
    | none => .findSpent hash
  | .findOwner session => some <|
    match s.findUser session.userId with
    | some user => .revoke session user
    | none => .failed .AUTH_SESSION_EXPIRED
  | .findSpent hash => some (racing s hash)
  | .findRacer hash userId => some <|
    match s.findUser userId with
    | some user => .issue user
    | none => .reportReplay hash
  | .reportReplay hash => some <|
    match s.findByHash hash with
    | some spent => .revokeReplayed spent.userId
    | none => .failed .AUTH_SESSION_EXPIRED
  | .findForPassword userId current => some <|
    match s.findUser userId with
    | none => .failed .AUTH_SESSION_EXPIRED
    | some user =>
      if user.provider ≠ INTERNAL_PROVIDER then .failed .AUTH_FORBIDDEN
      else .compareCurrent user current
  | .compareCurrent user current => some <|
    if user.passwordHash.any (config.compare current) then .savePassword user
    else .failed .AUTH_INVALID_CREDENTIALS
  | .countUsers username password => some <|
    if 0 < s.users.length then .failed .AUTH_FORBIDDEN
    else if trim username = "" ∨ (units password).length < MINIMUM_PASSWORD_LENGTH then
      .failed .AUTH_INVALID_CREDENTIALS
    else .createAdmin (trim username)
  | .requireForUpdate userId role => some <|
    match s.findUser userId with
    | none => .failed .USER_NOT_FOUND
    | some user =>
      -- `_refuseLosingLastAdmin` counts only when an administrator stops being one
      if role = user.role then .saveRole user role
      else if user.role ≠ .ADMIN ∨ role = .ADMIN then .saveRole user role
      else .countForUpdate user role
  | .countForUpdate user role => some <|
    if s.countAdmins ≤ 1 then .failed .USER_LAST_ADMIN else .saveRole user role
  | .requireForRemove userId => some <|
    match s.findUser userId with
    | none => .failed .USER_NOT_FOUND
    | some user => if user.role ≠ .ADMIN then .revokeForRemove user else .countForRemove user
  | .countForRemove user => some <|
    if s.countAdmins ≤ 1 then .failed .USER_LAST_ADMIN else .revokeForRemove user
  | _ => none

/-- A step that writes, and where the call comes to. -/
def write : Call → Answer → Option (State × Call)
  | .askService provider, .identity answer => some <|
    match answer with
    | .ok identity => (s, .findByProvider provider identity)
    | .error failure => (s, .failed failure)
  | .saveMirror user, .plain => some (saved s (s.saveUser user user.role) (.touchLastSeen user))
  | .createMirror provider identity, .account username =>
    let user : User :=
      { id := s.nextUser
        username := username
        role := .USER
        provider := provider
        providerUserId := some identity.externalUserId
        passwordHash := none }
    some (saved s (s.createUser user) (.touchLastSeen user))
  | .revoke session user, .plain => some (s.revoke session.id, .issue user)
  | .revokeReplayed userId, .plain =>
    some (s.revokeAllForUser userId, .failed .AUTH_SESSION_EXPIRED)
  | .logout userId, .plain => some (s.revokeAllForUser userId, .answered)
  | .savePassword user, .passwordHash hash =>
    some (s.setPassword user.id hash, .revokeAfterPassword user)
  | .revokeAfterPassword user, .plain => some (s.revokeAllForUser user.id, .answered)
  | .createAdmin username, .passwordHash hash =>
    let user : User :=
      { id := s.nextUser
        username := username
        role := .ADMIN
        provider := INTERNAL_PROVIDER
        providerUserId := none
        passwordHash := some hash }
    some (saved s (s.createUser user) (.issue user))
  | .saveRole user role, .plain =>
    some (saved s (s.saveUser user role) .answered)
  | .revokeForRemove user, .plain => some (s.revokeAllForUser user.id, .deleteUser user)
  | .deleteUser user, .plain => some (s.deleteUser user.id, .answered)
  | .issue user, .token token => issueStep config s user token
  | _, _ => none

def step (call : Call) (answer : Answer) : Option (State × Call) :=
  match call.read config s with
  | some next => some (s, next)
  | none => call.write config s answer

def isFirst : Call → Bool
  | .findForAuthentication .. | .askService .. | .findValidByHash .. | .logout ..
  | .findForPassword .. | .countUsers .. | .requireForUpdate .. | .requireForRemove .. => true
  | _ => false

end Call

/-! ### Steps of the gateway -/

inductive Action where
  | wait (milliseconds : ℕ)
  | begin (call : Call)
  | step (index : ℕ) (answer : Answer)

/-- A step: time passes, a call comes in, or one of those under way goes on. -/
def step (config : Config) (s : State) : Action → Option State
  | .wait milliseconds => some { s with now := s.now + milliseconds }
  | .begin call => if call.isFirst then some { s with calls := s.calls ++ [call] } else none
  | .step index answer => do
    let call ← s.calls[index]?
    let (s', next) ← call.step config s answer
    some { s' with calls := s'.calls.set index next }

/-- Who a request with this access token comes from (`JwtStrategy.validate`). -/
def validate (s : State) (sub sid : ℕ) : Except Failure User :=
  match s.findValidById sid with
  | none => .error .AUTH_SESSION_EXPIRED
  | some session =>
    if session.userId ≠ sub then .error .AUTH_SESSION_EXPIRED
    else
      match s.findUser sub with
      | none => .error .AUTH_SESSION_EXPIRED
      | some user => .ok user

end MediaCenterSync.Auth
