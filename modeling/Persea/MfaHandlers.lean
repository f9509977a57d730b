import Persea.BaseStore

/-! Password login and the second factor: `login_submit`, `mfa_submit` and the TOTP self-service. A handler maps the
database and a request to the next database and the response. -/

namespace Persea.Mfa

open Base

abbrev UserId := Nat

abbrev Token := Nat

abbrev Time := Nat

/-! ### Tables -/

structure User where
  id : UserId
  email : String
  role : String
  disabled : Bool
deriving DecidableEq, Repr

structure TotpSecret where
  secretB32 : String
  algorithm : String
  digits : Nat
  period : Nat
  enabled : Bool
deriving DecidableEq, Repr

structure PendingMfa where
  token : Token
  userId : UserId
  userEmail : String
  desktop : Bool
  expiresAt : Time
deriving DecidableEq, Repr

structure AuthSession where
  token : Token
  userId : UserId
  expiresAt : Time
deriving DecidableEq, Repr

structure FailedAttempt where
  username : String
  ip : String
  attemptedAt : Time
  success : Bool
deriving DecidableEq, Repr

/-- The tables, with the constraints of the schema that the handlers rely on. -/
structure Db where
  users : List User
  totpSecrets : Store UserId TotpSecret
  pendingMfa : List PendingMfa
  authSessions : List AuthSession
  failedAttempts : List FailedAttempt
  nextToken : Token
  email_unique : ∀ u ∈ users, ∀ v ∈ users, u.email = v.email → u = v
  token_lt : ∀ s ∈ authSessions, s.token < nextToken

namespace Db

variable (db : Db)

def getUserByEmail (email : String) : Option User := db.users.find? fun u => u.email = email

def getTotpSecret (userId : UserId) : Option TotpSecret := db.totpSecrets.lookup userId

def userTotpEnabled (userId : UserId) : Bool := (db.getTotpSecret userId).any TotpSecret.enabled

/-- An upsert, enabled at first. -/
def storeTotpSecret (userId : UserId) (secretB32 algorithm : String) (digits period : Nat) : Db :=
  { db with totpSecrets := db.totpSecrets.insert userId ⟨secretB32, algorithm, digits, period, true⟩ }

def setTotpEnabled (userId : UserId) (enabled : Bool) : Db :=
  match db.getTotpSecret userId with
  | none => db
  | some s => { db with totpSecrets := db.totpSecrets.insert userId { s with enabled } }

def deleteTotpSecret (userId : UserId) : Db := { db with totpSecrets := db.totpSecrets.erase userId }

def createPendingMfa (now : Time) (user : User) (desktop : Bool) (ttlSecs : Nat) : Db :=
  { db with
    pendingMfa := db.pendingMfa ++ [⟨db.nextToken, user.id, user.email, desktop, now + ttlSecs⟩]
    nextToken := db.nextToken + 1
    token_lt := fun s hs => Nat.lt_succ_of_lt (db.token_lt s hs) }

def getPendingMfa (now : Time) (token : Token) : Option PendingMfa :=
  db.pendingMfa.find? fun p => p.token = token ∧ now < p.expiresAt

def deletePendingMfa (token : Token) : Db := { db with pendingMfa := db.pendingMfa.filter fun p => p.token ≠ token }

theorem token_lt_append (db : Db) (userId : UserId) (expiresAt : Time) :
    ∀ s ∈ db.authSessions ++ [⟨db.nextToken, userId, expiresAt⟩], s.token < db.nextToken + 1 := by
  intro s hs
  rcases List.mem_append.mp hs with hs | hs
  · exact Nat.lt_succ_of_lt (db.token_lt s hs)
  · rw [List.mem_singleton.mp hs]
    exact Nat.lt_succ_self db.nextToken

def createAuthSession (now : Time) (userId : UserId) (ttlSecs : Nat) : Db :=
  { db with
    authSessions := db.authSessions ++ [⟨db.nextToken, userId, now + ttlSecs⟩]
    nextToken := db.nextToken + 1
    token_lt := db.token_lt_append userId (now + ttlSecs) }

def validateAuthSession (now : Time) (token : Token) : Option User :=
  match db.authSessions.find? fun s => s.token = token ∧ now < s.expiresAt with
  | none => none
  | some s => (db.users.find? fun u => u.id = s.userId).filter fun u => !u.disabled

def isLockedOut (now : Time) (username ip : String) : Bool :=
  5 < db.failedAttempts.countP fun a =>
    a.username = username ∧ a.ip = ip ∧ a.success = false ∧ now ≤ a.attemptedAt + 15 * 60

def recordFailedLoginAttempt (now : Time) (username ip : String) : Db :=
  { db with failedAttempts := db.failedAttempts ++ [⟨username, ip, now, false⟩] }

def recordSuccessfulLogin (username ip : String) : Db :=
  { db with
    failedAttempts := db.failedAttempts.map fun a =>
      if a.username = username ∧ a.ip = ip then { a with success := true } else a }

end Db

inductive TotpEnforcement where
  | off
  | adminsOnly
  | all
deriving DecidableEq, Repr

inductive Algorithm where
  | sha1
  | sha256
  | sha512
deriving DecidableEq, Repr

def algorithmFromStr : String → Algorithm
  | "SHA256" => .sha256
  | "SHA512" => .sha512
  | _ => .sha1

structure AuthRequest where
  clientIp : String
  (username password relayState : Option String)
deriving DecidableEq, Repr

inductive AuthResult where
  | success (subject : String) (role : Option String)
  | failure (msg : String)
  | redirect (url : String)
  | unavailable (msg : String)
deriving DecidableEq, Repr

structure Env where
  enforcement : TotpEnforcement
  skew : Nat
  issuer : String
  /-- The provider chain. -/
  authenticate : Time → AuthRequest → AuthResult
  /-- The email, or else the subject, of the provider's user. -/
  lookupUser : String → Option String
  /-- `check_current` of the TOTP library. -/
  checkCode : (secretB32 code : String) → Algorithm → (digits period skew : Nat) → Time → Bool

variable (env : Env)

def Env.verifyCode (s : TotpSecret) (code : String) (now : Time) : Bool :=
  env.checkCode s.secretB32 code (algorithmFromStr s.algorithm) s.digits s.period env.skew now

def Env.verifyUserCode (db : Db) (userId : UserId) (code : String) (now : Time) : Bool :=
  match db.getTotpSecret userId with
  | none => false
  | some s => s.enabled && env.verifyCode s code now

structure Cookies where
  session : Option Token
  pendingMfa : Option Token
deriving DecidableEq, Repr

structure LoginForm where
  username : String
  password : String
  saml : Bool
  desktop : Bool
deriving DecidableEq, Repr

inductive SetCookie where
  | session (token : Token) (maxAge : Nat)
  | pendingMfa (token : Token) (path : String) (maxAge : Nat)
  | clearPendingMfa
deriving DecidableEq, Repr

inductive AppError where
  | forbidden (msg : String)
  | internal (msg : String)
deriving DecidableEq, Repr

inductive Response where
  | redirect (target : String) (cookies : List SetCookie)
  /-- The page that shows a desktop client its scoped token. -/
  | desktopConnected (cookies : List SetCookie)
  | ok
  | invalid (error : String)
  | enrollment (secretB32 issuer email : String)
  | error (e : AppError)
deriving DecidableEq, Repr

inductive TotpGate where
  | none
  | mfa
  | enroll
deriving DecidableEq, Repr

def checkTotpEnforcement (db : Db) (userId : UserId) (role : String) : TotpEnforcement → TotpGate
  | .off => .none
  | .adminsOnly =>
    if role ≠ "admin" then .none else if db.userTotpEnabled userId then .mfa else .enroll
  | .all => if db.userTotpEnabled userId then .mfa else .enroll

/-- The cookie of the enrollment gate is sent everywhere, that of the MFA gate to the MFA page only. -/
def redirectToMfa (db : Db) (now : Time) (user : User) (ttlSecs : Nat) (target : String) (desktop : Bool) :
    Db × Response :=
  let path := if target = "/auth/enroll" then "/" else "/auth/mfa"
  (db.createPendingMfa now user desktop ttlSecs, .redirect target [.pendingMfa db.nextToken path ttlSecs])

def resolveUserForSubject (db : Db) (subject : String) : Option User :=
  match db.getUserByEmail subject with
  | some user => some user
  | none => (env.lookupUser subject).bind db.getUserByEmail

def loggedIn (desktop : Bool) (cookies : List SetCookie) : Response :=
  if desktop then .desktopConnected cookies else .redirect "/connections.html" cookies

def loginAccepted (now : Time) (db : Db) (form : LoginForm) (ip : String) (user : User)
    (role : Option String) : Db × Response :=
  if user.disabled then (db, .redirect "/?error=account_disabled" [])
  else
    match checkTotpEnforcement db user.id (role.getD user.role) env.enforcement with
    | .mfa => redirectToMfa db now user 300 "/auth/mfa" form.desktop
    | .enroll => redirectToMfa db now user 300 "/auth/enroll" form.desktop
    | .none =>
      ((db.createAuthSession now user.id 86400).recordSuccessfulLogin form.username ip,
        loggedIn form.desktop [.session db.nextToken 86400])

/-- The SAML button: no session comes out of this branch. -/
def samlStart (now : Time) (form : LoginForm) (ip : String) : Response :=
  match env.authenticate now ⟨ip, none, none, if form.desktop then some "desktop" else none⟩ with
  | .redirect url => .redirect url []
  | .failure _ => .redirect "/?error=saml_auth_failed" []
  | .unavailable _ => .redirect "/?error=saml_unavailable" []
  | .success _ _ => .redirect "/?error=saml_auth_failed" []

def loginSubmit (now : Time) (db : Db) (form : LoginForm) (ip : String) : Db × Response :=
  if form.saml then (db, samlStart env now form ip)
  else if db.isLockedOut now form.username ip then (db, .redirect "/?error=account_locked" [])
  else
    match env.authenticate now ⟨ip, some form.username, some form.password, none⟩ with
    | .success subject role =>
      match resolveUserForSubject env db subject with
      | none => (db, .redirect "/?error=user_lookup_failed" [])
      | some user => loginAccepted env now db form ip user role
    | .failure _ => (db.recordFailedLoginAttempt now form.username ip, .redirect "/?error=invalid_credentials" [])
    | .redirect url => (db, .redirect url [])
    | .unavailable _ => (db, .redirect "/?error=auth_unavailable" [])

def mfaSubmit (now : Time) (db : Db) (cookies : Cookies) (code ip : String) : Db × Response :=
  match cookies.pendingMfa with
  | none => (db, .redirect "/auth/mfa?error=no_session" [])
  | some token =>
    match db.getPendingMfa now token with
    | none => (db, .redirect "/auth/mfa?error=expired" [])
    | some pending =>
      if db.isLockedOut now pending.userEmail ip then (db, .redirect "/auth/mfa?error=account_locked" [])
      else if env.verifyUserCode db pending.userId code now = false then
        (db.recordFailedLoginAttempt now pending.userEmail ip, .redirect "/auth/mfa?error=invalid_code" [])
      else
        ((db.deletePendingMfa token).createAuthSession now pending.userId 86400,
          loggedIn pending.desktop [.session db.nextToken 86400, .clearPendingMfa])

def sessionIdentity (db : Db) (now : Time) (cookies : Cookies) : Option User :=
  cookies.session.bind (db.validateAuthSession now)

/-- A full session, or else any pending-MFA record. -/
def resolveTotpIdentity (db : Db) (now : Time) (cookies : Cookies) : Except AppError (UserId × String) :=
  match sessionIdentity db now cookies with
  | some identity =>
    match db.getUserByEmail identity.email with
    | some user => .ok (user.id, identity.email)
    | none => .error (.internal "Query returned no rows")
  | none =>
    match cookies.pendingMfa.bind (db.getPendingMfa now) with
    | some pending => .ok (pending.userId, pending.userEmail)
    | none => .error (.forbidden "authentication required")

/-- `generated` is the random secret of `generate_enrollment`. -/
def totpEnroll (now : Time) (db : Db) (cookies : Cookies) (generated : String) : Db × Response :=
  match resolveTotpIdentity db now cookies with
  | .error e => (db, .error e)
  | .ok (userId, email) =>
    ((db.storeTotpSecret userId generated "SHA1" 6 30).setTotpEnabled userId false,
      .enrollment generated env.issuer email)

def totpVerify (now : Time) (db : Db) (cookies : Cookies) (code : String) : Db × Response :=
  match resolveTotpIdentity db now cookies with
  | .error e => (db, .error e)
  | .ok (userId, _) =>
    if (db.getTotpSecret userId).any fun s => env.verifyCode s code now then
      (db.setTotpEnabled userId true, .ok)
    else (db, .invalid "Invalid code. Try again.")

def totpDisable (now : Time) (db : Db) (cookies : Cookies) (code : String) : Db × Response :=
  match sessionIdentity db now cookies with
  | none => (db, .error (.forbidden "authentication required"))
  | some identity =>
    match db.getUserByEmail identity.email with
    | none => (db, .error (.internal "Query returned no rows"))
    | some user =>
      if env.verifyUserCode db user.id code now then (db.deleteTotpSecret user.id, .ok)
      else (db, .invalid "Invalid code")

end Persea.Mfa
