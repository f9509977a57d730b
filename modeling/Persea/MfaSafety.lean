import Persea.BaseTransition
import Persea.MfaHandlers

/-! Second-factor safety. A user whose factor is enabled gets no session without a code for the enrolled secret, as
long as no enrollment comes in through a pending record. -/

namespace Persea.Mfa

open Base List Transition

inductive Request where
  | login (form : LoginForm) (ip : String)
  | mfa (cookies : Cookies) (code ip : String)
  | enroll (cookies : Cookies) (generated : String)
  | verify (cookies : Cookies) (code : String)
  | disable (cookies : Cookies) (code : String)
deriving DecidableEq, Repr

def Request.cookies : Request → Cookies
  | .login _ _ => ⟨none, none⟩
  | .mfa cookies _ _ => cookies
  | .enroll cookies _ => cookies
  | .verify cookies _ => cookies
  | .disable cookies _ => cookies

def Request.code : Request → Option String
  | .login _ _ => none
  | .mfa _ code _ => some code
  | .enroll _ _ => none
  | .verify _ code => some code
  | .disable _ code => some code

variable (env : Env)

def handle (now : Time) (db : Db) : Request → Db × Response
  | .login form ip => loginSubmit env now db form ip
  | .mfa cookies code ip => mfaSubmit env now db cookies code ip
  | .enroll cookies generated => totpEnroll env now db cookies generated
  | .verify cookies code => totpVerify env now db cookies code
  | .disable cookies code => totpDisable env now db cookies code

def Response.cookies : Response → List SetCookie
  | .redirect _ cookies => cookies
  | .desktopConnected cookies => cookies
  | _ => []

def SetCookie.sessionToken : SetCookie → Option Token
  | .session token _ => some token
  | _ => none

def SetCookie.pendingToken : SetCookie → Option Token
  | .pendingMfa token _ _ => some token
  | _ => none

structure World where
  now : Time
  db : Db
  /-- The session and pending-MFA cookies the client has been given. -/
  sessionCookies : List Token
  pendingCookies : List Token
  /-- The requests so far, with their times. -/
  sent : List (Time × Request)

open World

def World.init (db : Db) (now : Time) : World := { now, db, sessionCookies := [], pendingCookies := [], sent := [] }

inductive Event where
  | tick
  | request (r : Request)
deriving DecidableEq, Repr

def World.holds (w : World) (cookies : Cookies) : Bool :=
  cookies.session.all (· ∈ w.sessionCookies) ∧ cookies.pendingMfa.all (· ∈ w.pendingCookies)

def World.step (w : World) : Event → World
  | .tick => { w with now := w.now + 1 }
  | .request r =>
    if w.holds r.cookies then
      let (db, response) := handle env w.now w.db r
      { now := w.now
        db
        sessionCookies := w.sessionCookies ++ response.cookies.filterMap SetCookie.sessionToken
        pendingCookies := w.pendingCookies ++ response.cookies.filterMap SetCookie.pendingToken
        sent := w.sent ++ [(w.now, r)] }
    else w

def Db.sessionsOf (db : Db) (userId : UserId) : List AuthSession := db.authSessions.filter fun s => s.userId = userId

def carriesCode (secret : TotpSecret) (sent : Time × Request) : Bool :=
  sent.2.code.any fun code => env.verifyCode secret code sent.1

def Enforced (db : Db) (userId : UserId) : Prop :=
  env.enforcement = .all ∨ (env.enforcement = .adminsOnly ∧
      ∀ now request subject role user, env.authenticate now request = .success subject role →
        resolveUserForSubject env db subject = some user → user.id = userId → role.getD user.role = "admin")

/-- No enrollment through a pending-MFA record of the user while the user's factor is enabled. -/
def enrollSafe (userId : UserId) (w : World) : Event → Bool
  | .request (.enroll cookies _) =>
    (sessionIdentity w.db w.now cookies).isSome ||
      !((cookies.pendingMfa.bind (w.db.getPendingMfa w.now)).any (·.userId = userId) &&
        w.db.userTotpEnabled userId)
  | _ => true

/-! ### One request -/

structure Harmless (userId : UserId) (db : Db) (result : Db × Response) : Prop where
  users : result.1.users = db.users
  secret : result.1.getTotpSecret userId = db.getTotpSecret userId
  next : db.nextToken ≤ result.1.nextToken
  sessions : (result.1.authSessions = db.authSessions ∧ result.2.cookies.filterMap SetCookie.sessionToken = []) ∨
    ∃ other expiresAt, other ≠ userId ∧ db.nextToken < result.1.nextToken ∧
      result.1.authSessions = db.authSessions ++ [⟨db.nextToken, other, expiresAt⟩] ∧
      result.2.cookies.filterMap SetCookie.sessionToken = [db.nextToken]

section Handlers

variable {env : Env} {now : Time} {db : Db} {userId : UserId} {cookies : Cookies} {code ip : String}

theorem Harmless.quiet {response : Response} (hresponse : response.cookies.filterMap SetCookie.sessionToken = []) :
    Harmless userId db (db, response) :=
  ⟨rfl, rfl, le_rfl, .inl ⟨rfl, hresponse⟩⟩

theorem getTotpSecret_setTotpEnabled_ne {other : UserId} (hne : userId ≠ other) (enabled : Bool) :
    (db.setTotpEnabled other enabled).getTotpSecret userId = db.getTotpSecret userId := by
  rw [Db.setTotpEnabled]
  split
  · rfl
  · exact AList.lookup_insert_ne hne

theorem setTotpEnabled_frame (db : Db) (other : UserId) (enabled : Bool) :
    (db.setTotpEnabled other enabled).users = db.users ∧
      (db.setTotpEnabled other enabled).authSessions = db.authSessions ∧
      (db.setTotpEnabled other enabled).nextToken = db.nextToken := by
  rw [Db.setTotpEnabled]
  split <;> exact ⟨rfl, rfl, rfl⟩

variable {role : Option String} {user : User}

theorem gate_of_enforced (henforced : Enforced env db userId) (henabled : db.userTotpEnabled userId)
    {request : AuthRequest} {subject : String}
    (hauth : env.authenticate now request = .success subject role)
    (huser : resolveUserForSubject env db subject = some user) (hid : user.id = userId) :
    checkTotpEnforcement db user.id (role.getD user.role) env.enforcement = .mfa := by
  rcases henforced with hall | ⟨hadmins, hrole⟩
  · rw [hall, checkTotpEnforcement, hid, if_pos henabled]
  · rw [hadmins, checkTotpEnforcement, hrole now request subject role user hauth huser hid, hid]
    simp [henabled]

theorem loginAccepted_harmless {form : LoginForm}
    (hgate : user.id = userId → checkTotpEnforcement db user.id (role.getD user.role) env.enforcement = .mfa) :
    Harmless userId db (loginAccepted env now db form ip user role) := by
  fun_cases loginAccepted env now db form ip user role with
  | case1 => exact .quiet rfl
  | case2 | case3 => exact ⟨rfl, rfl, Nat.le_succ db.nextToken, .inl ⟨rfl, rfl⟩⟩
  | case4 _ hnone =>
    have hother : user.id ≠ userId := fun hid => by simp [hgate hid] at hnone
    refine ⟨rfl, rfl, Nat.le_succ db.nextToken, .inr ⟨user.id, now + 86400, hother, Nat.lt_succ_self _, rfl, ?_⟩⟩
    cases form.desktop <;> rfl

theorem samlStart_cookies (form : LoginForm) : (samlStart env now form ip).cookies = [] := by
  rw [samlStart]
  split <;> rfl

theorem loginSubmit_harmless (henforced : Enforced env db userId) (henabled : db.userTotpEnabled userId)
    (form : LoginForm) : Harmless userId db (loginSubmit env now db form ip) := by
  fun_cases loginSubmit env now db form ip with
  | case1 => exact .quiet (by rw [samlStart_cookies]; rfl)
  | case4 _ _ subject role hauth user huser =>
    exact loginAccepted_harmless fun hid => gate_of_enforced henforced henabled hauth huser hid
  | case5 => exact ⟨rfl, rfl, le_rfl, .inl ⟨rfl, rfl⟩⟩
  | _ => exact .quiet rfl

theorem mfaSubmit_harmless {secret : TotpSecret} (hsecret : db.getTotpSecret userId = some secret)
    (hcode : env.verifyCode secret code now = false) :
    Harmless userId db (mfaSubmit env now db cookies code ip) := by
  fun_cases mfaSubmit env now db cookies code ip with
  | case4 => exact ⟨rfl, rfl, le_rfl, .inl ⟨rfl, rfl⟩⟩
  | case5 _ _ pending _ _ hvalid =>
    -- the code was accepted for the user of the record, so this is another user
    have hother : pending.userId ≠ userId := by
      rintro hid
      simp [hid, Env.verifyUserCode, hsecret, hcode] at hvalid
    refine ⟨rfl, rfl, Nat.le_succ db.nextToken,
      .inr ⟨pending.userId, now + 86400, hother, Nat.lt_succ_self _, rfl, ?_⟩⟩
    cases pending.desktop <;> rfl
  | _ => exact .quiet rfl

theorem totpEnroll_harmless {generated : String}
    (hother : ∀ target, resolveTotpIdentity db now cookies = .ok target → target.1 ≠ userId) :
    Harmless userId db (totpEnroll env now db cookies generated) := by
  fun_cases totpEnroll env now db cookies generated with
  | case1 => exact .quiet rfl
  | case2 target email hresolve =>
    have hne : userId ≠ target := Ne.symm (hother _ hresolve)
    have hframe := setTotpEnabled_frame (db.storeTotpSecret target generated "SHA1" 6 30) target false
    refine ⟨hframe.1, ?_, hframe.2.2.ge, .inl ⟨hframe.2.1, rfl⟩⟩
    exact (getTotpSecret_setTotpEnabled_ne hne false).trans (AList.lookup_insert_ne hne)

theorem totpVerify_harmless {secret : TotpSecret} (hsecret : db.getTotpSecret userId = some secret)
    (hcode : env.verifyCode secret code now = false) :
    Harmless userId db (totpVerify env now db cookies code) := by
  fun_cases totpVerify env now db cookies code with
  | case2 target _ _ hvalid =>
    have hne : userId ≠ target := by
      rintro rfl
      simp [hsecret, hcode] at hvalid
    have hframe := setTotpEnabled_frame db target true
    exact ⟨hframe.1, getTotpSecret_setTotpEnabled_ne hne true, hframe.2.2.ge, .inl ⟨hframe.2.1, rfl⟩⟩
  | _ => exact .quiet rfl

theorem getUserByEmail_of_mem {identity user : User} (hmem : identity ∈ db.users)
    (h : db.getUserByEmail identity.email = some user) : user = identity := by
  have hemail : user.email = identity.email := by simpa using find?_some h
  exact db.email_unique user (mem_of_find?_eq_some h) identity hmem hemail

theorem totpDisable_harmless
    (hother : ∀ identity, sessionIdentity db now cookies = some identity →
      identity ∈ db.users ∧ identity.id ≠ userId) :
    Harmless userId db (totpDisable env now db cookies code) := by
  fun_cases totpDisable env now db cookies code with
  | case3 identity hidentity user huser =>
    obtain ⟨hmem, hid⟩ := hother identity hidentity
    obtain rfl := getUserByEmail_of_mem hmem huser
    exact ⟨rfl, AList.lookup_erase_ne (Ne.symm hid), le_rfl, .inl ⟨rfl, rfl⟩⟩
  | _ => exact .quiet rfl

end Handlers

/-! ### Whole runs -/

/-- The user's factor is as it was, no session has been created for the user, and the client holds no session
cookie of the user. -/
structure Intact (userId : UserId) (secret : TotpSecret) (start : Db) (w : World) : Prop where
  users : w.db.users = start.users
  secret_eq : w.db.getTotpSecret userId = some secret
  sessions : w.db.sessionsOf userId = start.sessionsOf userId
  cookies_lt : ∀ token ∈ w.sessionCookies, token < w.db.nextToken
  cookies : ∀ token ∈ w.sessionCookies, ∀ s ∈ w.db.authSessions, s.token = token → s.userId ≠ userId

section Runs

variable {env : Env} {userId : UserId} {secret : TotpSecret} {start : Db} {w : World}

section

variable (h : Intact userId secret start w)

include h

theorem Intact.sessionIdentity {cookies : Cookies}
    (hholds : w.holds cookies)
    {identity : User} (hidentity : sessionIdentity w.db w.now cookies = some identity) :
    identity ∈ w.db.users ∧ identity.id ≠ userId := by
  obtain ⟨token, htoken, hvalid⟩ := Option.bind_eq_some_iff.mp hidentity
  have hheld : token ∈ w.sessionCookies := by
    simp only [holds, decide_eq_true_eq, htoken, Option.all_some] at hholds
    exact hholds.1
  rw [Db.validateAuthSession] at hvalid
  split at hvalid
  · cases hvalid
  · rename_i s hs
    have huser := (Option.filter_eq_some_iff.mp hvalid).1
    have htoken' : s.token = token := by
      have hfound := find?_some hs
      simp only [decide_eq_true_eq] at hfound
      exact hfound.1
    have hid : identity.id = s.userId := by simpa using find?_some huser
    refine ⟨mem_of_find?_eq_some huser, ?_⟩
    rw [hid]
    exact h.cookies token hheld s (mem_of_find?_eq_some hs) htoken'

theorem Intact.userTotpEnabled (henabled : secret.enabled) : w.db.userTotpEnabled userId := by
  simp [Db.userTotpEnabled, h.secret_eq, henabled]

theorem Intact.resolveTotpIdentity (henabled : secret.enabled)
    {cookies : Cookies} (hholds : w.holds cookies) {generated : String}
    (hsafe : enrollSafe userId w (.request (.enroll cookies generated))) :
    ∀ target, resolveTotpIdentity w.db w.now cookies = .ok target → target.1 ≠ userId := by
  intro target htarget
  rw [Mfa.resolveTotpIdentity] at htarget
  split at htarget
  · rename_i identity hidentity
    obtain ⟨hmem, hid⟩ := h.sessionIdentity hholds hidentity
    split at htarget
    · rename_i user huser
      obtain rfl := getUserByEmail_of_mem hmem huser
      cases htarget
      exact hid
    · cases htarget
  · rename_i hnone
    split at htarget
    · rename_i pending hpending
      cases htarget
      intro hid
      have hid : pending.userId = userId := hid
      simp [enrollSafe, hnone, hpending, hid, h.userTotpEnabled henabled] at hsafe
    · cases htarget

end

variable {r : Request}

theorem step_request (env : Env) (hholds : w.holds r.cookies) : w.step env (.request r) =
      { now := w.now
        db := (handle env w.now w.db r).1
        sessionCookies := w.sessionCookies ++ (handle env w.now w.db r).2.cookies.filterMap SetCookie.sessionToken
        pendingCookies := w.pendingCookies ++ (handle env w.now w.db r).2.cookies.filterMap SetCookie.pendingToken
        sent := w.sent ++ [(w.now, r)] } := by
  simp only [step, hholds, if_true]

theorem Intact.of_harmless (h : Intact userId secret start w) (hholds : w.holds r.cookies)
    (hharmless : Harmless userId w.db (handle env w.now w.db r)) :
    Intact userId secret start (w.step env (.request r)) := by
  rw [step_request env hholds]
  refine ⟨hharmless.users.trans h.users, hharmless.secret.trans h.secret_eq, ?_, ?_, ?_⟩
  · rcases hharmless.sessions with ⟨hsame, _⟩ | ⟨other, expiresAt, hother, _, hsessions, _⟩
    · simp only [Db.sessionsOf, hsame]
      exact h.sessions
    · simp only [Db.sessionsOf, hsessions, filter_append]
      rw [filter_cons_of_neg (by simpa using hother), filter_nil, append_nil]
      exact h.sessions
  · intro token htoken
    rcases mem_append.mp htoken with htoken | htoken
    · exact (h.cookies_lt token htoken).trans_le hharmless.next
    · rcases hharmless.sessions with ⟨_, hnone⟩ | ⟨other, expiresAt, _, hlt, _, hcookie⟩
      · simp [hnone] at htoken
      · rw [hcookie] at htoken
        rwa [mem_singleton.mp htoken]
  · intro token htoken s hs hst
    rcases hharmless.sessions with ⟨hsame, hnone⟩ | ⟨other, expiresAt, hother, _, hsessions, hcookie⟩
    · rw [hsame] at hs
      rw [hnone, append_nil] at htoken
      exact h.cookies token htoken s hs hst
    · simp only [hsessions] at hs
      rw [hcookie] at htoken
      rcases mem_append.mp hs with hs | hs
      · rcases mem_append.mp htoken with htoken | htoken
        · exact h.cookies token htoken s hs hst
        · -- a session that was there has an older token
          have hlt := w.db.token_lt s hs
          rw [hst, mem_singleton.mp htoken] at hlt
          exact absurd hlt (Nat.lt_irrefl _)
      · rw [mem_singleton.mp hs]
        exact hother

theorem Intact.handle_harmless (h : Intact userId secret start w) (henabled : secret.enabled)
    (henforced : Enforced env w.db userId) (hholds : w.holds r.cookies)
    (hsafe : enrollSafe userId w (.request r)) (hcode : carriesCode env secret (w.now, r) = false) :
    Harmless userId w.db (handle env w.now w.db r) := by
  have hinvalid : ∀ code, r.code = some code → env.verifyCode secret code w.now = false := by
    intro code hr
    simpa [carriesCode, hr] using hcode
  cases r with
  | login form ip => exact loginSubmit_harmless henforced (h.userTotpEnabled henabled) form
  | mfa cookies code ip => exact mfaSubmit_harmless h.secret_eq (hinvalid code rfl)
  | enroll cookies generated => exact totpEnroll_harmless (h.resolveTotpIdentity henabled hholds hsafe)
  | verify cookies code => exact totpVerify_harmless h.secret_eq (hinvalid code rfl)
  | disable cookies code => exact totpDisable_harmless fun _ hidentity => h.sessionIdentity hholds hidentity

def Guards (env : Env) (userId : UserId) (secret : TotpSecret) (start : Db) (w : World) : Prop :=
  (∃ sent ∈ w.sent, carriesCode env secret sent = true) ∨ Intact userId secret start w

theorem Enforced.of_users {db db' : Db} (h : Enforced env db userId) (husers : db'.users = db.users) :
    Enforced env db' userId := by
  have hemail : db'.getUserByEmail = db.getUserByEmail := by
    funext email
    rw [Db.getUserByEmail, Db.getUserByEmail, husers]
  have hresolve : ∀ subject, resolveUserForSubject env db' subject = resolveUserForSubject env db subject := by
    intro subject
    rw [resolveUserForSubject, resolveUserForSubject, hemail]
  rcases h with hall | ⟨hadmins, hrole⟩
  · exact .inl hall
  · refine .inr ⟨hadmins, fun now request subject role user hauth huser => ?_⟩
    exact hrole now request subject role user hauth (by rw [← hresolve]; exact huser)

theorem Guards.step (henabled : secret.enabled) (henforced : Enforced env start userId) {event : Event}
    (h : Guards env userId secret start w) (hsafe : enrollSafe userId w event) :
    Guards env userId secret start (w.step env event) := by
  cases event with
  | tick =>
    rcases h with hsent | h
    · exact .inl hsent
    · exact .inr ⟨h.users, h.secret_eq, h.sessions, h.cookies_lt, h.cookies⟩
  | request r =>
    by_cases hholds : w.holds r.cookies
    · rcases h with ⟨sent, hmem, hcode⟩ | h
      · refine .inl ⟨sent, ?_, hcode⟩
        rw [step_request env hholds]
        exact mem_append_left _ hmem
      · cases hcode : carriesCode env secret (w.now, r) with
        | true =>
          refine .inl ⟨(w.now, r), ?_, hcode⟩
          rw [step_request env hholds]
          exact mem_append_right _ (mem_singleton_self _)
        | false =>
          exact .inr (h.of_harmless hholds
            (h.handle_harmless henabled (henforced.of_users h.users) hholds hsafe hcode))
    · simpa only [World.step, hholds, Bool.false_eq_true, if_false] using h

theorem Guards.init {db : Db} (now : Time) (hsecret : db.getTotpSecret userId = some secret) :
    Guards env userId secret db (World.init db now) :=
  .inr ⟨rfl, hsecret, rfl, by simp [World.init], by simp [World.init]⟩

end Runs

/-- **Second-factor safety.** For a user with an enabled factor under enforcement, and without enrollments
through a pending-MFA record of the user while the factor is enabled, a session is created only if a request
carried a code valid for the secret enrolled at the start. -/
theorem session_needs_enrolled_code (env : Env) (db : Db) (now : Time) (userId : UserId) (secret : TotpSecret)
    (hsecret : db.getTotpSecret userId = some secret) (henabled : secret.enabled = true)
    (henforced : Enforced env db userId) (events : List Event)
    (hsafe : Guarded (step env) (fun w event => enrollSafe userId w event = true)
      (init db now) events)
    (hsession : (run (step env) (init db now) events).db.sessionsOf userId ≠ db.sessionsOf userId) :
    ∃ sent ∈ (run (step env) (init db now) events).sent, carriesCode env secret sent = true := by
  have hguards : Guards env userId secret db (run (step env) (init db now) events) :=
    invariant_run (step env) (fun _ _ => Guards.step henabled henforced)
      (Guards.init now hsecret) hsafe
  exact hguards.resolve_right fun hintact => hsession hintact.sessions

def enrolledSecret : TotpSecret := ⟨"JBSWY3DPEHPK3PXPJBSWY3DPEHPK3PXP", "SHA1", 6, 30, true⟩

def generatedSecret : String := "GEZDGNBVGY3TQOJQGEZDGNBVGY3TQOJQ"

def codesAt59 (secretB32 : String) : List String :=
  if secretB32 = enrolledSecret.secretB32 then ["702218", "503347", "946038"]
  else if secretB32 = generatedSecret then ["755224", "287082", "359152"]
  else []

def exampleEnv : Env :=
  { enforcement := .all
    skew := 1
    issuer := "persea"
    authenticate := fun _ request =>
      if request.username = some "alice@example.com" ∧ request.password = some "s3cret-p@ss" then
        .success "alice@example.com" none
      else .failure "invalid credentials"
    lookupUser := fun _ => none
    checkCode := fun secretB32 code algorithm digits period skew now =>
      algorithm = .sha1 ∧ digits = 6 ∧ period = 30 ∧ skew = 1 ∧ now = 59 ∧ code ∈ codesAt59 secretB32 }

def exampleDb : Db :=
  { users := [⟨1, "alice@example.com", "operator", false⟩]
    totpSecrets := (∅ : Store UserId TotpSecret).insert 1 enrolledSecret
    pendingMfa := []
    authSessions := []
    failedAttempts := []
    nextToken := 0
    email_unique := by simp
    token_lt := by simp }

def passwordLogin : Event := .request (.login ⟨"alice@example.com", "s3cret-p@ss", false, false⟩ "10.0.0.1")

def loginWithCode : List Event := [passwordLogin, .request (.mfa ⟨none, some 0⟩ "503347" "10.0.0.1")]

/-- Alice logs in with a code of their own. -/
theorem session_with_enrolled_code : (run (step exampleEnv) (init exampleDb 59) loginWithCode).db.sessionsOf 1 =
        [⟨1, 1, 59 + 86400⟩] ∧
      ∃ sent ∈ (run (step exampleEnv) (init exampleDb 59) loginWithCode).sent,
        carriesCode exampleEnv enrolledSecret sent = true :=
  ⟨by decide +kernel, session_needs_enrolled_code exampleEnv exampleDb 59 1 enrolledSecret
    (by decide +kernel) rfl (.inl rfl) loginWithCode (by decide +kernel) (by decide +kernel)⟩

/-- The pending-MFA cookie of the MFA gate is used to replace the secret, and the new secret to log in. -/
def replaceSecret : List Event :=
  [passwordLogin, .request (.enroll ⟨none, some 0⟩ generatedSecret),
    .request (.verify ⟨none, some 0⟩ "287082"), .request (.mfa ⟨none, some 0⟩ "287082" "10.0.0.1")]

/-- **The password alone is enough**: a session, and no request with a code for the enrolled secret. -/
theorem session_without_enrolled_code : (run (step exampleEnv) (init exampleDb 59) replaceSecret).db.sessionsOf 1 =
        [⟨1, 1, 59 + 86400⟩] ∧
      exampleDb.sessionsOf 1 = [] ∧
      ∀ sent ∈ (run (step exampleEnv) (init exampleDb 59) replaceSecret).sent,
        carriesCode exampleEnv enrolledSecret sent = false := by
  refine ⟨?_, ?_, ?_⟩ <;> decide +kernel

end Persea.Mfa
