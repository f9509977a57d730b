import Persea.BaseTransition
import Persea.MfaHandlers

/-! Concurrent submissions of the MFA page, one statement at a time. The pending record is read by one statement and
deleted by a later one, whose result the handler does not look at. -/

namespace Persea.Mfa

open Base List Transition

/-- Where a call of `mfa_submit` is. A statement of the database lies between two phases. -/
inductive Submit where
  | started (code ip : String)
  | found (code ip : String) (pending : PendingMfa)
  | unlocked (code ip : String) (pending : PendingMfa)
  | refused (ip : String) (pending : PendingMfa)
  | verified (pending : PendingMfa)
  | spent (pending : PendingMfa)
  | done (session : Option Token) (response : Response)
deriving DecidableEq

open Submit

def Submit.next (env : Env) (now : Time) (db : Db) (token : Token) (ok : Bool) : Submit → Db × Submit
  | .started code ip =>
    match if ok then db.getPendingMfa now token else none with
    | none => (db, .done none (.redirect "/auth/mfa?error=expired" []))
    | some pending => (db, .found code ip pending)
  | .found code ip pending =>
    -- The lockout check fails closed.
    if ok = false ∨ db.isLockedOut now pending.userEmail ip = true then
      (db, .done none (.redirect "/auth/mfa?error=account_locked" []))
    else (db, .unlocked code ip pending)
  | .unlocked code ip pending =>
    if ok = true ∧ env.verifyUserCode db pending.userId code now = true then (db, .verified pending)
    else (db, .refused ip pending)
  | .refused ip pending =>
    (if ok then db.recordFailedLoginAttempt now pending.userEmail ip else db,
      .done none (.redirect "/auth/mfa?error=invalid_code" []))
  | .verified pending => (if ok then db.deletePendingMfa token else db, .spent pending)
  | .spent pending =>
    if ok then
      (db.createAuthSession now pending.userId 86400,
        .done (some db.nextToken) (loggedIn pending.desktop [.session db.nextToken 86400, .clearPendingMfa]))
    else (db, .done none (.redirect "/?error=session_failed" []))
  | .done session response => (db, .done session response)

def Submit.Created : Submit → Prop
  | .done session _ => session.isSome
  | _ => False

def Submit.holds : Submit → Bool
  | .found _ _ _ | .unlocked _ _ _ | .verified _ => true
  | _ => false

def Submit.past : Submit → Bool
  | .spent _ => true
  | .done session _ => session.isSome
  | _ => false

theorem Submit.past_of_created {s : Submit} (h : s.Created) : s.past := by
  cases s with
  | done => exact h
  | started | found | unlocked | refused | verified | spent => exact h.elim

def Submit.solo (env : Env) (now : Time) (token : Token) : Nat → Db × Submit → Db × Submit
  | 0, s => s
  | n + 1, (db, s) => solo env now token n (s.next env now db token true)

theorem Submit.solo_succ (env : Env) (now : Time) (token : Token) (n : Nat) (db : Db) (s : Submit) :
    solo env now token (n + 1) (db, s) = solo env now token n (s.next env now db token true) := rfl

theorem Submit.solo_done (env : Env) (now : Time) (token : Token) (n : Nat) (db : Db) (session : Option Token)
    (response : Response) :
    solo env now token n (db, .done session response) = (db, .done session response) := by
  induction n with
  | zero => rfl
  | succ n ih => exact ih

/-- **A request alone.** Its five statements, uninterrupted and without a failure, are the handler. -/
theorem solo_eq_mfaSubmit (env : Env) (now : Time) (db : Db) (token : Token) (session : Option Token)
    (code ip : String) :
    ∃ created, Submit.solo env now token 5 (db, .started code ip) =
      ((mfaSubmit env now db ⟨session, some token⟩ code ip).1,
        .done created (mfaSubmit env now db ⟨session, some token⟩ code ip).2) := by
  cases hpending : db.getPendingMfa now token with
  | none =>
    have hnext : (Submit.started code ip).next env now db token true =
        (db, .done none (.redirect "/auth/mfa?error=expired" [])) := by
      simp [Submit.next, hpending]
    refine ⟨none, ?_⟩
    rw [Submit.solo_succ, hnext, Submit.solo_done]
    simp [mfaSubmit, hpending]
  | some pending =>
    have hfound : (Submit.started code ip).next env now db token true = (db, .found code ip pending) := by
      simp [Submit.next, hpending]
    rw [Submit.solo_succ, hfound, Submit.solo_succ]
    cases hlocked : db.isLockedOut now pending.userEmail ip with
    | true =>
      have hnext : (Submit.found code ip pending).next env now db token true =
          (db, .done none (.redirect "/auth/mfa?error=account_locked" [])) := by
        simp [Submit.next, hlocked]
      refine ⟨none, ?_⟩
      rw [hnext, Submit.solo_done]
      simp [mfaSubmit, hpending, hlocked]
    | false =>
      have hunlocked : (Submit.found code ip pending).next env now db token true =
          (db, .unlocked code ip pending) := by
        simp [Submit.next, hlocked]
      rw [hunlocked, Submit.solo_succ]
      cases hvalid : env.verifyUserCode db pending.userId code now with
      | false =>
        have hrefused : (Submit.unlocked code ip pending).next env now db token true = (db, .refused ip pending) := by
          simp [Submit.next, hvalid]
        refine ⟨none, ?_⟩
        rw [hrefused, Submit.solo_succ]
        simp only [Submit.next, Submit.solo_done, if_true]
        simp [mfaSubmit, hpending, hlocked, hvalid]
      | true =>
        have hverified : (Submit.unlocked code ip pending).next env now db token true = (db, .verified pending) := by
          simp [Submit.next, hvalid]
        refine ⟨some db.nextToken, ?_⟩
        rw [hverified, Submit.solo_succ]
        simp only [Submit.next, Submit.solo, if_true]
        simp [mfaSubmit, hpending, hlocked, hvalid, Db.deletePendingMfa]

/-! ### All requests with the record's cookie -/

structure SubmitWorld where
  db : Db
  now : Time
  submits : List Submit

inductive SubmitEvent where
  /-- A request with the cookie comes in. -/
  | submit (code ip : String)
  | statement (i : Nat) (ok : Bool)
  | tick (seconds : Nat)
  /-- Any other statement: it may delete the record and does not write one with this token, which is random. -/
  | others (db : Db)

namespace SubmitWorld

def step (env : Env) (token : Token) (w : SubmitWorld) : SubmitEvent → SubmitWorld
  | .submit code ip => { w with submits := w.submits ++ [.started code ip] }
  | .statement i ok =>
    match w.submits[i]? with
    | none => w
    | some s =>
      let next := s.next env w.now w.db token ok
      { w with db := next.1, submits := w.submits.set i next.2 }
  | .tick seconds => { w with now := w.now + seconds }
  | .others db =>
    if ∀ p ∈ db.pendingMfa, p.token = token → p ∈ w.db.pendingMfa then { w with db } else w

/-- A request reads the record while no other one is between its read and its delete, and the delete does not
fail. -/
def MayProceed (w : SubmitWorld) (ok : Bool) : Submit → Prop
  | .started _ _ => ∀ s ∈ w.submits, s.holds = false
  | .verified _ => ok = true
  | _ => True

instance (w : SubmitWorld) (ok : Bool) : (s : Submit) → Decidable (w.MayProceed ok s)
  | .started _ _ => inferInstanceAs (Decidable (∀ s ∈ w.submits, s.holds = false))
  | .verified _ => inferInstanceAs (Decidable (ok = true))
  | .found _ _ _ | .unlocked _ _ _ | .refused _ _ | .spent _ | .done _ _ => isTrue trivial

def OneAtATime (w : SubmitWorld) : SubmitEvent → Prop
  | .statement i ok => ∀ s ∈ w.submits[i]?, w.MayProceed ok s
  | _ => True

instance (w : SubmitWorld) : (event : SubmitEvent) → Decidable (w.OneAtATime event)
  | .statement i ok => inferInstanceAs (Decidable (∀ s ∈ w.submits[i]?, w.MayProceed ok s))
  | .submit _ _ | .tick _ | .others _ => isTrue trivial

/-- One request at most is past its read, and once it is past its delete the record is gone. -/
structure Inv (token : Token) (w : SubmitWorld) : Prop where
  alone : Exclusive (fun s : Submit => s.holds ∨ s.past) w.submits
  gone : ∀ s ∈ w.submits, s.past = true → ∀ p ∈ w.db.pendingMfa, p.token ≠ token

variable {env : Env} {token : Token} {w : SubmitWorld}

theorem inv_start (token : Token) (db : Db) (now : Time) : Inv token ⟨db, now, []⟩ where
  alone := exclusive_nil _
  gone _ hs := by cases hs

theorem Inv.move (hinv : w.Inv token) {i : Nat} {s s' : Submit} {db : Db} (hi : w.submits[i]? = some s)
    (hrecords : ∀ p ∈ db.pendingMfa, p ∈ w.db.pendingMfa)
    (hengaged : s'.holds ∨ s'.past → s.holds ∨ s.past)
    (hpast : s'.past → s.past ∨ ∀ p ∈ db.pendingMfa, p.token ≠ token) :
    Inv token { w with db, submits := w.submits.set i s' } where
  alone := by
    apply hinv.alone.set
    intro h j b hj hb hengagedb
    exact hj (hinv.alone j i b s hb hi hengagedb (hengaged h))
  gone := by
    intro a ha hpasta p hp
    obtain ⟨j, hj⟩ := mem_iff_getElem?.mp ha
    rcases getElem?_set_cases hj with ⟨-, rfl⟩ | ⟨-, hold⟩
    · rcases hpast hpasta with hpasts | hgone
      · exact hinv.gone s (mem_of_getElem? hi) hpasts p (hrecords p hp)
      · exact hgone p hp
    · exact hinv.gone a (mem_of_getElem? hold) hpasta p (hrecords p hp)

theorem Inv.read (hinv : w.Inv token) {i : Nat} {code ip : String} {pending : PendingMfa}
    (hfree : ∀ s ∈ w.submits, s.holds = false) (hpending : w.db.getPendingMfa w.now token = some pending) :
    Inv token { w with submits := w.submits.set i (.found code ip pending) } where
  alone := by
    have htoken : pending.token = token := by
      have h := find?_some hpending
      simp only [decide_eq_true_eq] at h
      exact h.1
    apply hinv.alone.set
    intro _ j b _ hb hengaged
    have hb := mem_of_getElem? hb
    rcases hengaged with hholds | hpast
    · exact absurd hholds (by simp [hfree b hb])
    · exact hinv.gone b hb hpast pending (mem_of_find?_eq_some hpending) htoken
  gone := by
    intro a ha hpast p hp
    obtain ⟨j, hj⟩ := mem_iff_getElem?.mp ha
    rcases getElem?_set_cases hj with ⟨-, rfl⟩ | ⟨-, hold⟩
    · cases hpast
    · exact hinv.gone a (mem_of_getElem? hold) hpast p hp

theorem Inv.statement (hinv : w.Inv token) {i : Nat} {ok : Bool} (hguard : w.OneAtATime (.statement i ok)) :
    (w.step env token (.statement i ok)).Inv token := by
  simp only [step]
  cases hi : w.submits[i]? with
  | none => exact hinv
  | some s =>
    have hproceed : w.MayProceed ok s := hguard s hi
    cases s with
    | started code ip =>
      cases hread : if ok then w.db.getPendingMfa w.now token else none with
      | none =>
        simp only [Submit.next, hread]
        exact hinv.move hi (fun _ hp => hp) (by simp [Submit.holds, Submit.past]) (by simp [Submit.past])
      | some pending =>
        simp only [Submit.next, hread]
        exact hinv.read hproceed (Option.ite_none_right_eq_some.mp hread).2
    | found code ip pending | unlocked code ip pending =>
      simp only [Submit.next]
      split_ifs
      · exact hinv.move hi (fun _ hp => hp) (by simp [Submit.holds]) (by simp [Submit.past])
      · exact hinv.move hi (fun _ hp => hp) (by simp [Submit.holds]) (by simp [Submit.past])
    | refused ip pending =>
      refine hinv.move hi ?_ (by simp [Submit.next, Submit.holds, Submit.past])
        (by simp [Submit.next, Submit.past])
      intro p hp
      cases ok <;> exact hp
    | verified pending =>
      obtain rfl : ok := hproceed
      apply hinv.move hi
      · intro p hp
        exact mem_of_mem_filter hp
      · simp [Submit.holds]
      · intro _
        right
        intro p hp
        simpa using (mem_filter.mp hp).2
    | spent pending =>
      simp only [Submit.next]
      split_ifs
      · exact hinv.move hi (fun _ hp => hp) (by simp [Submit.past]) (by simp [Submit.past])
      · exact hinv.move hi (fun _ hp => hp) (by simp [Submit.past]) (by simp [Submit.past])
    | done session response => exact hinv.move hi (fun _ hp => hp) id .inl

theorem Inv.step {event : SubmitEvent} (hinv : w.Inv token) (hguard : w.OneAtATime event) :
    (w.step env token event).Inv token := by
  cases event with
  | submit code ip =>
    refine ⟨hinv.alone.concat (by simp [holds, past]), ?_⟩
    intro s hs hpast
    rcases mem_append.mp hs with hs | hs
    · exact hinv.gone s hs hpast
    · rw [mem_singleton.mp hs] at hpast
      cases hpast
  | statement i ok => exact hinv.statement hguard
  | tick seconds => exact ⟨hinv.alone, hinv.gone⟩
  | others db =>
    simp only [SubmitWorld.step]
    split_ifs with hrecords
    · refine ⟨hinv.alone, fun s hs hpast p hp htoken => ?_⟩
      exact hinv.gone s hs hpast p (hrecords p hp htoken) htoken
    · exact hinv

/-- **A pending login is spent once.** In every state of every run in which a request reads the record only while
no other one is between its read and its delete, and no delete fails, at most one request has created an
auth session. -/
theorem created_at_most_once (env : Env) (token : Token) (db : Db) (now : Time) (events : List SubmitEvent)
    (hguarded : Guarded (step env token) OneAtATime ⟨db, now, []⟩ events) :
    Exclusive Created (run (step env token) ⟨db, now, []⟩ events).submits := by
  have hinv : (run (step env token) ⟨db, now, []⟩ events).Inv token :=
    invariant_run (step env token) (fun _ _ hinv hguard => hinv.step hguard) (inv_start token db now)
      hguarded
  intro i j a b ha hb hcreateda hcreatedb
  exact hinv.alone i j a b ha hb (.inr (past_of_created hcreateda))
    (.inr (past_of_created hcreatedb))

def oneCodeEnv : Env where
  enforcement := .all
  skew := 1
  issuer := "persea"
  authenticate _ _ := .unavailable ""
  lookupUser _ := none
  checkCode _ code _ _ _ _ _ := code = "123456"

def onePendingDb : Db where
  users := []
  totpSecrets := AList.insert 7 ⟨"ABC", "SHA1", 6, 30, true⟩ ∅
  pendingMfa := [⟨1, 7, "ann@example.com", false, 300⟩]
  authSessions := []
  failedAttempts := []
  nextToken := 2
  email_unique := by simp
  token_lt := by simp

/-- Two submissions of the same code, and the order of their statements. -/
def twoSubmissions (order : List Nat) : List SubmitEvent :=
  [SubmitEvent.submit "123456" "192.0.2.1", .submit "123456" "192.0.2.1"] ++ order.map (SubmitEvent.statement · true)

def inTurn : List SubmitEvent := twoSubmissions [0, 0, 0, 0, 0, 1]

def inParallel : List SubmitEvent := twoSubmissions [0, 1, 0, 1, 0, 1, 0, 1, 0, 1]

theorem created_at_most_once_in_turn : Guarded (step oneCodeEnv 1) OneAtATime ⟨onePendingDb, 0, []⟩ inTurn ∧
      Exclusive Created
        (run (step oneCodeEnv 1) ⟨onePendingDb, 0, []⟩ inTurn).submits := by
  have hguarded : Guarded (step oneCodeEnv 1) OneAtATime ⟨onePendingDb, 0, []⟩ inTurn := by decide +kernel
  exact ⟨hguarded, created_at_most_once oneCodeEnv 1 onePendingDb 0 inTurn hguarded⟩

/-- **One record, two sessions.** Both requests read the record before either deletes it. -/
theorem created_twice_in_parallel : ¬Exclusive Created
      (run (step oneCodeEnv 1) ⟨onePendingDb, 0, []⟩ inParallel).submits := by
  have hdone : (run (step oneCodeEnv 1) ⟨onePendingDb, 0, []⟩ inParallel).submits =
      [.done (some 2) (loggedIn false [.session 2 86400, .clearPendingMfa]),
        .done (some 3) (loggedIn false [.session 3 86400, .clearPendingMfa])] := by
    decide +kernel
  rw [hdone]
  intro hexclusive
  exact absurd (hexclusive 0 1 _ _ rfl rfl rfl rfl) (by decide)

end SubmitWorld

end Persea.Mfa
