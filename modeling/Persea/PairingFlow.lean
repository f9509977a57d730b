import Persea.BaseText
import Persea.BaseTransition
import Persea.AuthIdentity

/-! Device pairing. A world follows one code and every confirm and status request of any instance, one SQL statement a
step. Times are in milliseconds; the table keeps whole seconds. -/

namespace Persea.Pairing

open Base Base.Text Auth List Transition

def pairTtlSecs : Nat := 600

def codeAlphabet : Text := "ABCDEFGHJKMNPQRSTUVWXYZ23456789"

def codeLen : Nat := 8

def hostnameMaxLen : Nat := 64

def normalizeCode (raw : Text) : Text := (raw.filter fun c => !isWhitespace c && c ≠ '-').map Char.toUpper

def validCodeShape (code : Text) : Bool := code.length = codeLen && code.all (· ∈ codeAlphabet)

def sanitizeHostname (raw : Text) : Text :=
  trim ((raw.filter fun c => c.isAlphanum || c ∈ "-_.: ()[]".toList).take hostnameMaxLen)

def tokenName (hostname : Text) : Text :=
  let hostname := sanitizeHostname hostname
  if hostname = [] then "Persea Desktop" else "Persea Desktop (" ++ hostname ++ ")"

def dbTs (time : Nat) : Nat := time / 1000

def isExpired (expiresAt now : Nat) : Bool := expiresAt * 1000 ≤ now

inductive AppError where
  | auth (msg : String)
  | forbidden (msg : String)
  | internal (msg : String)
  | validation (msg : String)
  | notFound (msg : String)
  | conflict (msg : String)
deriving DecidableEq, Repr

inductive PairingError where
  | rateLimited
  | gone (msg : String)
  | app (e : AppError)
deriving DecidableEq, Repr

def dbErr (e : String) : PairingError := .app (.internal ("database error: " ++ e))

structure PairingRow where
  userId : Option Nat
  hostname : Text
  expiresAt : Nat
  consumedAt : Option Nat
deriving DecidableEq, Repr

structure User where
  id : Nat
  email : String
  role : String
deriving DecidableEq, Repr

structure UserToken where
  id : Nat
  userId : Nat
  name : Text
  maxRole : String
deriving DecidableEq, Repr

def PairingRow.bind (row : PairingRow) (userId nowDb : Nat) : Option PairingRow :=
  if row.userId = none ∧ row.consumedAt = none ∧ row.expiresAt > nowDb then some { row with userId := some userId }
  else none

def PairingRow.claim (row : PairingRow) (nowDb : Nat) : Option PairingRow :=
  if row.userId.isSome ∧ row.consumedAt = none ∧ row.expiresAt > nowDb then
    some { row with consumedAt := some nowDb }
  else none

inductive Confirm where
  /-- The checks before the first statement have passed, and the clock has been read. -/
  | started (email : String) (code : Text) (now : Nat)
  | looking (userId : Nat) (code : Text) (now : Nat)
  | binding (userId : Nat) (code : Text) (now : Nat) (hostname : Text)
  | approved (userId : Nat) (deviceName : Text)
  | failed (e : PairingError)
deriving DecidableEq, Repr

open Confirm

def confirmPairing (identity : Option AuthIdentity) (raw : Text) (now : Nat) : Confirm :=
  match identity with
  | none => .failed (.app (.auth "authentication required"))
  | some id =>
    if ¬id.hasRole "poweruser" then
      .failed (.app (.forbidden "poweruser role or higher required to approve device pairing"))
    else
      match id with
      | .apiKey _ => .failed (.app (.internal "API key identities cannot approve device pairing"))
      | .user email _ _ _ =>
        if ¬validCodeShape (normalizeCode raw) then .failed (.app (.validation "invalid pairing code"))
        else .started email (normalizeCode raw) now

def confirmFound (userId : Nat) (code : Text) (now : Nat) : Option PairingRow → Confirm
  | none => .failed (.app (.notFound "pairing code not found"))
  | some row =>
    if isExpired row.expiresAt now then .failed (.gone "pairing code expired")
    else if row.userId.isSome ∨ row.consumedAt.isSome then .failed (.gone "pairing code already used")
    else .binding userId code now row.hostname

inductive Poll where
  | started (code : Text) (now : Nat)
  | approved (code : Text) (userId : Nat) (hostname : Text)
  /-- The clock has been read once more. -/
  | claiming (code : Text) (userId : Nat) (hostname : Text) (now : Nat)
  | claimed (userId : Nat) (hostname : Text)
  | revoked (userId : Nat) (hostname : Text)
  | identified (userId : Nat) (hostname : Text) (role : String)
  | pending
  | token (token : UserToken) (plaintext : String) (deviceName : Text)
  | failed (e : PairingError)
deriving DecidableEq, Repr

def pairingStatus (raw : Text) (allowed : Bool) (now : Nat) : Poll :=
  if ¬validCodeShape (normalizeCode raw) then .failed (.app (.notFound "pairing code not found"))
  else if ¬allowed then .failed .rateLimited
  else .started (normalizeCode raw) now

def statusFound (code : Text) (now : Nat) : Option PairingRow → Poll
  | none => .failed (.app (.notFound "pairing code not found"))
  | some row =>
    if isExpired row.expiresAt now then .failed (.gone "pairing code expired")
    else if row.consumedAt.isSome then .failed (.gone "pairing code already used")
    else
      match row.userId with
      | none => .pending
      | some userId => .approved code userId row.hostname

def createTokenErr (msg : String) : PairingError :=
  if "UNIQUE constraint" <:+: msg.toList then
    .app (.conflict "token name already exists — revoke the previous desktop token and sign in again")
  else .app (.internal "failed to create token")

/-! ### All requests for a code -/

structure World where
  now : Nat
  code : Text
  row : PairingRow
  users : List User
  tokens : List UserToken
  nextToken : Nat
  confirms : List Confirm
  polls : List Poll
  /-- When the updates of the row took effect. -/
  effects : List Nat
deriving DecidableEq, Repr

open World

def World.create (code hostname : Text) (now : Nat) (users : List User) (tokens : List UserToken)
    (nextToken : Nat) : World where
  now := now
  code := code
  row := ⟨none, sanitizeHostname hostname, dbTs (now + pairTtlSecs * 1000), none⟩
  users := users
  tokens := tokens
  nextToken := nextToken
  confirms := []
  polls := []
  effects := []

abbrev Fault := Option String

inductive Event where
  | tick (ms : Nat)
  | environment (users : List User) (tokens : List UserToken)
  | confirm (identity : Option AuthIdentity) (raw : Text)
  | getUser (c : Nat) (fault : Fault)
  | confirmLookup (c : Nat) (fault : Fault)
  | bind (c : Nat) (fault : Fault)
  | status (raw : Text) (allowed : Bool)
  | statusLookup (p : Nat) (fault : Fault)
  | readClock (p : Nat)
  | claim (p : Nat) (fault : Fault)
  | revoke (p : Nat) (fault : Fault)
  | userIdentity (p : Nat) (fault : Fault)
  | createToken (p : Nat) (plaintext : String) (fault : Fault)
deriving DecidableEq, Repr

namespace World

variable (w : World)

def setConfirm (c : Nat) (phase : Confirm) : World := { w with confirms := w.confirms.set c phase }

def setPoll (p : Nat) (phase : Poll) : World := { w with polls := w.polls.set p phase }

def lookup (code : Text) : Option PairingRow := if code = w.code then some w.row else none

def select {α : Type} (w : World) (code : Text) (failed : PairingError → α) (found : Option PairingRow → α) :
    Fault → α
  | some e => failed (dbErr e)
  | none => found (w.lookup code)

def update (row : PairingRow) : World := { w with row, effects := w.effects ++ [w.now] }

def bind (w : World) (c userId : Nat) (code : Text) (now : Nat) (hostname : Text) : Fault → World
  | some e => w.setConfirm c (.failed (dbErr e))
  | none =>
    match (w.lookup code).bind (·.bind userId (dbTs now)) with
    | some row => (w.update row).setConfirm c (.approved userId hostname)
    | none => w.setConfirm c (.failed (.gone "pairing code already used"))

def claim (w : World) (p : Nat) (code : Text) (userId : Nat) (hostname : Text) (now : Nat) : Fault → World
  | some e => w.setPoll p (.failed (dbErr e))
  | none =>
    match (w.lookup code).bind (·.claim (dbTs now)) with
    | some row => (w.update row).setPoll p (.claimed userId hostname)
    | none => w.setPoll p (.failed (.gone "pairing code already used"))

def createToken (p userId : Nat) (hostname : Text) (role plaintext : String) : Fault → World
  | some e => w.setPoll p (.failed (createTokenErr e))
  | none =>
    let name := tokenName hostname
    if w.tokens.any fun t => t.userId = userId && t.name = name then
      w.setPoll p (.failed (createTokenErr
        "UNIQUE constraint failed: user_api_tokens.user_id, user_api_tokens.name"))
    else
      let token := ⟨w.nextToken, userId, name, role⟩
      { w with tokens := w.tokens ++ [token], nextToken := w.nextToken + 1 }.setPoll p
        (.token token plaintext hostname)

def step : Event → World
  | .tick ms => { w with now := w.now + ms }
  | .environment users tokens => { w with users, tokens }
  | .confirm identity raw => { w with confirms := w.confirms ++ [confirmPairing identity raw w.now] }
  | .getUser c fault =>
    match w.confirms[c]? with
    | some (.started email code now) =>
      match w.users.find? (·.email = email), fault with
      | some user, none => w.setConfirm c (.looking user.id code now)
      | _, _ => w.setConfirm c (.failed (.app (.internal "failed to look up user")))
    | _ => w
  | .confirmLookup c fault =>
    match w.confirms[c]? with
    | some (.looking userId code now) => w.setConfirm c (w.select code .failed (confirmFound userId code now) fault)
    | _ => w
  | .bind c fault =>
    match w.confirms[c]? with
    | some (.binding userId code now hostname) => w.bind c userId code now hostname fault
    | _ => w
  | .status raw allowed => { w with polls := w.polls ++ [pairingStatus raw allowed w.now] }
  | .statusLookup p fault =>
    match w.polls[p]? with
    | some (.started code now) => w.setPoll p (w.select code .failed (statusFound code now) fault)
    | _ => w
  | .readClock p =>
    match w.polls[p]? with
    | some (.approved code userId hostname) => w.setPoll p (.claiming code userId hostname w.now)
    | _ => w
  | .claim p fault =>
    match w.polls[p]? with
    | some (.claiming code userId hostname now) => w.claim p code userId hostname now fault
    | _ => w
  | .revoke p fault =>
    match w.polls[p]?, fault with
    | some (.claimed userId hostname), none =>
      { w with tokens := w.tokens.filter fun t => ¬(t.userId = userId ∧ t.name = tokenName hostname) }.setPoll p
        (.revoked userId hostname)
    | some (.claimed _ _), some e => w.setPoll p (.failed (dbErr e))
    | _, _ => w
  | .userIdentity p fault =>
    match w.polls[p]?, fault with
    | some (.revoked userId hostname), none =>
      match w.users.find? (·.id = userId) with
      | some user => w.setPoll p (.identified userId hostname user.role)
      | none => w.setPoll p (.failed (.app (.notFound "user not found")))
    | some (.revoked _ _), some e => w.setPoll p (.failed (dbErr e))
    | _, _ => w
  | .createToken p plaintext fault =>
    match w.polls[p]? with
    | some (.identified userId hostname role) => w.createToken p userId hostname role plaintext fault
    | _ => w

end World

def Confirm.isApproved : Confirm → Bool
  | .approved _ _ => true
  | _ => false

def Confirm.clock : Confirm → Option Nat
  | .binding _ _ now _ => some now
  | _ => none

def Poll.clock : Poll → Option Nat
  | .claiming _ _ _ now => some now
  | _ => none

def Poll.hasToken : Poll → Bool
  | .token _ _ _ => true
  | _ => false

def Poll.holdsClaim : Poll → Bool
  | .claimed _ _ | .revoked _ _ | .identified _ _ _ | .token _ _ _ => true
  | _ => false

/-- The user the poll found the code bound to; the owner of its token. -/
def Poll.user : Poll → Option Nat
  | .approved _ userId _ | .claiming _ userId _ _ | .claimed userId _ | .revoked userId _ | .identified userId _ _ =>
    some userId
  | .token t _ _ => some t.userId
  | _ => none

/-- The condition: the code does not expire between a request's reading of the clock and its update. -/
def Punctual (w : World) : Event → Prop
  | .bind c _ => ∀ now ∈ w.confirms[c]?.bind clock,
      isExpired w.row.expiresAt now = false → isExpired w.row.expiresAt w.now = false
  | .claim p _ => ∀ now ∈ w.polls[p]?.bind Poll.clock,
      isExpired w.row.expiresAt now = false → isExpired w.row.expiresAt w.now = false
  | _ => True

instance (w : World) : (event : Event) → Decidable (Punctual w event)
  | .bind c _ => inferInstanceAs (Decidable (∀ now ∈ w.confirms[c]?.bind clock, _ → _))
  | .claim p _ => inferInstanceAs (Decidable (∀ now ∈ w.polls[p]?.bind Poll.clock, _ → _))
  | .tick _ | .environment _ _ | .confirm _ _ | .getUser _ _ | .confirmLookup _ _ | .status _ _ | .statusLookup _ _
  | .readClock _ | .revoke _ _ | .userIdentity _ _ | .createToken _ _ _ => isTrue trivial

variable {w : World}

variable {now : Nat} {row : PairingRow} {userId : Nat} {code : Text} {c : Nat}

theorem isExpired_of_dbTs_lt {expiresAt : Nat} (h : expiresAt > dbTs now) : isExpired expiresAt now = false := by
  unfold isExpired
  rw [decide_eq_false_iff_not, not_le]
  exact (Nat.div_lt_iff_lt_mul (by decide)).mp h

theorem PairingRow.bind_eq_some_iff {row' : PairingRow} {nowDb : Nat} :
    row.bind userId nowDb = some row' ↔ (row.userId = none ∧ row.consumedAt = none ∧ row.expiresAt > nowDb) ∧
      row' = { row with userId := some userId } := by
  unfold PairingRow.bind
  split_ifs with h
  · simp [h, eq_comm]
  · simp [h]

theorem PairingRow.claim_eq_some_iff {row' : PairingRow} {nowDb : Nat} :
    row.claim nowDb = some row' ↔ (row.userId.isSome ∧ row.consumedAt = none ∧ row.expiresAt > nowDb) ∧
      row' = { row with consumedAt := some nowDb } := by
  unfold PairingRow.claim
  split_ifs with h
  · simp [h, eq_comm]
  · simp [h]

namespace World

theorem lookup_eq_some (h : w.lookup code = some row) : row = w.row := by
  unfold lookup at h
  split_ifs at h
  exact (Option.some.inj h).symm

theorem bind_cases (w : World) (c userId : Nat) (code : Text) (now : Nat) (hostname : Text) (fault : Fault) :
    (∃ e, w.bind c userId code now hostname fault = w.setConfirm c (.failed e)) ∨
      ∃ row, w.row.bind userId (dbTs now) = some row ∧
        w.bind c userId code now hostname fault = (w.update row).setConfirm c (.approved userId hostname) := by
  cases fault with
  | some e => exact .inl ⟨_, rfl⟩
  | none =>
    unfold bind
    dsimp only
    split
    · rename_i row hrow
      obtain ⟨found, hfound, hbind⟩ := Option.bind_eq_some_iff.mp hrow
      rw [lookup_eq_some hfound] at hbind
      exact .inr ⟨row, hbind, rfl⟩
    · exact .inl ⟨_, rfl⟩

theorem claim_cases (w : World) (p : Nat) (code : Text) (userId : Nat) (hostname : Text) (now : Nat) (fault : Fault) :
    (∃ e, w.claim p code userId hostname now fault = w.setPoll p (.failed e)) ∨
      ∃ row, w.row.claim (dbTs now) = some row ∧
        w.claim p code userId hostname now fault = (w.update row).setPoll p (.claimed userId hostname) := by
  cases fault with
  | some e => exact .inl ⟨_, rfl⟩
  | none =>
    unfold claim
    dsimp only
    split
    · rename_i row hrow
      obtain ⟨found, hfound, hclaim⟩ := Option.bind_eq_some_iff.mp hrow
      rw [lookup_eq_some hfound] at hclaim
      exact .inr ⟨row, hclaim, rfl⟩
    · exact .inl ⟨_, rfl⟩

theorem createToken_cases (w : World) (p userId : Nat) (hostname : Text) (role plaintext : String) (fault : Fault) :
    (∃ e, w.createToken p userId hostname role plaintext fault = w.setPoll p (.failed e)) ∨
      ∃ tokens nextToken token, token.userId = userId ∧ w.createToken p userId hostname role plaintext fault =
        { w with tokens, nextToken }.setPoll p (.token token plaintext hostname) := by
  cases fault with
  | some e => exact .inl ⟨_, rfl⟩
  | none =>
    unfold createToken
    dsimp only
    split_ifs
    · exact .inl ⟨_, rfl⟩
    · exact .inr ⟨_, _, _, rfl, rfl⟩

/-! ### Once -/

/-- At most one confirmation and one claim; whoever has seen a user in the row has seen the one that confirmed. -/
structure Once (w : World) : Prop where
  confirmed : w.confirms.countP isApproved = if w.row.userId.isSome then 1 else 0
  approved_user : ∀ userId name, approved userId name ∈ w.confirms → w.row.userId = some userId
  claimed : w.polls.countP Poll.holdsClaim ≤ if w.row.consumedAt.isSome then 1 else 0
  poll_user : ∀ poll ∈ w.polls, ∀ userId, poll.user = some userId → w.row.userId = some userId

theorem once_create (code hostname : Text) (now : Nat) (users : List User) (tokens : List UserToken)
    (nextToken : Nat) : (create code hostname now users tokens nextToken).Once where
  confirmed := rfl
  approved_user _ _ h := absurd h not_mem_nil
  claimed := Nat.le_refl 0
  poll_user _ h := absurd h not_mem_nil

theorem Once.frame (h : w.Once) (now : Nat) (users : List User) (tokens : List UserToken) (nextToken : Nat) :
    Once { w with now, users, tokens, nextToken } :=
  ⟨h.confirmed, h.approved_user, h.claimed, h.poll_user⟩

theorem Once.setConfirm (h : w.Once) {p q : Confirm} (hc : w.confirms[c]? = some p)
    (hp : p.isApproved = false) (hq : q.isApproved = false) : (w.setConfirm c q).Once := by
  have hcount := countP_set (p := isApproved) hc q
  rw [hp, hq] at hcount
  refine ⟨(Nat.add_right_cancel hcount).trans h.confirmed, fun userId name hmem => ?_, h.claimed, h.poll_user⟩
  rcases mem_or_eq_of_mem_set hmem with hmem | rfl
  · exact h.approved_user userId name hmem
  · contradiction

variable {i : Nat} {p : Poll}

theorem Once.setPoll (h : w.Once) {q : Poll} (hp : w.polls[i]? = some p)
    (hclaim : q.holdsClaim → p.holdsClaim) (huser : ∀ userId, q.user = some userId → w.row.userId = some userId) :
    (w.setPoll i q).Once := by
  have hcount := countP_set (p := Poll.holdsClaim) hp q
  refine ⟨h.confirmed, h.approved_user, le_trans ?_ h.claimed, fun poll hmem => ?_⟩
  · show (w.polls.set i q).countP Poll.holdsClaim ≤ w.polls.countP Poll.holdsClaim
    by_cases hq : q.holdsClaim
    · rw [if_pos hq, if_pos (hclaim hq)] at hcount
      omega
    · rw [if_neg hq] at hcount
      omega
  · rcases mem_or_eq_of_mem_set hmem with hmem | rfl
    · exact h.poll_user poll hmem
    · exact huser

theorem Once.user_of_poll (h : w.Once) (hp : w.polls[i]? = some p)
    (huser : p.user = some userId) : w.row.userId = some userId :=
  h.poll_user p (mem_of_getElem? hp) userId huser

theorem Once.failPoll (h : w.Once) (hp : w.polls[i]? = some p) (e : PairingError) : (w.setPoll i (.failed e)).Once :=
  h.setPoll hp nofun nofun

theorem Once.bind (h : w.Once) {hostname : Text}
    (hc : w.confirms[c]? = some (.binding userId code now hostname)) (fault : Fault) :
    (w.bind c userId code now hostname fault).Once := by
  rcases w.bind_cases c userId code now hostname fault with ⟨e, hfailed⟩ | ⟨row, hbind, happroved⟩
  · rw [hfailed]
    exact h.setConfirm hc rfl rfl
  · obtain ⟨⟨hnobody, -, -⟩, rfl⟩ := PairingRow.bind_eq_some_iff.mp hbind
    have hcount := countP_set (p := isApproved) hc (.approved userId hostname)
    have hzero : w.confirms.countP isApproved = 0 := by
      rw [h.confirmed, hnobody]
      rfl
    rw [happroved]
    refine ⟨?_, fun userId' name hmem => ?_, h.claimed, fun poll hmem userId' huser => ?_⟩
    · rw [hzero] at hcount
      exact hcount
    · rcases mem_or_eq_of_mem_set hmem with hmem | heq
      · rw [h.approved_user userId' name hmem] at hnobody
        contradiction
      · cases heq
        rfl
    · rw [h.poll_user poll hmem userId' huser] at hnobody
      contradiction

theorem Once.claim (h : w.Once) {p : Nat} {hostname : Text}
    (hp : w.polls[p]? = some (.claiming code userId hostname now)) (fault : Fault) :
    (w.claim p code userId hostname now fault).Once := by
  rcases w.claim_cases p code userId hostname now fault with ⟨e, hfailed⟩ | ⟨row, hclaim, hclaimed⟩
  · rw [hfailed]
    exact h.failPoll hp e
  · obtain ⟨⟨-, hnobody, -⟩, rfl⟩ := PairingRow.claim_eq_some_iff.mp hclaim
    have hcount := countP_set (p := Poll.holdsClaim) hp (.claimed userId hostname)
    have hzero : w.polls.countP Poll.holdsClaim = 0 := by
      have hle := h.claimed
      rw [hnobody] at hle
      exact Nat.le_zero.mp hle
    rw [hclaimed]
    refine ⟨h.confirmed, h.approved_user, ?_, fun poll hmem => ?_⟩
    · rw [hzero] at hcount
      exact hcount.le
    · rcases mem_or_eq_of_mem_set hmem with hmem | rfl
      · exact h.poll_user poll hmem
      · rintro userId' huser
        exact h.user_of_poll hp huser

theorem isApproved_confirmPairing (identity : Option AuthIdentity) (raw : Text) (now : Nat) :
    (confirmPairing identity raw now).isApproved = false := by
  unfold confirmPairing
  repeat' split
  all_goals rfl

theorem isApproved_confirmFound (userId : Nat) (code : Text) (now : Nat) (found : Option PairingRow) :
    (confirmFound userId code now found).isApproved = false := by
  unfold confirmFound
  repeat' split
  all_goals rfl

theorem pairingStatus_fresh (raw : Text) (allowed : Bool) (now : Nat) :
    (pairingStatus raw allowed now).holdsClaim = false ∧ (pairingStatus raw allowed now).user = none := by
  unfold pairingStatus
  repeat' split
  all_goals exact ⟨rfl, rfl⟩

theorem statusFound_user {found : Option PairingRow}
    (h : (statusFound code now found).user = some userId) : ∃ row, found = some row ∧ row.userId = some userId := by
  unfold statusFound at h
  split at h
  · contradiction
  · rename_i row
    split_ifs at h
    · contradiction
    · contradiction
    · split at h
      · contradiction
      · rename_i userId' hrow
        exact ⟨row, rfl, hrow.trans h⟩

theorem statusFound_holdsClaim (code : Text) (now : Nat) (found : Option PairingRow) :
    (statusFound code now found).holdsClaim = false := by
  unfold statusFound
  repeat' split
  all_goals rfl

theorem Once.confirm (h : w.Once) (identity : Option AuthIdentity) (raw : Text) :
    (w.step (.confirm identity raw)).Once := by
  have hfresh := isApproved_confirmPairing identity raw w.now
  refine ⟨?_, fun userId name hmem => ?_, h.claimed, h.poll_user⟩
  · show (w.confirms ++ [_]).countP isApproved = _
    rw [countP_append, countP_singleton, hfresh]
    exact h.confirmed
  · rcases mem_append.mp hmem with hmem | hmem
    · exact h.approved_user userId name hmem
    · rw [← mem_singleton.mp hmem] at hfresh
      contradiction

theorem Once.status (h : w.Once) (raw : Text) (allowed : Bool) : (w.step (.status raw allowed)).Once := by
  obtain ⟨hclaim, huser⟩ := pairingStatus_fresh raw allowed w.now
  refine ⟨h.confirmed, h.approved_user, ?_, fun poll hmem => ?_⟩
  · show (w.polls ++ [_]).countP Poll.holdsClaim ≤ _
    rw [countP_append, countP_singleton, hclaim]
    exact h.claimed
  · rcases mem_append.mp hmem with hmem | hmem
    · exact h.poll_user poll hmem
    · rw [mem_singleton.mp hmem, huser]
      nofun

theorem Once.statusLookup (h : w.Once) {p : Nat} (fault : Fault) (hp : w.polls[p]? = some (.started code now)) :
    (w.setPoll p (w.select code .failed (statusFound code now) fault)).Once := by
  cases fault with
  | some e => exact h.failPoll hp _
  | none =>
    refine h.setPoll hp (fun hclaim => ?_) fun userId huser => ?_
    · have hnone := statusFound_holdsClaim code now (w.lookup code)
      exact absurd (hnone.symm.trans hclaim) Bool.false_ne_true
    · obtain ⟨row, hfound, hrow⟩ := statusFound_user huser
      rwa [lookup_eq_some hfound] at hrow

theorem Once.step (h : w.Once) (event : Event) : (w.step event).Once := by
  fun_cases World.step w event with
  | case1 | case2 => exact h.frame _ _ _ _
  | case3 identity raw => exact h.confirm identity raw
  | case4 _ _ _ _ hstarted | case5 _ _ _ _ hstarted => exact h.setConfirm hstarted rfl rfl
  | case7 _ fault _ _ _ hlooking =>
    cases fault with
    | some e => exact h.setConfirm hlooking rfl rfl
    | none => exact h.setConfirm hlooking rfl (isApproved_confirmFound _ _ _ _)
  | case9 _ fault _ _ _ _ hbinding => exact h.bind hbinding fault
  | case11 raw allowed => exact h.status raw allowed
  | case12 _ fault _ _ hstarted => exact h.statusLookup fault hstarted
  | case14 _ _ _ _ happroved => exact h.setPoll happroved nofun fun _ huser => h.user_of_poll happroved huser
  | case16 _ fault _ _ _ _ hclaiming => exact h.claim hclaiming fault
  | case18 _ _ _ hclaimed =>
    exact (h.frame _ _ _ _).setPoll hclaimed (fun _ => rfl) fun _ huser => h.user_of_poll hclaimed huser
  | case19 _ _ _ _ hp | case22 _ _ _ hp | case23 _ _ _ _ hp => exact h.failPoll hp _
  | case21 _ _ _ hrevoked => exact h.setPoll hrevoked (fun _ => rfl) fun _ huser => h.user_of_poll hrevoked huser
  | case25 p plaintext fault userId hostname role hidentified =>
    rcases w.createToken_cases p userId hostname role plaintext fault with
      ⟨e, hfailed⟩ | ⟨tokens, nextToken, token, htoken, hminted⟩
    · rw [hfailed]
      exact h.failPoll hidentified e
    · rw [hminted]
      refine (h.frame _ _ _ _).setPoll hidentified (fun _ => rfl) fun userId' huser => h.user_of_poll hidentified ?_
      rwa [← htoken]
  | _ => exact h

end World

def World.Timely (w : World) : Prop := ∀ time ∈ w.effects, isExpired w.row.expiresAt time = false

theorem World.Timely.update (h : w.Timely) (hexpires : row.expiresAt = w.row.expiresAt)
    (hnow : isExpired w.row.expiresAt w.now = false) : (w.update row).Timely := by
  intro time hmem
  show isExpired row.expiresAt time = false
  rw [hexpires]
  rcases mem_append.mp hmem with hmem | hmem
  · exact h time hmem
  · rw [mem_singleton.mp hmem]
    exact hnow

theorem World.Timely.bind (h : w.Timely) {fault : Fault} (hguard : Punctual w (.bind c fault)) :
    (w.step (.bind c fault)).Timely := by
  simp only [step]
  split
  · rename_i userId code now hostname hc
    rcases w.bind_cases c userId code now hostname fault with ⟨e, hfailed⟩ | ⟨row, hbind, happroved⟩
    · rw [hfailed]
      exact h
    · obtain ⟨⟨-, -, hexpires⟩, rfl⟩ := PairingRow.bind_eq_some_iff.mp hbind
      have hclock : now ∈ w.confirms[c]?.bind clock := by
        rw [hc]
        rfl
      rw [happroved]
      exact h.update rfl (hguard now hclock (isExpired_of_dbTs_lt hexpires))
  · exact h

theorem World.Timely.claim (h : w.Timely) {p : Nat} {fault : Fault} (hguard : Punctual w (.claim p fault)) :
    (w.step (.claim p fault)).Timely := by
  simp only [step]
  split
  · rename_i code userId hostname now hp
    rcases w.claim_cases p code userId hostname now fault with ⟨e, hfailed⟩ | ⟨row, hclaim, hclaimed⟩
    · rw [hfailed]
      exact h
    · obtain ⟨⟨-, -, hexpires⟩, rfl⟩ := PairingRow.claim_eq_some_iff.mp hclaim
      have hclock : now ∈ w.polls[p]?.bind Poll.clock := by
        rw [hp]
        rfl
      rw [hclaimed]
      exact h.update rfl (hguard now hclock (isExpired_of_dbTs_lt hexpires))
  · exact h

theorem World.Timely.step (h : w.Timely) {event : Event} (hguard : Punctual w event) : (w.step event).Timely := by
  cases event with
  | bind c fault => exact h.bind hguard
  | claim p fault => exact h.claim hguard
  | tick | environment | confirm | status => exact h
  | getUser | confirmLookup | statusLookup | readClock | revoke | userIdentity | createToken =>
    simp only [World.step, World.createToken]
    repeat' split
    all_goals exact h

theorem Poll.holdsClaim_of_hasToken {poll : Poll} (h : poll.hasToken) : poll.holdsClaim := by
  unfold Poll.hasToken at h
  split at h
  · rfl
  · contradiction

theorem World.Once.exists_approved (h : w.Once) (huser : w.row.userId = some userId) :
    ∃ name, approved userId name ∈ w.confirms := by
  have hone : w.confirms.countP isApproved = 1 := by
    rw [h.confirmed, huser]
    rfl
  obtain ⟨confirm, hmem, hconfirm⟩ := countP_pos_iff.mp (lt_of_lt_of_eq Nat.one_pos hone.symm)
  unfold isApproved at hconfirm
  split at hconfirm
  · rename_i userId' name
    have hsame := h.approved_user userId' name hmem
    rw [huser] at hsame
    exact ⟨name, Option.some.inj hsame ▸ hmem⟩
  · contradiction

/-- **A device is paired once** in every punctual run: at most one confirmation succeeds, at most one status
response carries a token, the token belongs to the user that confirmed, and no update comes after the code has
expired. -/
theorem paired_once (code hostname : Text) (now : Nat) (users : List User) (tokens : List UserToken)
    (nextToken : Nat) (events : List Event)
    (hguarded : Guarded step Punctual (.create code hostname now users tokens nextToken) events) :
    let w := run step (.create code hostname now users tokens nextToken) events
    w.confirms.countP isApproved ≤ 1 ∧ w.polls.countP Poll.hasToken ≤ 1 ∧
      (∀ token plaintext deviceName, Poll.token token plaintext deviceName ∈ w.polls →
        ∃ name, approved token.userId name ∈ w.confirms) ∧
      ∀ time ∈ w.effects, isExpired w.row.expiresAt time = false := by
  intro w
  have honce : w.Once := invariant_run_of_step step (fun _ event h => h.step event)
    (once_create code hostname now users tokens nextToken) events
  have htimely : w.Timely := invariant_run step (fun _ _ h => h.step)
    (fun _ hmem => absurd hmem not_mem_nil) hguarded
  refine ⟨?_, ?_, fun token plaintext deviceName hmem => ?_, htimely⟩
  · rw [honce.confirmed]
    split_ifs <;> decide
  · calc w.polls.countP Poll.hasToken
        ≤ w.polls.countP Poll.holdsClaim := countP_mono_left fun _ _ h => Poll.holdsClaim_of_hasToken h
      _ ≤ if w.row.consumedAt.isSome then 1 else 0 := honce.claimed
      _ ≤ 1 := by split_ifs <;> decide
  · exact honce.exists_approved (honce.poll_user _ hmem token.userId rfl)

def shownCode : Text := "ABCD2345"

def powerUser : AuthIdentity := .user "alice@corp.com" "Alice" "poweruser" []

def staff : List User := [⟨7, "alice@corp.com", "poweruser"⟩, ⟨8, "bob@corp.com", "poweruser"⟩]

def secondUser : AuthIdentity := .user "bob@corp.com" "Bob" "poweruser" []

/-- Two users confirm the code at once, and two polls find it confirmed. -/
def contended : List Event :=
  [.status shownCode true, .statusLookup 0 none, .tick 20000, .confirm (some powerUser) "abcd-2345",
    .confirm (some secondUser) shownCode, .getUser 0 none, .getUser 1 none, .confirmLookup 0 none,
    .confirmLookup 1 none, .bind 1 none, .bind 0 none, .status shownCode true, .status shownCode true,
    .statusLookup 1 none, .statusLookup 2 none, .readClock 1, .readClock 2, .claim 2 none, .claim 1 none,
    .revoke 2 none, .userIdentity 2 none, .createToken 2 "rgu_1" none]

theorem paired_once_contended : let w := run step (.create shownCode "lap" 0 staff [] 1) contended
    w.confirms = [.failed (.gone "pairing code already used"), .approved 8 "lap"] ∧
      w.polls = [.pending, .failed (.gone "pairing code already used"),
        .token ⟨1, 8, "Persea Desktop (lap)", "poweruser"⟩ "rgu_1" "lap"] ∧
      w.confirms.countP isApproved ≤ 1 ∧ w.polls.countP Poll.hasToken ≤ 1 ∧
      (∀ token plaintext deviceName, Poll.token token plaintext deviceName ∈ w.polls →
        ∃ name, approved token.userId name ∈ w.confirms) ∧
      ∀ time ∈ w.effects, isExpired w.row.expiresAt time = false :=
  ⟨by decide +kernel, by decide +kernel, paired_once shownCode "lap" 0 staff [] 1 contended (by decide +kernel)⟩

/-- The clock is read a tenth of a second before the code expires, and the update runs a tenth of a second after.
-/
def belated : List Event :=
  [.tick 599900, .confirm (some powerUser) shownCode, .getUser 0 none, .confirmLookup 0 none, .tick 200, .bind 0 none]

/-- **An expired code is confirmed.** -/
theorem expired_confirmed : let w := run step (.create shownCode "lap" 0 staff [] 1) belated
    w.confirms = [.approved 7 "lap"] ∧ w.row.userId = some 7 ∧ w.effects = [600100] ∧
      w.row.expiresAt = 600 ∧ isExpired w.row.expiresAt 600100 = true := by
  decide +kernel

end Persea.Pairing
