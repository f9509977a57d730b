import Persea.BaseStore
import Persea.ProtocolInstruction

/-! Re-validation of scoped tokens against LDAP, through a cache shared by all requests. No lock is held while a
directory is asked, so a request is a sequence of steps. -/

namespace Persea.Ldap

open Base Base.Text

structure SearchEntry where
  attrs : List (Text × List Text)
deriving DecidableEq, Repr

inductive Report where
  /-- No connection, no service bind, or no result of the search. -/
  | failed
  | answered (rc : Nat) (entries : List SearchEntry)
deriving DecidableEq, Repr

inductive RecheckVerdict where
  | valid (pwdLastSet : Option Text)
  | invalid
  | notApplicable
  | unavailable
deriving DecidableEq, Repr

def uacDisabledOrLocked (uac : Nat) : Bool := uac &&& (0x2 ||| 0x10) ≠ 0

def i64Max : Int := 2 ^ 63 - 1

def adAccountExpired (accountExpires nowUnixSecs : Int) : Bool :=
  if accountExpires = 0 ∨ accountExpires = i64Max then false
  else Int.tdiv accountExpires 10000000 - 11644473600 < nowUnixSecs

/-- Letters of either case take the same number of bytes, so the comparison may count characters. -/
def dnUnderBase (dn base : Text) : Bool :=
  eqIgnoreAsciiCase dn base ||
    (decide ((',' :: base).length < dn.length) &&
      eqIgnoreAsciiCase (dn.drop (dn.length - (',' :: base).length)) (',' :: base))

def pwdRotated : Option Text → Option Text → Bool
  | some prev, some cur => prev ≠ cur
  | _, _ => false

def entryAttr (entry : SearchEntry) (name : Text) : Option Text :=
  (entry.attrs.find? fun attr => eqIgnoreAsciiCase attr.1 name).bind fun attr => attr.2.head?

/-- The entry's flags say that the account is disabled or locked, or its expiry has passed. -/
def SearchEntry.barred (entry : SearchEntry) (nowUnixSecs : Int) : Bool :=
  ((entryAttr entry "userAccountControl").bind Protocol.parseU32).any uacDisabledOrLocked ||
    ((entryAttr entry "accountExpires").bind Protocol.parseI64).any (adAccountExpired · nowUnixSecs)

def SearchEntry.pwdLastSet (entry : SearchEntry) : Option Text := entryAttr entry "pwdLastSet"

/-- A registered LDAP provider. `server` says which directory it connects to. -/
structure Provider where
  userSearchBase : Text
  server : Nat
deriving DecidableEq, Repr

def Provider.manages (provider : Provider) (subject : Text) : Bool :=
  decide ('=' ∈ subject) && dnUnderBase subject provider.userSearchBase

variable (success : Nat → Bool)

/-- The result of the search. `success` is that of the LDAP client: result codes it does not take are errors. -/
def searchVerdict (nowUnixSecs : Int) (previous : Option Text) : Report → RecheckVerdict
  | .failed => .unavailable
  | .answered rc entries =>
    if success rc = false then .unavailable
    else if rc = 32 then .invalid
    else if rc = 34 then .notApplicable
    else if rc ≠ 0 then .unavailable
    else
      match entries with
      | [] => .invalid
      | entry :: _ =>
        if entry.barred nowUnixSecs then .invalid
        else if pwdRotated previous entry.pwdLastSet then .invalid
        else .valid entry.pwdLastSet

def revalidateAccount (nowUnixSecs : Int) (directory : Nat → Text → Report)
    (provider : Provider) (subject : Text) (previous : Option Text) : RecheckVerdict :=
  if provider.manages subject then
    searchVerdict success nowUnixSecs previous (directory provider.server subject)
  else .notApplicable

def secs (n : Nat) : Nat := n * 1000000000

def unixSecs (now : Nat) : Int := (now / 1000000000 : Nat)

def validTtl : Nat := secs 60
def notApplicableTtl : Nat := secs 3600
def unavailableTtl : Nat := secs 10
def maxEntries : Nat := 4096

/-- An `Invalid` verdict is never cached. -/
structure CacheEntry where
  verdict : RecheckVerdict
  checkedAt : Nat
  pwdLastSet : Option Text
  ne_invalid : verdict ≠ .invalid
deriving DecidableEq

abbrev Cache := Store (Nat × Text) CacheEntry

def entryTtl : RecheckVerdict → Nat
  | .valid _ => validTtl
  | .notApplicable => notApplicableTtl
  | .unavailable => unavailableTtl
  | .invalid => validTtl

/-- One of the oldest entries: which one the map's iteration meets first is not said, so `pick` chooses. -/
def oldest (pick : Nat) (cache : Cache) : Option (Nat × Text) :=
  let candidates := cache.entries.filter fun e => cache.entries.all fun e' => e.2.checkedAt ≤ e'.2.checkedAt
  candidates[pick % candidates.length]?.map fun e => e.1

def evict (pick : Nat) (cache : Cache) : Cache :=
  if cache.entries.length ≤ maxEntries then cache
  else
    match oldest pick cache with
    | none => cache
    | some key => cache.erase key

/-! ### Token validation -/

structure User where
  id : Nat
  email : Text
  disabled : Bool
deriving DecidableEq, Repr

/-- `expiresAt` is the time that `parse_expires_at` reads from the column; `some none` is a text it cannot read. -/
structure UserApiToken where
  id : Nat
  userId : Nat
  name : Text
  expiresAt : Option (Option Nat)
  tokenType : Text
  disabled : Bool
  tokenHash : Text
deriving DecidableEq, Repr

def scopedType : Text := "scoped"

structure Found where
  user : User
  token : UserApiToken
deriving DecidableEq, Repr

def Found.key (found : Found) : Nat × Text := (found.token.userId, found.user.email)

inductive AuthError where
  | invalidKey
  | disabled
  | expired
  | accountRevalidationFailed
deriving DecidableEq, Repr

structure TokenEvent where
  tokenId : Nat
  tokenName : Text
  userEmail : Text
  action : String
  details : String
deriving DecidableEq, Repr

inductive Phase where
  | scan (tokenHash : Text)
  /-- A scoped token: `check` is called. -/
  | look (found : Found)
  /-- `check` has taken its time and the last marker, and has providers left to ask. -/
  | ask (found : Found) (now : Nat) (previous : Option Text) (providers : List Provider)
  /-- A verdict is to be cached. -/
  | store (found : Found) (entry : CacheEntry)
  /-- The verdict is `Invalid`: the token is to be deleted. -/
  | drop (found : Found)
  | log (found : Found)
  /-- `last_used_at` is to be written. -/
  | touch (found : Found)
  | done (result : Except AuthError Found)

structure Request where
  checkedAt : Nat
  phase : Phase

structure World where
  now : Nat
  /-- The directories: what each server answers to a search for a DN. -/
  directory : Nat → Text → Report
  registry : List Provider
  cache : Cache
  users : List User
  tokens : List UserApiToken
  nextTokenId : Nat
  tokenEvents : List TokenEvent
  requests : List Request

def accepts (now : Nat) (found : Found) : Except AuthError Found :=
  if found.token.disabled then .error .disabled
  else if found.user.disabled then .error .disabled
  else
    match found.token.expiresAt with
    | none => .ok found
    | some none => .error .expired
    | some (some expires) => if now ≤ expires then .ok found else .error .expired

theorem accepts_eq_ok {now : Nat} {found found' : Found} (h : accepts now found = .ok found') : found = found' := by
  unfold accepts at h
  repeat' split at h
  all_goals cases h
  all_goals rfl

def World.find (w : World) (tokenHash : Text) : Option Found :=
  (w.tokens.flatMap fun token => (w.users.filter (·.id = token.userId)).map fun user => ⟨user, token⟩).find?
    fun found => found.token.tokenHash = tokenHash

variable (w : World)

def World.scan (tokenHash : Text) (ok : Bool) : Phase :=
  match if ok then w.find tokenHash else none with
  | none => .done (.error .invalidKey)
  | some found =>
    match accepts w.now found with
    | .error e => .done (.error e)
    | .ok found => if found.token.tokenType = scopedType then .look found else .touch found

theorem World.scan_cases (w : World) (tokenHash : Text) (ok : Bool) :
    (∃ e, w.scan tokenHash ok = .done (.error e)) ∨ ∃ found : Found, found.token ∈ w.tokens ∧
      ((found.token.tokenType = scopedType ∧ w.scan tokenHash ok = .look found) ∨
        (found.token.tokenType ≠ scopedType ∧ w.scan tokenHash ok = .touch found)) := by
  unfold World.scan
  cases hfind : if ok then w.find tokenHash else none with
  | none => exact .inl ⟨_, rfl⟩
  | some found =>
    have hfound : found.token ∈ w.tokens := by
      have hmem := List.mem_of_find?_eq_some (Option.ite_none_right_eq_some.mp hfind).2
      obtain ⟨token, htoken, hjoin⟩ := List.mem_flatMap.mp hmem
      obtain ⟨user, -, rfl⟩ := List.mem_map.mp hjoin
      exact htoken
    dsimp only
    cases haccepts : accepts w.now found with
    | error e => exact .inl ⟨e, rfl⟩
    | ok found' =>
      obtain rfl : found = found' := accepts_eq_ok haccepts
      right
      by_cases htype : found.token.tokenType = scopedType
      · exact ⟨found, hfound, .inl ⟨htype, if_pos htype⟩⟩
      · exact ⟨found, hfound, .inr ⟨htype, if_neg htype⟩⟩

/-- `check` with no fresh entry: the marker of the old entry is compared with what the providers report. -/
def World.consult (found : Found) (previous : Option Text) : Phase :=
  match w.registry with
  | [] => .touch found
  | provider :: rest => .ask found w.now previous (provider :: rest)

def World.look (found : Found) : Phase :=
  match w.cache.lookup found.key with
  | none => w.consult found none
  | some entry =>
    if w.now - entry.checkedAt < entryTtl entry.verdict then .touch found
    else w.consult found entry.pwdLastSet

theorem World.look_cases (w : World) (found : Found) :
    (∃ entry ∈ w.cache.lookup found.key, w.now - entry.checkedAt < entryTtl entry.verdict ∧
      w.look found = .touch found) ∨
    ∃ previous, ((w.cache.lookup found.key = none ∧ previous = none) ∨
        ∃ entry ∈ w.cache.lookup found.key, entry.pwdLastSet = previous) ∧
      w.look found = w.consult found previous := by
  unfold World.look
  cases hlookup : w.cache.lookup found.key with
  | none => exact .inr ⟨none, .inl ⟨rfl, rfl⟩, rfl⟩
  | some entry =>
    by_cases hfresh : w.now - entry.checkedAt < entryTtl entry.verdict
    · exact .inl ⟨entry, rfl, hfresh, if_pos hfresh⟩
    · exact .inr ⟨entry.pwdLastSet, .inr ⟨entry, rfl, rfl⟩, if_neg hfresh⟩

def World.ask (success : Nat → Bool) (w : World) (found : Found) (now : Nat) (previous : Option Text) :
    List Provider → Phase
  | [] => .store found ⟨.notApplicable, now, none, by simp⟩
  | provider :: rest =>
    match revalidateAccount success (unixSecs w.now) w.directory provider found.user.email previous with
    | .notApplicable => .ask found now previous rest
    | .invalid => .drop found
    | .unavailable => .store found ⟨.unavailable, now, previous, by simp⟩
    | .valid pwdLastSet => .store found ⟨.valid pwdLastSet, now, pwdLastSet, by simp⟩

/-- The update of `last_used_at` finds the row; a failed update is taken for one that does. -/
def World.updates (found : Found) (ok : Bool) : Bool := !ok || w.tokens.any fun token => token.id = found.token.id

def World.touch (found : Found) (ok : Bool) : Phase :=
  if w.updates found ok then .done (.ok found) else .done (.error .invalidKey)

def revalidationFailed (found : Found) : TokenEvent where
  tokenId := found.token.id
  tokenName := found.token.name
  userEmail := found.user.email
  action := "revalidation_failed"
  details := "account re-validation failed (rotated, locked, disabled, or expired)"

/-- Where the next step takes a request; `ok` says that its statement of the database does not fail. -/
def World.next (w : World) (ok : Bool) (q : Request) : Request :=
  match q.phase with
  | .scan tokenHash => { q with phase := w.scan tokenHash ok }
  | .look found => ⟨w.now, w.look found⟩
  | .ask found now previous providers => { q with phase := w.ask success found now previous providers }
  | .store found _ => { q with phase := .touch found }
  | .drop found => { q with phase := .log found }
  | .log _ => { q with phase := .done (.error .accountRevalidationFailed) }
  | .touch found => { q with phase := w.touch found ok }
  | .done _ => q

def World.cacheAfter (pick : Nat) : Phase → Cache
  | .store found entry => evict pick (w.cache.insert found.key entry)
  | _ => w.cache

def World.tokensAfter (ok : Bool) : Phase → List UserApiToken
  | .drop found => if ok then w.tokens.filter (·.id ≠ found.token.id) else w.tokens
  | _ => w.tokens

def World.eventsAfter (ok : Bool) : Phase → List TokenEvent
  | .log found => if ok then w.tokenEvents ++ [revalidationFailed found] else w.tokenEvents
  | _ => w.tokenEvents

def World.advance (w : World) (i : Nat) (q : Request) (ok : Bool) (pick : Nat) : World :=
  { w with
    requests := w.requests.set i (w.next success ok q)
    cache := w.cacheAfter pick q.phase
    tokens := w.tokensAfter ok q.phase
    tokenEvents := w.eventsAfter ok q.phase }

inductive Event where
  | tick (nanos : Nat)
  /-- A directory changes its answer for a DN. -/
  | report (server : Nat) (dn : Text) (report : Report)
  | register (provider : Provider)
  /-- A row of `users` is inserted or changed. -/
  | putUser (user : User)
  | deleteUser (userId : Nat)
  /-- `create_scoped_user_token`, or `create_user_token` for the other type. -/
  | mint (userId : Nat) (name : Text) (expiresAt : Option (Option Nat)) (isScoped : Bool) (tokenHash : Text)
  | revoke (tokenId : Nat)
  | disable (tokenId : Nat)
  | validate (tokenHash : Text)
  | advance (i : Nat) (ok : Bool) (pick : Nat)
  /-- The process is started again: what it had in memory is gone. -/
  | restart

def World.mint (userId : Nat) (name : Text) (expiresAt : Option (Option Nat)) (isScoped : Bool)
    (tokenHash : Text) : World :=
  if w.tokens.any (fun t => t.tokenHash = tokenHash || t.userId = userId && t.name = name) then w
  else
    { w with
      tokens := w.tokens ++
        [⟨w.nextTokenId, userId, name, expiresAt, if isScoped then scopedType else "user", false, tokenHash⟩]
      nextTokenId := w.nextTokenId + 1 }

def World.step (w : World) : Event → World
  | .tick nanos => { w with now := w.now + nanos }
  | .report server dn report =>
    { w with directory := fun s d => if s = server ∧ d = dn then report else w.directory s d }
  | .register provider => { w with registry := w.registry ++ [provider] }
  | .putUser user => { w with users := w.users.filter (·.id ≠ user.id) ++ [user] }
  | .deleteUser userId =>
    { w with users := w.users.filter (·.id ≠ userId), tokens := w.tokens.filter (·.userId ≠ userId) }
  | .mint userId name expiresAt isScoped tokenHash => w.mint userId name expiresAt isScoped tokenHash
  | .revoke tokenId => { w with tokens := w.tokens.filter (·.id ≠ tokenId) }
  | .disable tokenId =>
    { w with tokens := w.tokens.map fun t => if t.id = tokenId then { t with disabled := true } else t }
  | .validate tokenHash => { w with requests := w.requests ++ [⟨w.now, .scan tokenHash⟩] }
  | .advance i ok pick =>
    match w.requests[i]? with
    | none => w
    | some q => w.advance success i q ok pick
  | .restart => { w with registry := [], cache := ∅, requests := [] }

def World.start (now : Nat) : World where
  now := now
  directory _ _ := .failed
  registry := []
  cache := ∅
  users := []
  tokens := []
  nextTokenId := 1
  tokenEvents := []
  requests := []

end Persea.Ldap
