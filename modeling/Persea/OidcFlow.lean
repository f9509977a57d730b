import Persea.BaseIp
import Persea.BaseStore
import Persea.BaseTransition
import Persea.BaseUtf8

/-! The login and callback handlers of `oidc.rs` up to the token exchange. A login leaves a pending flow and sets a
cookie with its state and a fingerprint; a callback has to bring both back. -/

namespace Persea.Oidc

open Base List Transition Function

structure Env where
  parseNetwork : Text → Option IpNetwork
  parseIp : Text → Option IpAddr
  showIp : IpAddr → Text
  /-- The tag of a key and a message, in hex. -/
  hmacSha256 : List UInt8 → List UInt8 → Text

structure Headers where
  cookie : List Text
  userAgent : Option Text
  xForwardedFor : Option Text

structure Request where
  peer : IpAddr
  headers : Headers

def extractCookie (headers : Headers) (name : Text) : Option Text :=
  let combined := "; ".toList.intercalate headers.cookie
  if combined = [] then none
  else (combined.splitOn ';').findSome? fun c => ((Text.trim c).dropPrefix? name).bind (·.dropPrefix? ['='])

def clientIp (env : Env) (trustedProxies : List Text) (request : Request) : IpAddr :=
  let forwarded := request.headers.xForwardedFor.bind fun xff => env.parseIp (Text.trim ((xff.splitOn ',').headD []))
  if (trustedProxies.filterMap env.parseNetwork).any fun net => Ip.contains net request.peer then
    forwarded.getD request.peer
  else request.peer

def clientFingerprintInputs (env : Env) (headers : Headers) (clientIp : IpAddr) : Text × Text :=
  (env.showIp clientIp, headers.userAgent.getD "unknown")

def stateFingerprint (env : Env) (key : List UInt8) (ip ua : Text) : Text :=
  env.hmacSha256 key (Utf8.encode ip ++ Utf8.encode ua)

/-! ### Providers and pending flows -/

structure OidcProvider where
  name : Text
  fingerprintKey : List UInt8

/-- `OidcRegistry::get`, with the place of the provider. -/
def get (providers : List OidcProvider) : Option Text → Option (OidcProvider × ℕ)
  | some n => providers.zipIdx.find? fun p => p.1.name = n
  | none => providers.zipIdx.head?

structure Flow where
  pkceVerifier : Text
  nonce : Text
  created : ℕ
deriving DecidableEq

def flowTtl : ℕ := 600 * 1000000000

structure Login where
  provider : ℕ
  state : Text
  time : ℕ
  ip : IpAddr
  ua : Text
  fingerprint : Text
deriving DecidableEq

structure Exchange where
  provider : ℕ
  state : Text
  time : ℕ
  ip : IpAddr
  ua : Text
deriving DecidableEq

/-- The instance: the pending flows of each provider, and what has happened. -/
structure Instance where
  clock : ℕ
  pending : ℕ → Store Text Flow
  logins : List Login
  exchanges : List Exchange

def Instance.new : Instance := ⟨0, fun _ => ∅, [], []⟩

def Login.cookie (l : Login) : Text := l.state ++ ':' :: l.fingerprint

structure CallbackParams where
  (code state error : Option Text)

inductive Answer
  | redirect (target : String)
  | refused (status : ℕ) (error : String)
  /-- The token exchange is next. -/
  | exchange (code : Text) (flow : Flow)
deriving DecidableEq

def presented (headers : Headers) : Option (Text × Text) :=
  (extractCookie headers "persea_oidc_state").bind (Text.splitOnce ':')

def cookieValid (env : Env) (key : List UInt8) (ip ua state : Text) (headers : Headers) : Bool :=
  match presented headers with
  | some (cookieState, cookieFingerprint) => cookieState = state && cookieFingerprint = stateFingerprint env key ip ua
  | none => false

structure Server where
  env : Env
  providers : List OidcProvider
  trustedProxies : List Text

namespace Server

variable (server : Server)

def ip (request : Request) : IpAddr := clientIp server.env server.trustedProxies request

def inputs (request : Request) : Text × Text := clientFingerprintInputs server.env request.headers (server.ip request)

def login (s : Instance) (request : Request) (provider : Option Text) (state pkceVerifier nonce : Text) (now : ℕ) :
    Instance :=
  match get server.providers provider with
  | none => s
  | some (p, i) =>
    let (ip, ua) := server.inputs request
    let kept := (s.pending i).retain fun _ flow => now < flow.created + flowTtl
    { s with
      pending := Function.update s.pending i (kept.insert state ⟨pkceVerifier, nonce, now⟩)
      logins := s.logins ++
        [⟨i, state, now, server.ip request, ua, stateFingerprint server.env p.fingerprintKey ip ua⟩] }

def callback (s : Instance) (request : Request) (params : CallbackParams) (now : ℕ) : Answer × Instance :=
  match params.error, params.code, params.state with
  | some _, _, _ | none, none, _ | none, some _, none => (.redirect "/?sso_error=1", s)
  | none, some code, some state =>
    match get server.providers (extractCookie request.headers "persea_oidc_provider") with
    | none => (.refused 400 "no OIDC provider configured", s)
    | some (p, i) =>
      let (ip, ua) := server.inputs request
      if cookieValid server.env p.fingerprintKey ip ua state request.headers then
        match (s.pending i).lookup state with
        | none => (.refused 400 "invalid or expired OIDC state", s)
        | some flow =>
          (.exchange code flow, { s with
              pending := Function.update s.pending i ((s.pending i).erase state)
              exchanges := s.exchanges ++ [⟨i, state, now, server.ip request, ua⟩] })
      else (.refused 400 "OIDC state cookie mismatch", s)

end Server

inductive Event
  | login (request : Request) (provider : Option Text) (state pkceVerifier nonce : Text) (now : ℕ)
  | callback (request : Request) (params : CallbackParams) (now : ℕ)

def Event.now : Event → ℕ
  | .login _ _ _ _ _ now => now
  | .callback _ _ now => now

def Server.step (server : Server) (s : Instance) (event : Event) : Instance :=
  let s := { s with clock := event.now }
  match event with
  | .login request provider state pkceVerifier nonce now =>
    server.login s request provider state pkceVerifier nonce now
  | .callback request params now => (server.callback s request params now).2

/-- The clock does not go back, and a login has a state that no login had before. -/
def Timely (s : Instance) (event : Event) : Prop :=
  s.clock ≤ event.now ∧
    match event with
    | .login _ _ state _ _ _ => ∀ l ∈ s.logins, l.state ≠ state
    | .callback .. => True

/-- Who presents the fingerprint of a client has it from a login: only the server can compute it. -/
def Unforged (server : Server) (s : Instance) : Event → Prop
  | .login .. => True
  | .callback request _ _ => ∀ c ∈ presented request.headers, ∀ p ∈ server.providers,
      c.2 = stateFingerprint server.env p.fingerprintKey (server.inputs request).1 (server.inputs request).2 →
        ∃ l ∈ s.logins, l.fingerprint = c.2

/-- The callbacks that are bound to their flow: the two parts of the cookie come from one login, the texts of the
client can be told apart from those at the login of the state, and a flow of more than the TTL ago has been
evicted. -/
def Regular (server : Server) (s : Instance) : Event → Prop
  | .login .. => True
  | .callback request params now =>
    (∀ c ∈ presented request.headers, (∃ l ∈ s.logins, l.fingerprint = c.2) →
      ∃ l ∈ s.logins, l.state = c.1 ∧ l.fingerprint = c.2) ∧
    ∀ state ∈ params.state, ∀ l ∈ s.logins, l.state = state →
      (server.env.showIp l.ip ++ l.ua = (server.inputs request).1 ++ (server.inputs request).2 →
        l.ip = server.ip request ∧ l.ua = (server.inputs request).2) ∧
      (l.time + flowTtl < now → ∃ l' ∈ s.logins, l'.provider = l.provider ∧ l.time + flowTtl ≤ l'.time)

instance (s : Instance) : (event : Event) → Decidable (Timely s event)
  | .login _ _ state _ _ now => inferInstanceAs (Decidable (s.clock ≤ now ∧ ∀ l ∈ s.logins, l.state ≠ state))
  | .callback _ _ now => inferInstanceAs (Decidable (s.clock ≤ now ∧ True))

instance (server : Server) (s : Instance) : (event : Event) → Decidable (Unforged server s event)
  | .login .. => inferInstanceAs (Decidable True)
  | .callback request _ _ => inferInstanceAs (Decidable (∀ c ∈ presented request.headers, _))

instance (server : Server) (s : Instance) : (event : Event) → Decidable (Regular server s event)
  | .login .. => inferInstanceAs (Decidable True)
  | .callback request params _ =>
    inferInstanceAs (Decidable ((∀ c ∈ presented request.headers, _) ∧ ∀ state ∈ params.state, _))

/-- The callback that reached the exchange belongs to a login at its provider, of its client and not too long ago, and
is the first with its state. -/
def BoundAt (s : Instance) (i : ℕ) (e : Exchange) : Prop :=
  (∃ l ∈ s.logins, l.provider = e.provider ∧ l.state = e.state ∧ l.time ≤ e.time ∧ e.time ≤ l.time + flowTtl ∧
      l.ip = e.ip ∧ l.ua = e.ua) ∧
    ∀ (j : ℕ) (e' : Exchange), j < i → s.exchanges[j]? = some e' → e'.state ≠ e.state

variable {i : ℕ} {state : Text} {now : ℕ} {flow : Flow}

theorem getElem?_of_get {providers : List OidcProvider} {name : Option Text} {p : OidcProvider}
    (h : get providers name = some (p, i)) : providers[i]? = some p := by
  have hmem : (p, i) ∈ providers.zipIdx := by
    cases name with
    | none => exact mem_of_mem_head? h
    | some n => exact mem_of_find?_eq_some h
  exact mem_zipIdx_iff_getElem?.mp hmem

theorem presented_of_cookieValid {env : Env} {key : List UInt8} {ip ua : Text} {headers : Headers}
    (h : cookieValid env key ip ua state headers) :
    presented headers = some (state, stateFingerprint env key ip ua) := by
  unfold cookieValid at h
  split at h
  · rename_i cookieState cookieFingerprint hpresented
    rw [Bool.and_eq_true, decide_eq_true_eq, decide_eq_true_eq] at h
    rw [hpresented, h.1, h.2]
  · cases h

theorem lookup_after_login {pending : ℕ → Store Text Flow} {j : ℕ} {state' : Text} {begun : Flow}
    (h : (Function.update pending i (((pending i).retain fun _ flow => now < flow.created + flowTtl).insert state
      begun) j).lookup state' = some flow) :
    j = i ∧ state' = state ∧ flow = begun ∨
      (pending j).lookup state' = some flow ∧ (j = i → now < flow.created + flowTtl) := by
  by_cases hj : j = i
  · subst hj
    rw [update_self] at h
    by_cases hstate : state' = state
    · subst hstate
      rw [AList.lookup_insert, Option.some.injEq] at h
      exact .inl ⟨rfl, rfl, h.symm⟩
    · rw [AList.lookup_insert_ne hstate, Store.lookup_retain_eq_some, decide_eq_true_eq] at h
      exact .inr ⟨h.1, fun _ => h.2⟩
  · rw [update_of_ne hj] at h
    exact .inr ⟨h, fun hij => absurd hij hj⟩

theorem lookup_after_callback {pending : ℕ → Store Text Flow} {j : ℕ} {state' : Text}
    (h : (Function.update pending i ((pending i).erase state) j).lookup state' = some flow) :
    (pending j).lookup state' = some flow ∧ (j = i → state' ≠ state) := by
  by_cases hj : j = i
  · subst hj
    rw [update_self] at h
    have hne : state' ≠ state := by
      intro heq
      rw [heq, AList.lookup_erase] at h
      cases h
    rw [AList.lookup_erase_ne hne] at h
    exact ⟨h, fun _ => hne⟩
  · rw [update_of_ne hj] at h
    exact ⟨h, fun hij => absurd hij hj⟩

theorem Server.callback_cases (server : Server) (s : Instance) (request : Request) (params : CallbackParams)
    (now : ℕ) :
    (server.callback s request params now).2 = s ∨
      ∃ state p i flow, params.state = some state ∧ server.providers[i]? = some p ∧
        presented request.headers = some (state,
          stateFingerprint server.env p.fingerprintKey (server.inputs request).1 (server.inputs request).2) ∧
        (s.pending i).lookup state = some flow ∧
        (server.callback s request params now).2 = { s with
            pending := Function.update s.pending i ((s.pending i).erase state)
            exchanges := s.exchanges ++ [⟨i, state, now, server.ip request, (server.inputs request).2⟩] } := by
  unfold Server.callback
  split
  · exact .inl rfl
  · exact .inl rfl
  · exact .inl rfl
  · rename_i code state _ _ hstate
    cases hget : get server.providers (extractCookie request.headers "persea_oidc_provider") with
    | none => exact .inl rfl
    | some found =>
      obtain ⟨p, i⟩ := found
      dsimp only
      split_ifs with hvalid
      · cases hlookup : (s.pending i).lookup state with
        | none => exact .inl rfl
        | some flow =>
          exact .inr ⟨state, p, i, flow, hstate, getElem?_of_get hget, presented_of_cookieValid hvalid, hlookup,
            rfl⟩
      · exact .inl rfl

/-! ### The invariant -/

section Invariant

variable {server : Server} {s : Instance}

structure Inv (server : Server) (s : Instance) : Prop where
  login_le : ∀ l ∈ s.logins, l.time ≤ s.clock
  login_once : ∀ l ∈ s.logins, ∀ l' ∈ s.logins, l.state = l'.state → l = l'
  fingerprint : ∀ l ∈ s.logins, ∃ p, server.providers[l.provider]? = some p ∧
    l.fingerprint = stateFingerprint server.env p.fingerprintKey (server.env.showIp l.ip) l.ua
  -- a later login at the provider would have evicted the flow
  pending_login : ∀ i state flow, (s.pending i).lookup state = some flow →
    ∃ l ∈ s.logins, l.provider = i ∧ l.state = state ∧ l.time = flow.created ∧
      ∀ l' ∈ s.logins, l'.provider = i → l'.time < flow.created + flowTtl
  consumed : ∀ e ∈ s.exchanges, (∃ l ∈ s.logins, l.state = e.state) ∧ ∀ i, (s.pending i).lookup e.state = none
  bound : ∀ (i : ℕ) (e : Exchange), s.exchanges[i]? = some e → BoundAt s i e

theorem Inv.new : Inv server Instance.new where
  login_le := fun _ h => by cases h
  login_once := fun _ h => by cases h
  fingerprint := fun _ h => by cases h
  pending_login := fun _ _ _ h => by cases h
  consumed := fun _ h => by cases h
  bound := fun _ _ h => by cases h

theorem Inv.tick (h : Inv server s) (hnow : s.clock ≤ now) : Inv server { s with clock := now } :=
  { h with login_le := fun l hl => (h.login_le l hl).trans hnow }

variable {request : Request}

theorem Inv.login (h : Inv server s) {provider : Option Text}
    (pkceVerifier nonce : Text) (hfresh : ∀ l ∈ s.logins, l.state ≠ state) :
    Inv server (server.login s request provider state pkceVerifier nonce s.clock) := by
  unfold Server.login
  cases hget : get server.providers provider with
  | none => exact h
  | some found =>
    obtain ⟨p, i⟩ := found
    dsimp only
    set new : Login := ⟨i, state, s.clock, server.ip request, (server.inputs request).2,
      stateFingerprint server.env p.fingerprintKey (server.inputs request).1 (server.inputs request).2⟩ with hnew
    have httl : 0 < flowTtl := by decide
    have hold : ∀ l ∈ s.logins, l ∈ s.logins ++ [new] := fun l hl => mem_append_left _ hl
    have hsplit : ∀ l ∈ s.logins ++ [new], l ∈ s.logins ∨ l = new := fun l hl =>
      (mem_append.mp hl).imp_right mem_singleton.mp
    refine ⟨?_, ?_, ?_, ?_, ?_, ?_⟩
    · intro l hl
      rcases hsplit l hl with hl | rfl
      · exact h.login_le l hl
      · exact le_rfl
    · intro l hl l' hl' hsame
      rcases hsplit l hl with hl | rfl
      · rcases hsplit l' hl' with hl' | rfl
        · exact h.login_once l hl l' hl' hsame
        · exact absurd hsame (hfresh l hl)
      · rcases hsplit l' hl' with hl' | rfl
        · exact absurd hsame.symm (hfresh l' hl')
        · rfl
    · intro l hl
      rcases hsplit l hl with hl | rfl
      · exact h.fingerprint l hl
      · exact ⟨p, getElem?_of_get hget, rfl⟩
    · intro j state' flow hlookup
      rcases lookup_after_login hlookup with ⟨rfl, rfl, rfl⟩ | ⟨hlookup, hkept⟩
      · refine ⟨new, mem_append_right _ mem_cons_self, rfl, rfl, rfl, ?_⟩
        intro l' hl' _
        rcases hsplit l' hl' with hl' | rfl
        · exact lt_of_le_of_lt (h.login_le l' hl') (Nat.lt_add_of_pos_right httl)
        · exact Nat.lt_add_of_pos_right httl
      · obtain ⟨l, hl, hprovider, hlstate, htime, hlater⟩ := h.pending_login j state' flow hlookup
        refine ⟨l, hold l hl, hprovider, hlstate, htime, ?_⟩
        intro l' hl' hprovider'
        rcases hsplit l' hl' with hl' | rfl
        · exact hlater l' hl' hprovider'
        · exact hkept hprovider'.symm
    · intro e he
      obtain ⟨⟨l, hl, hstate⟩, hnone⟩ := h.consumed e he
      refine ⟨⟨l, hold l hl, hstate⟩, fun j => Option.eq_none_iff_forall_ne_some.mpr fun flow hlookup => ?_⟩
      rcases lookup_after_login hlookup with ⟨-, heq, -⟩ | ⟨hlookup, -⟩
      · exact hfresh l hl (hstate.trans heq)
      · rw [hnone j] at hlookup
        cases hlookup
    · intro k e he
      obtain ⟨⟨l, hl, hfacts⟩, hfirst⟩ := h.bound k e he
      exact ⟨⟨l, hold l hl, hfacts⟩, hfirst⟩

section

variable (hhmac : ∀ key, Function.Injective (server.env.hmacSha256 key))

include hhmac

theorem Inv.exchanged (h : Inv server s)
    {params : CallbackParams} (hunforged : Unforged server s (.callback request params now))
    (hregular : Regular server s (.callback request params now)) {p : OidcProvider}
    (hstate : params.state = some state) (hp : server.providers[i]? = some p)
    (hpresented : presented request.headers = some (state,
      stateFingerprint server.env p.fingerprintKey (server.inputs request).1 (server.inputs request).2))
    (hlookup : (s.pending i).lookup state = some flow) :
    ∃ l ∈ s.logins, l.provider = i ∧ l.state = state ∧ now ≤ l.time + flowTtl ∧ l.ip = server.ip request ∧
      l.ua = (server.inputs request).2 := by
  obtain ⟨l, hl, rfl, rfl, htime, hlater⟩ := h.pending_login i state flow hlookup
  obtain ⟨hwhole, hclient⟩ := hregular
  obtain ⟨hplain, hevicted⟩ := hclient l.state hstate l hl rfl
  -- the fingerprint was issued, with the state of this login, and so by this login
  have hissued := hunforged _ hpresented p (mem_of_getElem? hp) rfl
  obtain ⟨l', hl', hsame, hfingerprint⟩ := hwhole _ hpresented hissued
  obtain rfl : l' = l := h.login_once l' hl' l hl hsame
  obtain ⟨p', hp', hmade⟩ := h.fingerprint l' hl'
  obtain rfl : p' = p := Option.some.inj (hp'.symm.trans hp)
  have hbytes := hhmac _ (hmade.symm.trans hfingerprint)
  rw [← Utf8.encode_append, ← Utf8.encode_append] at hbytes
  obtain ⟨hip, hua⟩ := hplain (Utf8.encode_injective hbytes)
  refine ⟨l', hl, rfl, rfl, ?_, hip, hua⟩
  by_contra hlate
  obtain ⟨later, hmem, hprovider, hafter⟩ := hevicted (not_le.mp hlate)
  have hbefore := hlater later hmem hprovider
  omega

theorem Inv.callback (h : Inv server s)
    {params : CallbackParams} (hunforged : Unforged server s (.callback request params s.clock))
    (hregular : Regular server s (.callback request params s.clock)) :
    Inv server (server.callback s request params s.clock).2 := by
  rcases server.callback_cases s request params s.clock with
    heq | ⟨state, p, i, flow, hstate, hp, hpresented, hlookup, heq⟩
  · rw [heq]
    exact h
  · obtain ⟨l, hl, hprovider, hlstate, hsoon, hip, hua⟩ :=
      h.exchanged hhmac hunforged hregular hstate hp hpresented hlookup
    rw [heq]
    refine { h with pending_login := ?_, consumed := ?_, bound := ?_ }
    · intro j state' flow' hlookup'
      exact h.pending_login j state' flow' (lookup_after_callback hlookup').1
    · intro e he
      rcases mem_append.mp he with he | he
      · refine ⟨(h.consumed e he).1, fun j => Option.eq_none_iff_forall_ne_some.mpr fun flow' hlookup' => ?_⟩
        have hold := (lookup_after_callback hlookup').1
        rw [(h.consumed e he).2 j] at hold
        cases hold
      · rw [mem_singleton.mp he]
        refine ⟨⟨l, hl, hlstate⟩, fun j => Option.eq_none_iff_forall_ne_some.mpr fun flow' hlookup' => ?_⟩
        obtain ⟨hold, hne⟩ := lookup_after_callback hlookup'
        obtain ⟨l', hl', hprovider', hlstate', -⟩ := h.pending_login j state flow' hold
        obtain rfl : l' = l := h.login_once l' hl' l hl (hlstate'.trans hlstate.symm)
        exact hne (hprovider'.symm.trans hprovider) rfl
    · intro k e he
      rw [getElem?_append] at he
      split_ifs at he with hk
      · obtain ⟨hlogin, hfirst⟩ := h.bound k e he
        refine ⟨hlogin, fun j e' hj he' => hfirst j e' hj ?_⟩
        rwa [getElem?_append_left (hj.trans hk)] at he'
      · have hnew : e = ⟨i, state, s.clock, server.ip request, (server.inputs request).2⟩ :=
          mem_singleton.mp (mem_of_getElem? he)
        have hk' : k - s.exchanges.length < 1 := (List.getElem?_eq_some_iff.mp he).1
        subst hnew
        refine ⟨⟨l, hl, hprovider, hlstate, h.login_le l hl, hsoon, hip, hua⟩, ?_⟩
        intro j e' hj he' heq'
        have hold : s.exchanges[j]? = some e' := by rwa [getElem?_append_left (by omega)] at he'
        have hnone := (h.consumed e' (mem_of_getElem? hold)).2 i
        rw [heq', hlookup] at hnone
        cases hnone

theorem Inv.step (h : Inv server s) {event : Event}
    (htimely : Timely s event) (hunforged : Unforged server s event) (hregular : Regular server s event) :
    Inv server (server.step s event) := by
  have htick := h.tick htimely.1
  cases event with
  | login request provider state pkceVerifier nonce now => exact htick.login pkceVerifier nonce htimely.2
  | callback request params now => exact htick.callback hhmac hunforged hregular

end

/-- **Flow binding.** In every run whose callbacks are regular, each callback that reaches the token exchange belongs
to a login at its provider, of its client and at most the TTL before, and is the first with its state. -/
theorem exchange_bound (hhmac : ∀ key, Function.Injective (server.env.hmacSha256 key)) {events : List Event}
    (hrun : Guarded server.step
      (fun s event => Timely s event ∧ Unforged server s event ∧ Regular server s event) Instance.new events)
    {i : ℕ} {e : Exchange} (he : (run server.step Instance.new events).exchanges[i]? = some e) :
    BoundAt (run server.step Instance.new events) i e := by
  have hinv : Inv server (run server.step Instance.new events) :=
    invariant_run _ (fun _ _ h hevent => h.step hhmac hevent.1 hevent.2.1 hevent.2.2) Inv.new hrun
  exact hinv.bound i e he

end Invariant

namespace Visit

def showIp : IpAddr → Text
  | .v4 bits => ['.'].intercalate ([bits.toNat / 16777216, bits.toNat / 65536 % 256, bits.toNat / 256 % 256,
      bits.toNat % 256].map Text.decimal)
  | .v6 bits => Text.decimal bits.toNat

def tagChar (b : UInt8) : Char := Char.ofNat (256 + b.toNat)

def env : Env := ⟨fun _ => none, fun _ => none, showIp, fun _ data => data.map tagChar⟩

def server : Server := ⟨env, [⟨"idp", [1]⟩, ⟨"other", [2]⟩], []⟩

def request (host : BitVec 8) (ua : String) (cookies : List Text) : Request :=
  ⟨.v4 (0x0a0000#24 ++ host), ⟨cookies, some ua.toList, none⟩⟩

def login (host : BitVec 8) (ua state : String) (now : ℕ) : Event :=
  .login (request host ua []) (some "idp") state.toList "v" "n" now

def callback (host : BitVec 8) (ua state : String) (fingerprint : Text × Text) (now : ℕ) : Event :=
  .callback (request host ua ["persea_oidc_provider=idp", "persea_oidc_state=" ++ state.toList ++
    ':' :: stateFingerprint env [1] fingerprint.1 fingerprint.2]) ⟨some "c", some state.toList, none⟩ now

def final (events : List Event) : Instance := run server.step Instance.new events

theorem hmac_injective (key : List UInt8) : Function.Injective (server.env.hmacSha256 key) := by
  have htag : Function.Injective tagChar := by
    intro a b h
    have hvalid : ∀ n < 256, (Char.ofNat (256 + n)).toNat = 256 + n := by decide +kernel
    have hnat : 256 + a.toNat = 256 + b.toNat := by
      rw [← hvalid a.toNat a.toNat_lt, ← hvalid b.toNat b.toNat_lt]
      exact congrArg Char.toNat h
    exact UInt8.toNat_inj.mp (by omega)
  exact map_injective_iff.mpr htag

def honest : List Event := [login 1 "x" "s" 0, callback 1 "x" "s" ("10.0.0.1", "x") (600 * 1000000000)]

def exchanged (host : BitVec 8) (ua state : String) (now : ℕ) : Exchange :=
  ⟨0, state.toList, now, .v4 (0x0a0000#24 ++ host), ua.toList⟩

theorem honest_exchanged :
    Guarded server.step (fun s event => Timely s event ∧ Unforged server s event ∧ Regular server s event)
        Instance.new honest ∧
      (final honest).exchanges[0]? = some (exchanged 1 "x" "s" (600 * 1000000000)) := by
  decide +kernel

end Visit

open Visit in
theorem exchange_bound_honest : BoundAt (final honest) 0 (exchanged 1 "x" "s" (600 * 1000000000)) :=
  exchange_bound hmac_injective honest_exchanged.1 honest_exchanged.2

namespace Visit

/-- Nobody logged in at the provider since. -/
def late : List Event := [login 1 "x" "s" 0, callback 1 "x" "s" ("10.0.0.1", "x") (601 * 1000000000)]

/-- The second client brings the state of the first, and the fingerprint of its own login. -/
def mixed : List Event := [login 1 "x" "s" 0, login 2 "y" "t" 1, callback 2 "y" "s" ("10.0.0.2", "y") 2]

/-- The address and the User-Agent of the two clients are the same when one is written after the other. -/
def shifted : List Event := [login 1 "1x" "s" 0, callback 11 "x" "s" ("10.0.0.1", "1x") 1]

theorem unbound_exchanged : ∀ run ∈ [(late, exchanged 1 "x" "s" (601 * 1000000000)), (mixed, exchanged 2 "y" "s" 2),
        (shifted, exchanged 11 "x" "s" 1)],
      Guarded server.step (fun s event => Timely s event ∧ Unforged server s event) Instance.new run.1 ∧
        (final run.1).exchanges[0]? = some run.2 ∧
        ¬∃ l ∈ (final run.1).logins, l.provider = run.2.provider ∧ l.state = run.2.state ∧ l.time ≤ run.2.time ∧
          run.2.time ≤ l.time + flowTtl ∧ l.ip = run.2.ip ∧ l.ua = run.2.ua := by
  decide +kernel

end Visit

open Visit in
/-- Three ways for a callback to reach the exchange without being bound to its login: too late, with parts of two
cookies, and from another client whose texts run together the same. -/
theorem exchange_unbound : (∀ key, Function.Injective (server.env.hmacSha256 key)) ∧
      ∀ run ∈ [(late, exchanged 1 "x" "s" (601 * 1000000000)), (mixed, exchanged 2 "y" "s" 2),
          (shifted, exchanged 11 "x" "s" 1)],
        Guarded server.step (fun s event => Timely s event ∧ Unforged server s event) Instance.new run.1 ∧
          (final run.1).exchanges[0]? = some run.2 ∧ ¬BoundAt (final run.1) 0 run.2 := by
  refine ⟨hmac_injective, fun run hrun => ?_⟩
  obtain ⟨hguarded, hexchanged, hlogin⟩ := unbound_exchanged run hrun
  exact ⟨hguarded, hexchanged, fun hbound => hlogin hbound.1⟩

end Persea.Oidc
