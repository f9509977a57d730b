import Persea.BaseTransition
import Persea.SamlSigned

/-! `SamlProvider`: a callback takes the request it answers, validates the response, and records the assertion, under
separate locks. Times are nanoseconds of the monotonic clock. -/

namespace Persea.Saml

open Base Base.Xml List Transition Option AList

def pendingRequestTtl : ℕ := 600 * 1000000000

def consumedAssertionTtl : ℕ := 24 * 60 * 60 * 1000000000

structure ProviderConfig extends SamlConfig where
  groupsAttribute : Option Text

inductive AuthResult where
  | success (subject displayName : Text) (groups : List Text) (role : Option Text)
  | failure (message : String)
  | unavailable (message : String)
  | panicked
deriving DecidableEq

def AuthResult.isSuccess : AuthResult → Bool
  | .success .. => true
  | _ => false

def extractGroups (attrs : SamlAttributes) (groupsAttribute : Option Text) : List Text :=
  (attrs.attributes.lookup (groupsAttribute.getD "groups")).getD []

def prune (ttl now : ℕ) (map : Store Text ℕ) : Store Text ℕ := map.retain fun _ since => now - since < ttl

def takeRequestId (pending : Store Text ℕ) (now : ℕ) (irt : Text) : Option Text × Store Text ℕ :=
  let pending := prune pendingRequestTtl now pending
  ((pending.lookup irt).map fun _ => irt, pending.erase irt)

def resolveRequestId (env : Env) (config : ProviderConfig) (pending : Store Text ℕ) (now : ℕ) (xml : Text) :
    Except String (Option Text) × Store Text ℕ :=
  match extractInResponseTo env xml with
  | some irt =>
    match takeRequestId pending now irt with
    | (some _, pending) => (.ok (some irt), pending)
    | (none, pending) => (.error "SAML response references an unknown or expired AuthnRequest", pending)
  | none =>
    if config.strictMode then
      (.error ("SAML response carries no InResponseTo — IdP-initiated SSO requires strict_mode = false"), pending)
    else (.ok none, pending)

def consumeAssertion (consumed : Store Text ℕ) (now : ℕ) (assertionId : Text) : Bool × Store Text ℕ :=
  let consumed := prune consumedAssertionTtl now consumed
  if (consumed.lookup assertionId).isSome then (false, consumed) else (true, consumed.insert assertionId now)

def conclude (env : Env) (config : ProviderConfig) (certificate xml : Text) (requestId : Option Text)
    (consumed : Store Text ℕ) (now : ℕ) (wall : DateTime) : AuthResult × Store Text ℕ :=
  match parseSamlResponse env config.toSamlConfig wall xml certificate requestId with
  | .error (.refused e) => (.failure ("SAML response validation failed: " ++ e), consumed)
  | .error .panicked => (.panicked, consumed)
  | .ok attrs =>
    let success := AuthResult.success attrs.nameId attrs.nameId (extractGroups attrs config.groupsAttribute) none
    let assertionId := (extractAssertionId env xml).getD []
    if assertionId = [] then (success, consumed)
    else
      match consumeAssertion consumed now assertionId with
      | (false, consumed) => (.failure "SAML assertion replay detected", consumed)
      | (true, consumed) => (success, consumed)

/-- A callback: the decoded response, the certificate of the metadata, the request it took and when, and how it
ended, once it has. -/
structure Callback where
  xml : Text
  certificate : Text
  took : Option Text
  since : ℕ
  outcome : Option (ℕ × AuthResult)
deriving DecidableEq

structure Provider where
  clock : ℕ
  pending : Store Text ℕ
  consumed : Store Text ℕ
  issued : List (Text × ℕ)
  calls : List Callback

def Provider.new : Provider := ⟨0, ∅, ∅, [], []⟩

/-- What happens at the provider. The metadata are the certificate of the IdP, or why they cannot be loaded. -/
inductive Event where
  | login (metadata : Except String Text) (id : Text) (now : ℕ)
  | callback (metadata : Except String Text) (response : Text) (now : ℕ)
  | conclude (call : ℕ) (now : ℕ) (wall : DateTime)

def Event.now : Event → ℕ
  | .login _ _ now => now
  | .callback _ _ now => now
  | .conclude _ now _ => now

section Machine

variable (env : Env) (decodeSamlResponse : Text → Except String Text) (config : ProviderConfig)

def Callback.ended (xml certificate : Text) (now : ℕ) (result : AuthResult) : Callback :=
  ⟨xml, certificate, none, now, some (now, result)⟩

variable (p : Provider)

def Provider.receive (metadata : Except String Text) (response : Text) (now : ℕ) : Provider :=
  match metadata with
  | .error e => { p with calls := p.calls ++ [.ended [] [] now (.unavailable ("SAML IdP metadata error: " ++ e))] }
  | .ok certificate =>
    match decodeSamlResponse response with
    | .error e =>
      { p with calls := p.calls ++ [.ended [] certificate now (.failure ("SAML response decode failed: " ++ e))] }
    | .ok xml =>
      match resolveRequestId env config p.pending now xml with
      | (.error e, pending) =>
        { p with pending := pending, calls := p.calls ++ [.ended xml certificate now (.failure e)] }
      | (.ok requestId, pending) =>
        { p with pending := pending, calls := p.calls ++ [⟨xml, certificate, requestId, now, none⟩] }

/-- The second part, for a callback that has not ended. -/
def Provider.finish (call now : ℕ) (wall : DateTime) : Provider :=
  match p.calls[call]? with
  | some ⟨xml, certificate, took, since, none⟩ =>
    let concluded := Saml.conclude env config certificate xml took p.consumed now wall
    { p with
      consumed := concluded.2
      calls := p.calls.set call ⟨xml, certificate, took, since, some (now, concluded.1)⟩ }
  | _ => p

def Provider.login (metadata : Except String Text) (id : Text) (now : ℕ) : Provider :=
  match metadata with
  | .error _ => p
  | .ok _ =>
    { p with
      pending := (prune pendingRequestTtl now p.pending).insert id now
      issued := p.issued ++ [(id, now)] }

def Provider.step (event : Event) : Provider :=
  let p := { p with clock := event.now }
  match event with
  | .login metadata id now => p.login metadata id now
  | .callback metadata response now => p.receive env decodeSamlResponse config metadata response now
  | .conclude call now wall => p.finish env config call now wall

end Machine

def Event.issues : Event → Option Text
  | .login _ id _ => some id
  | .callback .. | .conclude .. => none

variable (decodeSamlResponse : Text → Except String Text)

def Event.brings : Event → Option (Text × Text)
  | .callback (.ok certificate) response _ => (decodeSamlResponse response).toOption.map fun xml => (xml, certificate)
  | .login .. | .callback (.error _) .. | .conclude .. => none

/-- The clock does not go back, and a new request has an id that no request had before. -/
def Timely (p : Provider) (event : Event) : Prop :=
  p.clock ≤ event.now ∧ ∀ id ∈ event.issues, ∀ e ∈ p.issued, e.1 ≠ id

def Admits (Accepted : Text → Text → Prop) (p : Provider) (event : Event) : Prop :=
  Timely p event ∧ ∀ r ∈ event.brings decodeSamlResponse, Accepted r.1 r.2

instance (p : Provider) (event : Event) : Decidable (Timely p event) :=
  inferInstanceAs (Decidable (p.clock ≤ event.now ∧ ∀ id ∈ event.issues, ∀ e ∈ p.issued, e.1 ≠ id))

instance (decodeSamlResponse : Text → Except String Text) (Accepted : Text → Text → Prop)
    [∀ xml certificate, Decidable (Accepted xml certificate)] (p : Provider) (event : Event) :
    Decidable (Admits decodeSamlResponse Accepted p event) :=
  inferInstanceAs (Decidable (Timely p event ∧ ∀ r ∈ event.brings decodeSamlResponse, Accepted r.1 r.2))

/-! ### The maps -/

variable {now : ℕ} {id : Text} {since : ℕ} {xml : Text} {consumed : Store Text ℕ} {assertionId certificate : Text}
  {requestId : Option Text} {wall : DateTime} {metadata : Except String Text}

theorem lookup_prune {ttl : ℕ} {map : Store Text ℕ} :
    (prune ttl now map).lookup id = some since ↔ map.lookup id = some since ∧ now - since < ttl := by
  rw [prune, Store.lookup_retain_eq_some, decide_eq_true_eq]

theorem lookup_prune_of_none {ttl : ℕ} {map : Store Text ℕ} (h : map.lookup id = none) :
    (prune ttl now map).lookup id = none := Store.lookup_retain_of_none h

theorem resolveRequestId_spec {env : Env} {config : ProviderConfig} (hstrict : config.strictMode)
    {pending pending' : Store Text ℕ} {result : Except String (Option Text)}
    (h : resolveRequestId env config pending now xml = (result, pending')) :
    (∀ id since, pending'.lookup id = some since → pending.lookup id = some since) ∧
      ∀ took, result = .ok took → ∃ id since, took = some id ∧ extractInResponseTo env xml = some id ∧
        pending.lookup id = some since ∧ now - since < pendingRequestTtl ∧ pending'.lookup id = none := by
  unfold resolveRequestId takeRequestId at h
  cases hirt : extractInResponseTo env xml with
  | none =>
    rw [hirt] at h
    simp only [hstrict, if_true, Prod.mk.injEq] at h
    obtain ⟨rfl, rfl⟩ := h
    exact ⟨fun _ _ hlookup => hlookup, fun _ hok => by cases hok⟩
  | some irt =>
    rw [hirt] at h
    have hdrops : ∀ id since, ((prune pendingRequestTtl now pending).erase irt).lookup id = some since →
        pending.lookup id = some since := by
      intro id since hlookup
      by_cases hid : id = irt
      · rw [hid, lookup_erase] at hlookup
        cases hlookup
      · rw [lookup_erase_ne hid] at hlookup
        exact (lookup_prune.mp hlookup).1
    cases hlookup : (prune pendingRequestTtl now pending).lookup irt with
    | none =>
      simp only [hlookup, map_none, Prod.mk.injEq] at h
      obtain ⟨rfl, rfl⟩ := h
      exact ⟨hdrops, fun _ hok => by cases hok⟩
    | some since =>
      simp only [hlookup, map_some, Prod.mk.injEq] at h
      obtain ⟨rfl, rfl⟩ := h
      obtain ⟨hpending, hfresh⟩ := lookup_prune.mp hlookup
      refine ⟨hdrops, fun took hok => ⟨irt, since, ?_, rfl, hpending, hfresh, lookup_erase _ _⟩⟩
      exact (Except.ok.inj hok).symm

theorem consumeAssertion_of_none (h : (prune consumedAssertionTtl now consumed).lookup assertionId = none) :
    consumeAssertion consumed now assertionId =
      (true, (prune consumedAssertionTtl now consumed).insert assertionId now) := by
  simp only [consumeAssertion, h, isSome_none, Bool.false_eq_true, if_false]

theorem consumeAssertion_of_some (h : (prune consumedAssertionTtl now consumed).lookup assertionId = some since) :
    consumeAssertion consumed now assertionId = (false, prune consumedAssertionTtl now consumed) := by
  simp only [consumeAssertion, h, isSome_some, if_true]

theorem conclude_success {env : Env} {config : ProviderConfig}
    (h : (conclude env config certificate xml requestId consumed now wall).1.isSuccess) :
    (∃ attrs, parseSamlResponse env config.toSamlConfig wall xml certificate requestId = .ok attrs) ∧
      ∀ assertionId, extractAssertionId env xml = some assertionId → assertionId ≠ [] →
        (prune consumedAssertionTtl now consumed).lookup assertionId = none ∧
          (conclude env config certificate xml requestId consumed now wall).2 =
            (prune consumedAssertionTtl now consumed).insert assertionId now := by
  unfold conclude at h ⊢
  cases hparse : parseSamlResponse env config.toSamlConfig wall xml certificate requestId with
  | error failure => cases failure <;> rw [hparse] at h <;> cases h
  | ok attrs =>
    rw [hparse] at h
    refine ⟨⟨attrs, rfl⟩, fun assertionId hid hne => ?_⟩
    simp only [hid, getD_some, hne, if_false] at h ⊢
    cases hlookup : (prune consumedAssertionTtl now consumed).lookup assertionId with
    | some since =>
      rw [consumeAssertion_of_some hlookup] at h
      cases h
    | none =>
      rw [consumeAssertion_of_none hlookup]
      exact ⟨rfl, rfl⟩

theorem conclude_keeps {env : Env} {config : ProviderConfig}
    (h : consumed.lookup assertionId = some since) (hnow : since ≤ now) :
    since + consumedAssertionTtl ≤ now ∨ ∃ since', since ≤ since' ∧
      (conclude env config certificate xml requestId consumed now wall).2.lookup assertionId = some since' := by
  have hpruned : since + consumedAssertionTtl ≤ now ∨
      (prune consumedAssertionTtl now consumed).lookup assertionId = some since := by
    by_cases hfresh : now - since < consumedAssertionTtl
    · exact .inr (lookup_prune.mpr ⟨h, hfresh⟩)
    · exact .inl (by omega)
  unfold conclude
  cases parseSamlResponse env config.toSamlConfig wall xml certificate requestId with
  | error failure => cases failure <;> exact .inr ⟨since, le_rfl, h⟩
  | ok attrs =>
    simp only
    split_ifs with hempty
    · exact .inr ⟨since, le_rfl, h⟩
    · refine hpruned.imp_right fun hlookup => ?_
      refine ⟨since, le_rfl, ?_⟩
      by_cases hid : (extractAssertionId env xml).getD [] = assertionId
      · rw [hid, consumeAssertion_of_some hlookup]
        exact hlookup
      · cases hother : (prune consumedAssertionTtl now consumed).lookup ((extractAssertionId env xml).getD []) with
        | none =>
          rw [consumeAssertion_of_none hother]
          exact (lookup_insert_ne (Ne.symm hid)).trans hlookup
        | some other =>
          rw [consumeAssertion_of_some hother]
          exact hlookup

theorem lookup_conclude {env : Env} {config : ProviderConfig}
    (h : (conclude env config certificate xml requestId consumed now wall).2.lookup assertionId = some since) :
    consumed.lookup assertionId = some since ∨ since = now := by
  unfold conclude at h
  cases hparse : parseSamlResponse env config.toSamlConfig wall xml certificate requestId with
  | error failure => cases failure <;> rw [hparse] at h <;> exact .inl h
  | ok attrs =>
    simp only [hparse] at h
    split_ifs at h with hempty
    · exact .inl h
    · cases hlookup : (prune consumedAssertionTtl now consumed).lookup ((extractAssertionId env xml).getD []) with
      | some other =>
        rw [consumeAssertion_of_some hlookup] at h
        exact .inl (lookup_prune.mp h).1
      | none =>
        rw [consumeAssertion_of_none hlookup] at h
        by_cases hid : assertionId = (extractAssertionId env xml).getD []
        · rw [← hid, lookup_insert] at h
          exact .inr (some.inj h).symm
        · rw [lookup_insert_ne hid] at h
          exact .inl (lookup_prune.mp h).1

/-- What comes in with a callback: it takes at most the request it names, and it has not succeeded. -/
structure Received (env : Env) (decodeSamlResponse : Text → Except String Text) (p : Provider)
    (metadata : Except String Text) (response : Text) (now : ℕ) (pending : Store Text ℕ) (c : Callback) : Prop where
  drops : ∀ id since, pending.lookup id = some since → p.pending.lookup id = some since
  since_eq : c.since = now
  running : c.outcome = none → c.took ≠ none
  failed : ∀ t result, c.outcome = some (t, result) → result.isSuccess = false
  took : ∀ id, c.took = some id → metadata = .ok c.certificate ∧ decodeSamlResponse response = .ok c.xml ∧
    extractInResponseTo env c.xml = some id ∧ pending.lookup id = none ∧
    ∃ since, p.pending.lookup id = some since ∧ now - since < pendingRequestTtl

theorem Received.of_ended {env : Env} {decodeSamlResponse : Text → Except String Text} {p : Provider}
    {response : Text} {pending : Store Text ℕ} (xml certificate : Text)
    {result : AuthResult} (hresult : result.isSuccess = false)
    (hdrops : ∀ id since, pending.lookup id = some since → p.pending.lookup id = some since) :
    Received env decodeSamlResponse p metadata response now pending (.ended xml certificate now result) where
  drops := hdrops
  since_eq := rfl
  running := fun hnone => by cases hnone
  failed := by
    intro t result' houtcome
    rw [Callback.ended, some.injEq, Prod.mk.injEq] at houtcome
    rw [← houtcome.2, hresult]
  took := fun id htook => by cases htook

theorem Provider.receive_eq (p : Provider) (env : Env) (decodeSamlResponse : Text → Except String Text)
    {config : ProviderConfig} (hstrict : config.strictMode) (metadata : Except String Text) (response : Text)
    (now : ℕ) :
    ∃ pending c, p.receive env decodeSamlResponse config metadata response now =
        { p with pending := pending, calls := p.calls ++ [c] } ∧
      Received env decodeSamlResponse p metadata response now pending c := by
  unfold Provider.receive
  cases metadata with
  | error e => exact ⟨p.pending, _, rfl, Received.of_ended _ _ rfl fun _ _ hlookup => hlookup⟩
  | ok certificate =>
    cases hdecode : decodeSamlResponse response with
    | error e => exact ⟨p.pending, _, rfl, Received.of_ended _ _ rfl fun _ _ hlookup => hlookup⟩
    | ok xml =>
      dsimp only
      cases hresolve : resolveRequestId env config p.pending now xml with
      | mk result pending =>
        obtain ⟨hdrops, htaken⟩ := resolveRequestId_spec hstrict hresolve
        cases result with
        | error e => exact ⟨pending, _, rfl, Received.of_ended _ _ rfl hdrops⟩
        | ok took =>
          obtain ⟨id, since, rfl, hirt, hlookup, hfresh, hgone⟩ := htaken took rfl
          refine ⟨pending, _, rfl, hdrops, rfl, fun _ => some_ne_none id, ?_, ?_⟩
          · intro t result houtcome
            cases houtcome
          · intro id' hid'
            obtain rfl : id = id' := some.inj hid'
            exact ⟨rfl, hdecode, hirt, hgone, since, hlookup, hfresh⟩

theorem Provider.finish_eq (p : Provider) (env : Env) (config : ProviderConfig) (call now : ℕ) (wall : DateTime) :
    p.finish env config call now wall = p ∧ (∀ c, p.calls[call]? = some c → c.outcome ≠ none) ∨
      ∃ c concluded, p.calls[call]? = some c ∧ c.outcome = none ∧
        concluded = Saml.conclude env config c.certificate c.xml c.took p.consumed now wall ∧
        p.finish env config call now wall = { p with
            consumed := concluded.2
            calls := p.calls.set call { c with outcome := some (now, concluded.1) } } := by
  unfold Provider.finish
  split
  · rename_i xml certificate took since hcall
    exact .inr ⟨⟨xml, certificate, took, since, none⟩, _, hcall, rfl, rfl, rfl⟩
  · rename_i hother
    refine .inl ⟨rfl, fun c hcall hrunning => ?_⟩
    obtain ⟨xml, certificate, took, since, outcome⟩ := c
    obtain rfl : outcome = none := hrunning
    exact hother xml certificate took since hcall

/-! ### Requests are taken once -/

/-- The callback answers a request that was issued less than the TTL before, and that is no longer pending. -/
def Provider.Took (env : Env) (p : Provider) (c : Callback) (id : Text) : Prop :=
  extractInResponseTo env c.xml = some id ∧ p.pending.lookup id = none ∧
    ∃ issued, (id, issued) ∈ p.issued ∧ issued ≤ c.since ∧ c.since < issued + pendingRequestTtl

/-- `Accepted` is a condition on the responses, and on the certificate they are checked with. -/
structure Provider.Inv (env : Env) (config : ProviderConfig) (Accepted : Text → Text → Prop) (p : Provider) :
    Prop where
  issued_le : ∀ e ∈ p.issued, e.2 ≤ p.clock
  issued_once : ∀ e ∈ p.issued, ∀ e' ∈ p.issued, e.1 = e'.1 → e = e'
  pending_issued : ∀ id since, p.pending.lookup id = some since → (id, since) ∈ p.issued
  took : ∀ c ∈ p.calls, ∀ id, c.took = some id → p.Took env c id
  once : ∀ id, Exclusive (fun c : Callback => c.took = some id) p.calls
  running : ∀ c ∈ p.calls, c.outcome = none → c.took ≠ none
  accepted : ∀ c ∈ p.calls, c.took ≠ none → Accepted c.xml c.certificate
  ended : ∀ c ∈ p.calls, ∀ now result, c.outcome = some (now, result) → result.isSuccess = true → c.took ≠ none ∧
      ∃ wall attrs, parseSamlResponse env config.toSamlConfig wall c.xml c.certificate c.took = .ok attrs

section Invariant

variable {env : Env} {decodeSamlResponse : Text → Except String Text} {config : ProviderConfig}
  {Accepted : Text → Text → Prop} {p : Provider}

theorem Provider.inv_new : Provider.new.Inv env config Accepted where
  issued_le := fun _ h => by cases h
  issued_once := fun _ h => by cases h
  pending_issued := fun _ _ h => by cases h
  took := fun _ h => by cases h
  once := fun _ => exclusive_nil _
  running := fun _ h => by cases h
  accepted := fun _ h => by cases h
  ended := fun _ h => by cases h

theorem Provider.Inv.tick (h : p.Inv env config Accepted) (hnow : p.clock ≤ now) :
    ({ p with clock := now } : Provider).Inv env config Accepted :=
  { h with issued_le := fun e he => (h.issued_le e he).trans hnow }

theorem Provider.Inv.login (h : p.Inv env config Accepted)
    (hfresh : ∀ e ∈ p.issued, e.1 ≠ id) : (p.login metadata id p.clock).Inv env config Accepted := by
  cases metadata with
  | error e => exact h
  | ok certificate =>
    refine { h with issued_le := ?_, issued_once := ?_, pending_issued := ?_, took := ?_ }
    · intro e he
      rcases mem_append.mp he with he | he
      · exact h.issued_le e he
      · rw [mem_singleton.mp he]
        exact le_rfl
    · intro e he e' he' hsame
      rcases mem_append.mp he with he | he
      · rcases mem_append.mp he' with he' | he'
        · exact h.issued_once e he e' he' hsame
        · rw [mem_singleton.mp he'] at hsame
          exact absurd hsame (hfresh e he)
      · rcases mem_append.mp he' with he' | he'
        · rw [mem_singleton.mp he] at hsame
          exact absurd hsame.symm (hfresh e' he')
        · rw [mem_singleton.mp he, mem_singleton.mp he']
    · intro id' since hlookup
      simp only [Provider.login] at hlookup
      by_cases hid : id' = id
      · subst hid
        rw [lookup_insert] at hlookup
        rw [← some.inj hlookup]
        exact mem_append_right _ mem_cons_self
      · rw [lookup_insert_ne hid] at hlookup
        exact mem_append_left _ (h.pending_issued id' since (lookup_prune.mp hlookup).1)
    · intro c hc id' htook
      obtain ⟨hirt, hnone, issued, hissued, hle, hlt⟩ := h.took c hc id' htook
      have hid : id' ≠ id := hfresh _ hissued
      refine ⟨hirt, ?_, issued, mem_append_left _ hissued, hle, hlt⟩
      exact (lookup_insert_ne hid).trans (lookup_prune_of_none hnone)

theorem Provider.Inv.receive (hstrict : config.strictMode) (h : p.Inv env config Accepted) {response : Text}
    (haccepted : ∀ certificate xml, metadata = .ok certificate → decodeSamlResponse response = .ok xml →
      Accepted xml certificate) :
    (p.receive env decodeSamlResponse config metadata response p.clock).Inv env config Accepted := by
  obtain ⟨pending, c, heq, hreceived⟩ := p.receive_eq env decodeSamlResponse hstrict metadata response
    p.clock
  have hnone : ∀ id, p.pending.lookup id = none → pending.lookup id = none := by
    intro id hid
    cases hlookup : pending.lookup id with
    | none => rfl
    | some since => rw [hreceived.drops id since hlookup] at hid; cases hid
  rw [heq]
  refine { h with pending_issued := ?_, took := ?_, once := ?_, running := ?_, accepted := ?_, ended := ?_ }
  · exact fun id since hlookup => h.pending_issued id since (hreceived.drops id since hlookup)
  · intro c' hc' id htook'
    rcases mem_append.mp hc' with hc' | hc'
    · obtain ⟨hirt, hid, hissued⟩ := h.took c' hc' id htook'
      exact ⟨hirt, hnone id hid, hissued⟩
    · rw [mem_singleton.mp hc'] at htook' ⊢
      obtain ⟨-, -, hirt, hgone, since, hlookup, hfresh⟩ := hreceived.took id htook'
      have hissued := h.pending_issued id since hlookup
      have hle := h.issued_le _ hissued
      rw [← hreceived.since_eq] at hfresh hle
      exact ⟨hirt, hgone, since, hissued, hle, by omega⟩
  · intro id
    by_cases hc : c.took = some id
    · obtain ⟨-, -, -, -, since, hlookup, -⟩ := hreceived.took id hc
      refine Exclusive.concat_new fun c' hc' htook' => ?_
      rw [(h.took c' hc' id htook').2.1] at hlookup
      cases hlookup
    · exact (h.once id).concat hc
  · intro c' hc'
    rcases mem_append.mp hc' with hc' | hc'
    · exact h.running c' hc'
    · rw [mem_singleton.mp hc']
      exact hreceived.running
  · intro c' hc' htook'
    rcases mem_append.mp hc' with hc' | hc'
    · exact h.accepted c' hc' htook'
    · rw [mem_singleton.mp hc'] at htook' ⊢
      obtain ⟨id, hid⟩ := ne_none_iff_exists'.mp htook'
      obtain ⟨hmetadata, hdecode, -⟩ := hreceived.took id hid
      exact haccepted c.certificate c.xml hmetadata hdecode
  · intro c' hc' now result houtcome hsuccess
    rcases mem_append.mp hc' with hc' | hc'
    · exact h.ended c' hc' now result houtcome hsuccess
    · rw [mem_singleton.mp hc'] at houtcome
      rw [hreceived.failed now result houtcome] at hsuccess
      cases hsuccess

theorem Provider.Inv.set (h : p.Inv env config Accepted) {call : ℕ} {c : Callback}
    {outcome : ℕ × AuthResult} (hcall : p.calls[call]? = some c) (hrunning : c.outcome = none)
    (hsuccess : outcome.2.isSuccess →
      ∃ wall attrs, parseSamlResponse env config.toSamlConfig wall c.xml c.certificate c.took = .ok attrs) :
    ({ p with consumed := consumed, calls := p.calls.set call { c with outcome := some outcome } } : Provider).Inv
      env config Accepted := by
  have hmem : c ∈ p.calls := mem_of_getElem? hcall
  have hsplit : ∀ c' ∈ p.calls.set call { c with outcome := some outcome },
      c' = { c with outcome := some outcome } ∨ c' ∈ p.calls := by
    intro c' hc'
    exact (mem_or_eq_of_mem_set hc').symm
  refine { h with took := ?_, once := ?_, running := ?_, accepted := ?_, ended := ?_ }
  · intro c' hc' id htook
    rcases hsplit c' hc' with rfl | hc'
    · exact h.took c hmem id htook
    · exact h.took c' hc' id htook
  · intro id i j a b ha hb hta htb
    -- the callback that ends took what it took before
    have hold : ∀ (k : ℕ) (a : Callback), (p.calls.set call { c with outcome := some outcome })[k]? = some a →
        a.took = some id → ∃ a' : Callback, p.calls[k]? = some a' ∧ a'.took = some id := by
      intro k a ha hta
      rcases getElem?_set_cases ha with ⟨rfl, rfl⟩ | ⟨-, ha⟩
      · exact ⟨c, hcall, hta⟩
      · exact ⟨a, ha, hta⟩
    obtain ⟨a', ha', hta'⟩ := hold i a ha hta
    obtain ⟨b', hb', htb'⟩ := hold j b hb htb
    exact h.once id i j a' b' ha' hb' hta' htb'
  · intro c' hc' hnone
    rcases hsplit c' hc' with rfl | hc'
    · cases hnone
    · exact h.running c' hc' hnone
  · intro c' hc' htook
    rcases hsplit c' hc' with rfl | hc'
    · exact h.accepted c hmem htook
    · exact h.accepted c' hc' htook
  · intro c' hc' now result houtcome hresult
    rcases hsplit c' hc' with rfl | hc'
    · rw [some.injEq] at houtcome
      rw [houtcome] at hsuccess
      exact ⟨h.running c hmem hrunning, hsuccess hresult⟩
    · exact h.ended c' hc' now result houtcome hresult

theorem Provider.Inv.finish (h : p.Inv env config Accepted) (call : ℕ) (wall : DateTime) :
    (p.finish env config call p.clock wall).Inv env config Accepted := by
  rcases p.finish_eq env config call p.clock wall with ⟨heq, -⟩ | ⟨c, concluded, hcall, hrunning, hconcluded, heq⟩
  · rw [heq]
    exact h
  · rw [heq, hconcluded]
    exact h.set hcall hrunning fun hsuccess => ⟨wall, (conclude_success hsuccess).1⟩

theorem Provider.Inv.step (hstrict : config.strictMode) (h : p.Inv env config Accepted) {event : Event}
    (hevent : Admits decodeSamlResponse Accepted p event) :
    (p.step env decodeSamlResponse config event).Inv env config Accepted := by
  obtain ⟨⟨hclock, hfresh⟩, haccepted⟩ := hevent
  have htick := h.tick hclock
  cases event with
  | login metadata id now => exact htick.login (hfresh id rfl)
  | callback metadata response now =>
    refine htick.receive hstrict ?_
    rintro certificate xml rfl hdecode
    exact haccepted (xml, certificate) (by rw [Event.brings, hdecode]; rfl)
  | conclude call now wall => exact htick.finish call wall

theorem Provider.inv_run (hstrict : config.strictMode) {events : List Event}
    (hrun : Guarded (Provider.step env decodeSamlResponse config) (Admits decodeSamlResponse Accepted)
      Provider.new events) :
    (run (Provider.step env decodeSamlResponse config) Provider.new events).Inv env config Accepted :=
  invariant_run _ (fun _ _ h hevent => h.step hstrict hevent) Provider.inv_new hrun

end Invariant

end Persea.Saml
