import Persea.SamlProvider

/-! What a successful SAML callback says: which request it answers, and that neither a request nor an assertion is
used twice. The request is looked up by the first InResponseTo of the document, which need not be the one that is
signed. -/

namespace Persea.Saml

open Base Base.Xml Transition Option Provider List

def signedElement (env : Env) (xml : Text) : Option Text :=
  ((extractAssertionId env xml).bind (extractElementById env xml)).map (removeSignatureElement env)

def innerInResponseTo (env : Env) (element : Text) : Option Text :=
  firstAttribute env element [subjectConfirmationData] "InResponseTo"

variable {requestId : Option Text}

theorem signedElement_of_validated {env : Env} {xml certificate element : Text}
    (h : validateResponseSignature env xml certificate requestId = .ok element) :
    signedElement env xml = some element := by
  obtain ⟨v⟩ := validated_of_ok h
  rw [signedElement, v.assertion_eq, bind_some, v.found_eq, map_some, v.element_eq]

theorem exists_validated {env : Env} {config : SamlConfig} {wall : DateTime} {xml certificate : Text}
    {attrs : SamlAttributes} (hstrict : config.strictMode) (hcertificate : certificate ≠ [])
    (h : parseSamlResponse env config wall xml certificate requestId = .ok attrs) :
    ∃ element, validateResponseSignature env xml certificate requestId = .ok element := by
  have hchecked : (config.strictMode && decide (certificate ≠ [])) := by simp [hstrict, hcertificate]
  rw [parseSamlResponse, hchecked] at h
  obtain ⟨element, hvalid, -⟩ := Except.bind_eq_ok_iff.mp h
  exact ⟨element, hvalid⟩

/-- The response names its request first where it is signed. -/
def BindsRequest (env : Env) (xml certificate : Text) : Prop :=
  certificate ≠ [] ∧ ∀ element ∈ signedElement env xml, extractInResponseTo env xml = innerInResponseTo env element

instance (env : Env) (xml certificate : Text) : Decidable (BindsRequest env xml certificate) :=
  inferInstanceAs (Decidable (_ ∧ ∀ element ∈ signedElement env xml, _))

/-- The callback answers the request that its signed assertion names; it was issued here less than the TTL before,
and no earlier callback took it. -/
def AnswersSigned (env : Env) (p : Provider) (call : ℕ) (c : Callback) : Prop :=
  ∃ element id issued, validateResponseSignature env c.xml c.certificate c.took = .ok element ∧
    innerInResponseTo env element = some id ∧ (id, issued) ∈ p.issued ∧ issued ≤ c.since ∧
    c.since < issued + pendingRequestTtl ∧
    ∀ (earlier : ℕ) (c' : Callback), earlier < call → p.calls[earlier]? = some c' → c'.took ≠ some id

/-! ### Messages -/

namespace Exchange

open Fixture (tag element spell)

/-- A response: the request it names outside of its assertion and that in its signed assertion, the ID of the
assertion, the reference of the signature to it, and its digest. -/
structure Message where
  (outer inner id uri digest : String)

namespace Message

variable (m : Message)

def signedInfo : List Xml.Event :=
  element "SignedInfo" (.start (tag "Reference" [("URI", m.uri)]) ::
    (element "DigestValue" [.text m.digest.toList] ++ [.close "Reference"]))

def signature : List Xml.Event := element "Signature" (m.signedInfo ++ element "SignatureValue" [.text "S"])

def subject : List Xml.Event :=
  element "Subject" (element "NameID" [.text "u"] ++ element "SubjectConfirmation"
    [.empty (tag "SubjectConfirmationData" [("InResponseTo", m.inner), ("Recipient", "acs")])])

def conditions : List Xml.Event :=
  .start (tag "Conditions" [("NotOnOrAfter", "T")]) :: (element "AudienceRestriction"
    (element "Audience" [.text "sp"]) ++ [.close "Conditions"])

def assertion (signature : List Xml.Event) : List Xml.Event :=
  .start (tag "Assertion" [("ID", m.id)]) :: (signature ++ m.subject ++ conditions ++ [.close "Assertion"])

def response : List Xml.Event :=
  .start (tag "Response" [("InResponseTo", m.outer)]) :: (m.assertion m.signature ++ [.close "Response"])

def xml : Text := m.response.flatMap spell

def documents : List (List Xml.Event) := [m.response, m.signedInfo, m.assertion m.signature, m.assertion []]

end Message

def read (messages : List Message) (xml : Text) : Reading :=
  match (messages.flatMap Message.documents).find? fun events => events.flatMap spell = xml with
  | some events => ⟨events, none⟩
  | none => ⟨[], some "unexpected document"⟩

def env (messages : List Message) : Env where
  read trimText xml := if trimText then (read messages xml).trimmed else read messages xml
  unescape := some
  parseFromRfc3339 s := if s = "T" then some 100 else none
  parseFromStr _ _ := none
  showDateTime _ := "T"
  decodeBase64 _ := .ok [48]
  verifyRsaSha256 _ _ signature := if signature = "S" then .ok () else .error "RSA signature verification failed"
  sha256DigestB64 form :=
    match messages.find? fun m => canonicalizeEvents Scope.new (m.assertion []) = some form with
    | some m => m.digest.toList
    | none => 'E' :: form

def digits (a b c : Char) : Text :=
  let n := a.toNat * 65536 + b.toNat * 256 + c.toNat
  let alphabet := "ABCDEFGHIJKLMNOPQRSTUVWXYZabcdefghijklmnopqrstuvwxyz0123456789+/".toList
  [n / 262144, n / 4096 % 64, n / 64 % 64, n % 64].map fun d => alphabet.getD d '='

def encodeBase64 : Text → Text
  | a :: b :: c :: rest => digits a b c ++ encodeBase64 rest
  | [a, b] => (digits a b '\x00').take 3 ++ "="
  | [a] => (digits a '\x00' '\x00').take 2 ++ "=="
  | [] => []

def decode (messages : List Message) (response : Text) : Except String Text :=
  match messages.find? fun m => encodeBase64 m.xml = response with
  | some m => .ok m.xml
  | none => .error "SAMLResponse base64 decode failed"

def config : ProviderConfig := { Fixture.config with groupsAttribute := none }

def Message.arrives (m : Message) (now : ℕ) : Event := .callback (.ok Fixture.cert) (encodeBase64 m.xml) now

def login (id : String) (now : ℕ) : Event := .login (.ok Fixture.cert) id.toList now

def final (messages : List Message) (events : List Event) : Provider :=
  run (step (env messages) (decode messages) config) new events

def success : AuthResult := .success "u" "u" [] none

end Exchange

section Runs

variable {env : Env} {decodeSamlResponse : Text → Except String Text} {config : ProviderConfig}

/-- **Binding.** In strict mode and in every run whose responses name their request first in the signed assertion,
every successful callback answers the request that its signed assertion names. -/
theorem success_answers_signed (hstrict : config.strictMode = true) {events : List Event}
    (hrun : Guarded (step env decodeSamlResponse config)
      (Admits decodeSamlResponse (BindsRequest env)) new events)
    {p : Provider} (hp : p = run (step env decodeSamlResponse config) new events)
    {call now : ℕ} {c : Callback} {result : AuthResult} (hcall : p.calls[call]? = some c)
    (houtcome : c.outcome = some (now, result)) (hsuccess : result.isSuccess = true) :
    AnswersSigned env p call c := by
  have hinv : p.Inv env config (BindsRequest env) := hp ▸ inv_run hstrict hrun
  have hmem : c ∈ p.calls := mem_of_getElem? hcall
  obtain ⟨htook, wall, attrs, hparse⟩ := hinv.ended c hmem now result houtcome hsuccess
  obtain ⟨hcertificate, hbinds⟩ := hinv.accepted c hmem htook
  obtain ⟨element, hvalid⟩ := exists_validated hstrict hcertificate hparse
  obtain ⟨id, hid⟩ := ne_none_iff_exists'.mp htook
  obtain ⟨hirt, -, issued, hissued, hle, hlt⟩ := hinv.took c hmem id hid
  refine ⟨element, id, issued, hvalid, ?_, hissued, hle, hlt, ?_⟩
  · rw [← hbinds element (signedElement_of_validated hvalid), hirt]
  · intro earlier c' hearlier hcall' htook'
    have hsame := hinv.once id earlier call c' c hcall' hcall htook' hid
    omega

end Runs

namespace Exchange

def honest : Message := ⟨"_r", "_r", "_a", "_a", "D"⟩

def honestEvents : List Event := [login "_r" 0, honest.arrives (599 * 1000000000), .conclude 0 (601 * 1000000000) 0]

def honestCallback : Callback :=
  ⟨honest.xml, Fixture.cert, some "_r", 599 * 1000000000, some (601 * 1000000000, success)⟩

theorem honest_accepted : Guarded (step (env [honest]) (decode [honest]) config)
        (Admits (decode [honest]) (BindsRequest (env [honest]))) new honestEvents ∧
      (final [honest] honestEvents).calls[0]? = some honestCallback ∧
      (final [honest] honestEvents).issued = [("_r".toList, 0)] := by
  decide +kernel

end Exchange

open Exchange in
theorem success_answers_signed_honest : AnswersSigned (env [honest]) (final [honest] honestEvents) 0 honestCallback :=
  success_answers_signed rfl honest_accepted.1 rfl honest_accepted.2.1 rfl rfl

namespace Exchange

/-- The assertion answers a request that this provider did not issue; the tag around it names another one. -/
def wrapped : Message := ⟨"_r", "_old", "_a", "_a", "D"⟩

def wrappedEvents : List Event := [login "_r" 0, wrapped.arrives 1, .conclude 0 2 0]

def wrappedCallback : Callback := ⟨wrapped.xml, Fixture.cert, some "_r", 1, some (2, success)⟩

theorem wrapped_accepted : Guarded (step (env [wrapped]) (decode [wrapped]) config) Timely new wrappedEvents ∧
      (final [wrapped] wrappedEvents).calls[0]? = some wrappedCallback ∧
      (final [wrapped] wrappedEvents).issued = [("_r".toList, 0)] ∧
      (signedElement (env [wrapped]) wrapped.xml).bind (innerInResponseTo (env [wrapped])) = some "_old".toList := by
  decide +kernel

end Exchange

open Exchange in
/-- The InResponseTo of the Response, which is not signed, is enough. -/
theorem success_answers_unsigned : config.strictMode = true ∧
      Guarded (step (env [wrapped]) (decode [wrapped]) config) Timely new wrappedEvents ∧
      (final [wrapped] wrappedEvents).calls[0]? = some wrappedCallback ∧
      wrappedCallback.outcome = some (2, success) ∧ success.isSuccess = true ∧
      ¬AnswersSigned (env [wrapped]) (final [wrapped] wrappedEvents) 0 wrappedCallback := by
  obtain ⟨hrun, hcall, hissued, hinner⟩ := wrapped_accepted
  refine ⟨rfl, hrun, hcall, rfl, rfl, ?_⟩
  rintro ⟨element, id, issued, hvalid, hid, hmem, -⟩
  have hsigned : signedElement (env [wrapped]) wrapped.xml = some element := signedElement_of_validated hvalid
  rw [hsigned, bind_some, hid] at hinner
  rw [hissued, mem_singleton, Prod.mk.injEq, some.inj hinner] at hmem
  exact absurd hmem.1 (by decide)

section Runs

variable {env : Env} {decodeSamlResponse : Text → Except String Text} {config : ProviderConfig}

/-! ### Assertions are consumed -/

/-- The callback ended with a success at this time; the assertion ID was recorded then, if it is not empty. -/
def Callback.Succeeded (c : Callback) (now : ℕ) : Prop :=
  ∃ result, c.outcome = some (now, result) ∧ result.isSuccess = true

/-- Two successes with one assertion ID are the TTL of the record apart. -/
def Apart (env : Env) (calls : List Callback) : Prop :=
  ∀ (i j : ℕ) (c d : Callback) (t u : ℕ) (assertionId : Text), i ≠ j → calls[i]? = some c → calls[j]? = some d →
    c.Succeeded t → d.Succeeded u → extractAssertionId env c.xml = some assertionId →
    extractAssertionId env d.xml = some assertionId → assertionId ≠ [] → t ≤ u → t + consumedAssertionTtl ≤ u

/-- The record of the consumed assertions: a success is in it for as long as it matters. -/
structure Recorded (env : Env) (p : Provider) : Prop where
  consumed_le : ∀ assertionId since, p.consumed.lookup assertionId = some since → since ≤ p.clock
  recorded : ∀ c ∈ p.calls, ∀ t, c.Succeeded t → ∀ assertionId, extractAssertionId env c.xml = some assertionId →
    assertionId ≠ [] → t + consumedAssertionTtl ≤ p.clock ∨
      ∃ since, t ≤ since ∧ p.consumed.lookup assertionId = some since
  apart : Apart env p.calls

theorem Recorded.new : Recorded env new where
  consumed_le := fun _ _ h => by cases h
  recorded := fun _ h => by cases h
  apart := fun _ _ _ _ _ _ _ _ h => by cases h

variable {p : Provider}

theorem Recorded.tick (h : Recorded env p) {now : ℕ} (hnow : p.clock ≤ now) :
    Recorded env { p with clock := now } where
  consumed_le := fun assertionId since hlookup => (h.consumed_le assertionId since hlookup).trans hnow
  recorded := fun c hc t hsucceeded assertionId hid hne =>
    (h.recorded c hc t hsucceeded assertionId hid hne).imp_left fun hold => hold.trans hnow
  apart := h.apart

theorem Recorded.login (h : Recorded env p) (metadata : Except String Text) (id : Text) (now : ℕ) :
    Recorded env (p.login metadata id now) := by
  cases metadata with
  | error e => exact h
  | ok certificate => exact ⟨h.consumed_le, h.recorded, h.apart⟩

theorem Recorded.receive (hstrict : config.strictMode) (h : Recorded env p)
    (metadata : Except String Text) (response : Text) (now : ℕ) :
    Recorded env (p.receive env decodeSamlResponse config metadata response now) := by
  obtain ⟨pending, c, heq, hreceived⟩ := p.receive_eq env decodeSamlResponse hstrict metadata response now
  have hfailed : ∀ t, ¬c.Succeeded t := by
    rintro t ⟨result, houtcome, hsuccess⟩
    rw [hreceived.failed t result houtcome] at hsuccess
    cases hsuccess
  rw [heq]
  refine ⟨h.consumed_le, ?_, ?_⟩
  · intro c' hc' t hsucceeded
    rcases mem_append.mp hc' with hc' | hc'
    · exact h.recorded c' hc' t hsucceeded
    · rw [mem_singleton.mp hc'] at hsucceeded
      exact absurd hsucceeded (hfailed t)
  · intro i j c' d t u assertionId hij hc' hd ht hu
    rcases getElem?_concat_cases hc' with rfl | hc'
    · exact absurd ht (hfailed t)
    · rcases getElem?_concat_cases hd with rfl | hd
      · exact absurd hu (hfailed u)
      · exact h.apart i j c' d t u assertionId hij hc' hd ht hu

theorem Recorded.earlier (h : Recorded env p) {c : Callback} (hc : c ∈ p.calls) {t : ℕ}
    (hsucceeded : c.Succeeded t) {assertionId : Text}
    (hid : extractAssertionId env c.xml = some assertionId) (hne : assertionId ≠ [])
    (hnone : (prune consumedAssertionTtl p.clock p.consumed).lookup assertionId = none) :
    t + consumedAssertionTtl ≤ p.clock := by
  rcases h.recorded c hc t hsucceeded assertionId hid hne with hold | ⟨since, hle, hlookup⟩
  · exact hold
  · have hstale : ¬p.clock - since < consumedAssertionTtl := by
      intro hfresh
      rw [lookup_prune.mpr ⟨hlookup, hfresh⟩] at hnone
      cases hnone
    have hclock := h.consumed_le assertionId since hlookup
    omega

theorem Recorded.finish (h : Recorded env p) (call : ℕ) (wall : DateTime) :
    Recorded env (p.finish env config call p.clock wall) := by
  rcases p.finish_eq env config call p.clock wall with ⟨heq, -⟩ | ⟨c, concluded, hcall, hrunning, hconcluded, heq⟩
  · rw [heq]
    exact h
  · rw [heq]
    set ended : Callback := { c with outcome := some (p.clock, concluded.1) } with hended
    -- what is known of the callback that ends now, should it succeed
    have hnew : ∀ t, ended.Succeeded t → t = p.clock ∧ ∀ assertionId,
        extractAssertionId env ended.xml = some assertionId → assertionId ≠ [] →
          (prune consumedAssertionTtl p.clock p.consumed).lookup assertionId = none ∧
          concluded.2 = (prune consumedAssertionTtl p.clock p.consumed).insert assertionId p.clock := by
      rintro t ⟨result, houtcome, hsuccess⟩
      rw [hended, some.injEq, Prod.mk.injEq] at houtcome
      rw [← houtcome.2, hconcluded] at hsuccess
      rw [hconcluded]
      exact ⟨houtcome.1.symm, (conclude_success hsuccess).2⟩
    refine ⟨?_, ?_, ?_⟩
    · intro assertionId since hlookup
      change concluded.2.lookup assertionId = some since at hlookup
      rw [hconcluded] at hlookup
      rcases lookup_conclude hlookup with hold | rfl
      · exact h.consumed_le assertionId since hold
      · exact le_rfl
    · intro c' hc' t hsucceeded assertionId hid hne
      rcases mem_or_eq_of_mem_set hc' with hc' | rfl
      · rcases h.recorded c' hc' t hsucceeded assertionId hid hne with hold | ⟨since, hle, hlookup⟩
        · exact .inl hold
        · have hclock := h.consumed_le assertionId since hlookup
          rcases conclude_keeps hlookup hclock with hstale | ⟨since', hsince, hlookup'⟩
          · exact .inl (le_trans (Nat.add_le_add_right hle _) hstale)
          · exact .inr ⟨since', hle.trans hsince, (congrArg (·.2.lookup assertionId) hconcluded).trans hlookup'⟩
      · obtain ⟨rfl, hrecord⟩ := hnew t hsucceeded
        refine .inr ⟨p.clock, le_rfl, ?_⟩
        change concluded.2.lookup assertionId = some p.clock
        rw [(hrecord assertionId hid hne).2, AList.lookup_insert]
    · have httl : 0 < consumedAssertionTtl := by decide
      intro i j c' d t u assertionId hij hc' hd ht hu hidc hidd hne hle
      rcases getElem?_set_cases hc' with ⟨rfl, rfl⟩ | ⟨-, holdc⟩
      · rcases getElem?_set_cases hd with ⟨rfl, -⟩ | ⟨-, holdd⟩
        · exact absurd rfl hij
        · obtain ⟨rfl, hrecord⟩ := hnew t ht
          have hback := h.earlier (mem_of_getElem? holdd) hu hidd hne (hrecord assertionId hidc hne).1
          omega
      · rcases getElem?_set_cases hd with ⟨rfl, rfl⟩ | ⟨-, holdd⟩
        · obtain ⟨rfl, hrecord⟩ := hnew u hu
          exact h.earlier (mem_of_getElem? holdc) ht hidc hne (hrecord assertionId hidd hne).1
        · exact h.apart i j c' d t u assertionId hij holdc holdd ht hu hidc hidd hne hle

theorem Recorded.step (hstrict : config.strictMode) (h : Recorded env p) {event : Event}
    (htimely : Timely p event) : Recorded env (p.step env decodeSamlResponse config event) := by
  have htick := h.tick htimely.1
  cases event with
  | login metadata id now => exact htick.login metadata id now
  | callback metadata response now => exact htick.receive hstrict metadata response now
  | conclude call now wall => exact htick.finish call wall

/-- What single use means for a provider: a request is answered once and in time, an assertion is used once within the
TTL of the record. -/
structure SingleUse (env : Env) (p : Provider) : Prop where
  request_once : ∀ id, Exclusive (fun c : Callback => c.took = some id ∧ ∃ t, c.Succeeded t) p.calls
  request_issued : ∀ c ∈ p.calls, ∀ t, c.Succeeded t → ∃ id issued, c.took = some id ∧ (id, issued) ∈ p.issued
  request_fresh : ∀ c ∈ p.calls, ∀ t, c.Succeeded t → ∀ id issued, c.took = some id → (id, issued) ∈ p.issued →
    c.since < issued + pendingRequestTtl
  assertion_apart : Apart env p.calls

/-- **Single use.** In strict mode and after every run of logins and callbacks, in whatever order their parts come. -/
theorem singleUse_run (hstrict : config.strictMode = true) {events : List Event}
    (hrun : Guarded (step env decodeSamlResponse config) Timely new events) :
    SingleUse env (run (step env decodeSamlResponse config) new events) := by
  have hadmits : Guarded (step env decodeSamlResponse config)
      (Admits decodeSamlResponse fun _ _ => True) new events :=
    hrun.imp _ fun _ _ htimely => ⟨htimely, fun _ _ => trivial⟩
  have hinv := inv_run hstrict hadmits
  have hrecorded : Recorded env (run (step env decodeSamlResponse config) new events) :=
    invariant_run _ (fun _ _ h hevent => h.step hstrict hevent) Recorded.new hrun
  refine ⟨?_, ?_, ?_, hrecorded.apart⟩
  · intro id i j c d hc hd htook htook'
    exact hinv.once id i j c d hc hd htook.1 htook'.1
  · rintro c hc t ⟨result, houtcome, hsuccess⟩
    obtain ⟨htook, -⟩ := hinv.ended c hc t result houtcome hsuccess
    obtain ⟨id, hid⟩ := ne_none_iff_exists'.mp htook
    obtain ⟨-, -, issued, hissued, -⟩ := hinv.took c hc id hid
    exact ⟨id, issued, hid, hissued⟩
  · intro c hc t _ id issued hid hissued
    obtain ⟨-, -, issued', hissued', -, hlt⟩ := hinv.took c hc id hid
    have hsame : issued = issued' := congrArg Prod.snd (hinv.issued_once _ hissued _ hissued' rfl)
    rwa [hsame]

end Runs

open Exchange in
theorem singleUse_honest : SingleUse (env [honest]) (final [honest] honestEvents) :=
  singleUse_run rfl (honest_accepted.1.imp _ fun _ _ h => h.1)

namespace Exchange

/-- Two assertions with an empty ID. -/
def blank (request digest : String) : Message := ⟨request, request, "", "", digest⟩

def blanks : List Message := [blank "_r" "D", blank "_s" "E"]

def blankEvents : List Event :=
  [login "_r" 0, login "_s" 1, (blank "_r" "D").arrives 2, .conclude 0 3 0, (blank "_s" "E").arrives 4,
    .conclude 1 5 0]

theorem blanks_accepted : Guarded (step (env blanks) (decode blanks) config) Timely new blankEvents ∧
      (final blanks blankEvents).calls =
        [⟨(blank "_r" "D").xml, Fixture.cert, some "_r".toList, 2, some (3, success)⟩,
          ⟨(blank "_s" "E").xml, Fixture.cert, some "_s".toList, 4, some (5, success)⟩] ∧
      extractAssertionId (env blanks) (blank "_r" "D").xml = some [] ∧
      extractAssertionId (env blanks) (blank "_s" "E").xml = some [] := by
  decide +kernel

end Exchange

open Exchange in
/-- A success comes after the TTL if the callback took the request before; and an empty assertion ID is not
recorded. -/
theorem not_single_use : Guarded (step (env [honest]) (decode [honest]) config) Timely new honestEvents ∧
      (∃ c ∈ (final [honest] honestEvents).calls, ∃ t id issued, c.Succeeded t ∧ c.took = some id ∧
        (id, issued) ∈ (final [honest] honestEvents).issued ∧ issued + pendingRequestTtl < t) ∧
      Guarded (step (env blanks) (decode blanks) config) Timely new blankEvents ∧
      ∃ c d t u, (final blanks blankEvents).calls = [c, d] ∧ c.Succeeded t ∧ d.Succeeded u ∧
        extractAssertionId (env blanks) c.xml = some [] ∧ extractAssertionId (env blanks) d.xml = some [] ∧
        t ≤ u ∧ u < t + consumedAssertionTtl := by
  obtain ⟨hbound, hcall, hissued⟩ := honest_accepted
  obtain ⟨hblanks, hcalls, hfirst, hsecond⟩ := blanks_accepted
  refine ⟨hbound.imp _ fun _ _ h => h.1, ?_, hblanks, ?_⟩
  · refine ⟨honestCallback, mem_of_getElem? hcall, 601 * 1000000000, "_r", 0, ⟨success, rfl, rfl⟩, rfl, ?_, ?_⟩
    · rw [hissued]
      exact mem_cons_self
    · decide
  · exact ⟨_, _, 3, 5, hcalls, ⟨success, rfl, rfl⟩, ⟨success, rfl, rfl⟩, hfirst, hsecond, by decide, by decide⟩

end Persea.Saml
