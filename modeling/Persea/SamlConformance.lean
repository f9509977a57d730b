import Persea.SamlBinding

/-! Responses as the standards of SAML and XML signatures have them: the signature of an assertion refers to it by
`#` and its ID. The validation compares the reference with the ID as it is, so that none of them is accepted. -/

namespace Persea.Saml

open Base Base.Xml List

structure SignedResponse where
  before : List Xml.Event
  assertion : Tag
  /-- What stands in the assertion before its signature. -/
  head : List Xml.Event
  signature : Tag
  signedInfo : List Xml.Event
  valueTag : Tag
  signatureValue : Text
  (keyInfo body after : List Xml.Event)

namespace SignedResponse

variable (r : SignedResponse)

def signatureEvents : List Xml.Event :=
  .start r.signature :: (r.signedInfo ++ .start r.valueTag :: .text r.signatureValue :: .close r.valueTag.name ::
    (r.keyInfo ++ [.close r.signature.name]))

def events : List Xml.Event :=
  r.before ++ .start r.assertion :: (r.head ++ r.signatureEvents ++ r.body ++ .close r.assertion.name :: r.after)

def element : List Xml.Event := .start r.assertion :: (r.head ++ r.body ++ [.close r.assertion.name])

def signedInfoContext : List Xml.Event := r.before ++ .start r.assertion :: (r.head ++ [.start r.signature])

end SignedResponse

def tags (events : List Xml.Event) : List Tag := events.filterMap Event.tag?

def tagsNamed (name : String) (events : List Xml.Event) : List Tag :=
  (tags events).filter fun tag => localName tag.name = name.toList

def isNcName (t : Text) : Bool :=
  t ≠ [] && t.all fun c => c.isAlphanum || c = '_' || c = '-' || c = '.' || 0x80 ≤ c.toNat

def textOf (env : Env) : List Xml.Event → Option Text
  | [] => some []
  | .text content :: events => do return (← env.unescape content) ++ (← textOf env events)
  | .cData content :: events => do return content ++ (← textOf env events)
  | .generalRef name :: events => do return (← env.unescape ('&' :: (name ++ [';']))) ++ (← textOf env events)
  | .comment _ :: events => textOf env events
  | _ => none

def HasText (env : Env) (events : List Xml.Event) (name : String) (text : Text) : Prop :=
  ∃ tag content, .start tag :: (content ++ [.close tag.name]) <:+: events ∧ localName tag.name = name.toList ∧
    textOf env content = some text

structure WithinBounds (env : Env) (wall : DateTime) (events : List Xml.Event) : Prop where
  notBefore : ∀ tag ∈ tagsNamed "Conditions" events, ∀ value ∈ tag.values "NotBefore",
    ∃ t ∈ parseSamlDatetime env value, t ≤ wall
  notOnOrAfter : ∀ tag ∈ tagsNamed "Conditions" events ++ tagsNamed "SubjectConfirmationData" events,
    ∀ value ∈ tag.values "NotOnOrAfter", ∃ t ∈ parseSamlDatetime env value, wall < t
  bounded : ∃ tag ∈ tagsNamed "Conditions" events, tag.values "NotOnOrAfter" ≠ []

/-- A response to a pending request as a conforming IdP sends it. `c14n` is the exclusive canonical form of the
standard, of what is open around an element and of the element. -/
structure Conforming (env : Env) (c14n : List Xml.Event → List Xml.Event → Text) (config : ProviderConfig)
    (p : Provider) (certificate : Text) (now : ℕ) (wall : DateTime) (xml : Text) (r : SignedResponse)
    (id request nameId : Text) : Prop where
  reads : env.read false xml = ⟨r.events, none⟩
  -- what the validation copies of the SignedInfo has no tags that the document does not have
  copies : ∀ signature, findSignature env xml = .ok signature →
    ∀ tag ∈ tags (env.read true signature.1).events, tag ∈ tags r.events
  assertion_name : localName r.assertion.name = "Assertion"
  assertion_id : r.assertion.values "ID" = [id]
  ids : ∀ tag ∈ tagsNamed "Assertion" r.events, ∀ value ∈ tag.values "ID", isNcName value = true
  signature_name : localName r.signature.name = "Signature"
  value_name : localName r.valueTag.name = "SignatureValue"
  reference : ∃ tag ∈ tagsNamed "Reference" r.signedInfo, tag.values "URI" = ['#' :: id]
  references : ∀ tag ∈ tagsNamed "Reference" r.events, ∀ uri ∈ tag.values "URI", uri.head? = some '#'
  certified : certificate ≠ []
  signed : ∃ der, parseCertificateDer env certificate = .ok der ∧
    env.verifyRsaSha256 der (c14n r.signedInfoContext r.signedInfo) r.signatureValue = .ok ()
  digest : HasText env r.signedInfo "DigestValue" (env.sha256DigestB64 (c14n r.before r.element))
  time : WithinBounds env wall r.element
  audience : HasText env r.element "Audience" config.entityId
  recipient : ∃ tag ∈ tagsNamed "SubjectConfirmationData" r.element, tag.values "Recipient" = [config.acsUrl] ∧
    tag.values "InResponseTo" = [request]
  subject : HasText env r.element "NameID" nameId
  pending : ∃ since, p.pending.lookup request = some since ∧ now - since < pendingRequestTtl

/-! ### What becomes of them -/

def Provider.handleAcsCallback (env : Env) (decodeSamlResponse : Text → Except String Text) (config : ProviderConfig)
    (p : Provider) (metadata : Except String Text) (response : Text) (now later : ℕ) (wall : DateTime) :
    Option AuthResult :=
  let received := p.receive env decodeSamlResponse config metadata response now
  (received.finish env config p.calls.length later wall).calls[p.calls.length]?.bind fun c => c.outcome.map (·.2)

theorem exists_tag_of_firstAttribute {env : Env} {xml : Text} {name : String} {key value : Text}
    (h : firstAttribute env xml [name.toList] key = some value) :
    ∃ tag ∈ tagsNamed name (env.read true xml).events, value ∈ tag.values key := by
  obtain ⟨e, he, hvalue⟩ := exists_of_findSome?_eq_some h
  obtain ⟨tag, htag, hattribute⟩ := Option.bind_eq_some_iff.mp hvalue
  unfold attributeOf at hattribute
  split_ifs at hattribute with hname
  refine ⟨tag, ?_, mem_of_mem_head? hattribute⟩
  rw [tagsNamed, mem_filter, decide_eq_true_eq]
  exact ⟨mem_filterMap.mpr ⟨e, he, htag⟩, mem_singleton.mp hname⟩

theorem tags_trimmed (reading : Reading) : tags reading.trimmed.events = tags reading.events := by
  rw [tags, tags, Reading.trimmed, filterMap_filterMap]
  congr 1
  funext e
  cases e with
  | text content =>
    by_cases hblank : trimBlank content = []
    · simp [Event.trimmed, hblank, Event.tag?]
    · simp [Event.trimmed, hblank, Event.tag?]
  | start | close | empty | cData | comment | decl | pi | docType | generalRef => rfl

theorem not_ncName_of_hash {t : Text} (h : t.head? = some '#') : isNcName t = false := by
  obtain ⟨rest, rfl⟩ := head?_eq_some_iff.mp h
  simp [isNcName]

section Refusal

variable {env : Env} {c14n : List Xml.Event → List Xml.Event → Text} {config : ProviderConfig} {p : Provider}
  {certificate : Text} {now : ℕ} {wall : DateTime} {xml : Text} {r : SignedResponse} {id request nameId : Text}

theorem Conforming.not_validated (htrim : env.read true xml = (env.read false xml).trimmed)
    (h : Conforming env c14n config p certificate now wall xml r id request nameId) {requestId : Option Text}
    {element : Text} : validateResponseSignature env xml certificate requestId ≠ .ok element := by
  intro hvalid
  obtain ⟨v⟩ := validated_of_ok hvalid
  have htags : tags (env.read true xml).events = tags r.events := by rw [htrim, tags_trimmed, h.reads]
  obtain ⟨reference, hreference, huri⟩ := exists_tag_of_firstAttribute v.reference_eq
  obtain ⟨assertion, hassertion, hid⟩ := exists_tag_of_firstAttribute v.assertion_eq
  rw [tagsNamed, mem_filter] at hreference hassertion
  -- both are tags of the document, under the names they were looked for
  have hreferences := h.references reference
    (mem_filter.mpr ⟨h.copies _ v.signature_eq _ hreference.1, hreference.2⟩) _ huri
  have hids := h.ids assertion (mem_filter.mpr ⟨htags ▸ hassertion.1, hassertion.2⟩) _ hid
  rw [not_ncName_of_hash hreferences] at hids
  cases hids

/-- **No conforming response is accepted.** -/
theorem handleAcsCallback_refuses_conforming {decodeSamlResponse : Text → Except String Text}
    (hstrict : config.strictMode = true) (htrim : env.read true xml = (env.read false xml).trimmed) {response : Text}
    (hdecode : decodeSamlResponse response = .ok xml)
    (h : Conforming env c14n config p certificate now wall xml r id request nameId) (later : ℕ) :
    ∃ result, p.handleAcsCallback env decodeSamlResponse config (.ok certificate) response now later wall =
      some result ∧ result.isSuccess = false := by
  obtain ⟨pending, c, hreceive, hreceived⟩ :=
    p.receive_eq env decodeSamlResponse hstrict (.ok certificate) response now
  have hlast : (p.calls ++ [c])[p.calls.length]? = some c := getElem?_concat_length
  unfold Provider.handleAcsCallback
  rw [hreceive]
  dsimp only
  rcases Provider.finish_eq { p with pending := pending, calls := p.calls ++ [c] } env config p.calls.length later
    wall with ⟨heq, hended⟩ | ⟨c', concluded, hcall, hrunning, hconcluded, heq⟩
  · obtain ⟨⟨t, result⟩, houtcome⟩ := Option.ne_none_iff_exists'.mp (hended c hlast)
    rw [heq]
    exact ⟨result, by rw [hlast, Option.bind_some, houtcome]; rfl, hreceived.failed t result houtcome⟩
  · obtain rfl : c = c' := Option.some.inj (hlast.symm.trans hcall)
    rw [heq, getElem?_set_self (by simp)]
    refine ⟨concluded.1, rfl, ?_⟩
    -- the response was decoded and its request was taken, but it is not valid
    obtain ⟨taken, htaken⟩ := Option.ne_none_iff_exists'.mp (hreceived.running hrunning)
    obtain ⟨hmetadata, hdecoded, -⟩ := hreceived.took taken htaken
    obtain rfl : xml = c.xml := Except.ok.inj (hdecode.symm.trans hdecoded)
    obtain rfl : certificate = c.certificate := Except.ok.inj hmetadata
    rw [Bool.eq_false_iff, hconcluded]
    intro hsuccess
    obtain ⟨⟨attrs, hparse⟩, -⟩ := conclude_success hsuccess
    obtain ⟨element, hvalid⟩ := exists_validated hstrict h.certified hparse
    exact h.not_validated htrim hvalid

end Refusal

namespace Exchange

open Fixture (tag)

def conforming : Message := ⟨"_r", "_r", "_a", "#_a", "D"⟩

def conformingParts : SignedResponse where
  before := [.start (tag "Response" [("InResponseTo", "_r")])]
  assertion := tag "Assertion" [("ID", "_a")]
  head := []
  signature := tag "Signature" []
  signedInfo := conforming.signedInfo
  valueTag := tag "SignatureValue" []
  signatureValue := "S"
  keyInfo := []
  body := conforming.subject ++ Message.conditions
  after := [.close "Response"]

/-- Without namespaces what is open around an element makes no difference. -/
def c14n (_ element : List Xml.Event) : Text := (canonicalizeEvents Scope.new element).getD []

def waiting : Provider := final [conforming] [login "_r" 0]

theorem conforming_checked : (env [conforming]).read false conforming.xml = ⟨conformingParts.events, none⟩ ∧
      (∀ signature ∈ (findSignature (env [conforming]) conforming.xml).toOption,
        ∀ tag ∈ tags ((env [conforming]).read true signature.1).events, tag ∈ tags conformingParts.events) ∧
      (env [conforming]).sha256DigestB64 (c14n conformingParts.before conformingParts.element) = "D" ∧
      waiting.handleAcsCallback (env [conforming]) (decode [conforming]) config (.ok Fixture.cert)
        (encodeBase64 conforming.xml) 1 2 0 = some (.failure ("SAML response validation failed: " ++
          "Signature Reference URI '#_a' does not match Assertion ID '_a'")) := by
  decide +kernel

theorem read_trimmed (messages : List Message) (xml : Text) :
    (env messages).read true xml = ((env messages).read false xml).trimmed := rfl

theorem conforming_decoded : decode [conforming] (encodeBase64 conforming.xml) = .ok conforming.xml := by
  simp [decode]

theorem conforming_holds :
    Conforming (env [conforming]) c14n config waiting Fixture.cert 1 0 conforming.xml conformingParts "_a"
      "_r" "u" where
  reads := conforming_checked.1
  copies := by
    intro signature hsignature
    apply conforming_checked.2.1 signature
    rw [hsignature]
    rfl
  assertion_name := by decide +kernel
  assertion_id := by decide +kernel
  ids := by decide +kernel
  signature_name := by decide +kernel
  value_name := by decide +kernel
  reference := by decide +kernel
  references := by decide +kernel
  certified := by decide +kernel
  signed := ⟨[48], by decide +kernel, by decide +kernel⟩
  digest := by
    rw [conforming_checked.2.2.1]
    exact ⟨tag "DigestValue" [], [.text "D"], by decide +kernel, by decide +kernel, by decide +kernel⟩
  time := ⟨by decide +kernel, by decide +kernel, by decide +kernel⟩
  audience := ⟨tag "Audience" [], [.text "sp"], by decide +kernel, by decide +kernel, by decide +kernel⟩
  recipient := by decide +kernel
  subject := ⟨tag "NameID" [], [.text "u"], by decide +kernel, by decide +kernel, by decide +kernel⟩
  pending := ⟨0, by decide +kernel, by decide +kernel⟩

end Exchange

open Exchange in
theorem conforming_example_refused :
    ∃ result, waiting.handleAcsCallback (env [conforming]) (decode [conforming]) config (.ok Fixture.cert)
      (encodeBase64 conforming.xml) 1 2 0 = some result ∧ result.isSuccess = false :=
  handleAcsCallback_refuses_conforming rfl (read_trimmed _ _) conforming_decoded conforming_holds 2

open Exchange in
/-- What a conforming response is refused with. -/
theorem conforming_not_accepted : config.strictMode = true ∧
      Conforming (env [conforming]) c14n config waiting Fixture.cert 1 0 conforming.xml conformingParts "_a"
        "_r" "u" ∧
      decode [conforming] (encodeBase64 conforming.xml) = .ok conforming.xml ∧
      waiting.handleAcsCallback (env [conforming]) (decode [conforming]) config (.ok Fixture.cert)
        (encodeBase64 conforming.xml) 1 2 0 = some (.failure ("SAML response validation failed: " ++
          "Signature Reference URI '#_a' does not match Assertion ID '_a'")) :=
  ⟨rfl, conforming_holds, conforming_decoded, conforming_checked.2.2.2⟩

end Persea.Saml
