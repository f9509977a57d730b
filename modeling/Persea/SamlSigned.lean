import Persea.SamlResponse

/-! What is read from the verified element and what has been signed. The digest is taken of the canonical form, the
walks read the element itself; they agree as far as it is written as the canonical form is. -/

namespace Persea.Saml

open Base Base.Xml List Bool Except

/-- The attributes that are read of an element. -/
def readKeys (element : Text) : List Text :=
  if element = "Attribute" then ["Name"]
  else if element = "Conditions" then ["NotBefore", "NotOnOrAfter"]
  else if element = subjectConfirmationData then ["NotOnOrAfter", "Recipient"]
  else []

/-- The elements whose end changes how a text is taken. An AttributeValue is the fifth. -/
def endMatters : List Text := ["NameID", "SessionIndex", "Audience", "AudienceRestriction"]

/-- Of the tags of AttributeValue that are not self-closing, the next one is not an end. -/
def nextOpens : List Event → Bool
  | [] => true
  | .start tag :: events => localName tag.name = "AttributeValue" || nextOpens events
  | .close name :: events => localName name ≠ "AttributeValue" && nextOpens events
  | _ :: events => nextOpens events

/-- No self-closing tag stands where the end of its element matters. -/
def selfClosingApart : List Event → Bool
  | [] => true
  | .empty tag :: events =>
    localName tag.name ∉ endMatters && (localName tag.name ≠ "AttributeValue" || nextOpens events) &&
      selfClosingApart events
  | _ :: events => selfClosingApart events

/-- The element is read as it is signed. -/
structure ReadAsSigned (env : Env) (element : Text) : Prop where
  /-- It is read to its end. -/
  complete : (env.read false element).error = none
  /-- The names can be told from what follows them. -/
  plain : ∀ e ∈ (env.read false element).events, e.Plain
  /-- The values that are read are the normalized ones. -/
  normal : ∀ e ∈ (env.read false element).events, ∀ tag ∈ e.tag?, ∀ key ∈ readKeys (localName tag.name),
    ∀ v ∈ tag.values key, normalizeAttrWhitespace v = v
  apart : selfClosingApart (env.read false element).events = true
  /-- No text of a NameID, SessionIndex, AttributeValue or Audience is in pieces or in a CDATA section. -/
  assertion : (assertionWalk env).whole .new false ((env.read false element).events.flatMap Event.expanded) = true
  audiences : (audienceWalk env).whole .new false ((env.read false element).events.flatMap Event.expanded) = true

instance (env : Env) : DecidablePred (ReadAsSigned env) := fun element =>
  decidable_of_iff ((env.read false element).error = none ∧ (∀ e ∈ (env.read false element).events, e.Plain) ∧
      (∀ e ∈ (env.read false element).events, ∀ tag ∈ e.tag?, ∀ key ∈ readKeys (localName tag.name),
        ∀ v ∈ tag.values key, normalizeAttrWhitespace v = v) ∧
      selfClosingApart (env.read false element).events = true ∧
      (assertionWalk env).whole .new false ((env.read false element).events.flatMap Event.expanded) = true ∧
      (audienceWalk env).whole .new false ((env.read false element).events.flatMap Event.expanded) = true)
    ⟨fun ⟨h₁, h₂, h₃, h₄, h₅, h₆⟩ => ⟨h₁, h₂, h₃, h₄, h₅, h₆⟩, fun ⟨h₁, h₂, h₃, h₄, h₅, h₆⟩ => ⟨h₁, h₂, h₃, h₄, h₅, h₆⟩⟩

/-! ### Self-closing tags -/

section

variable {env : Env} {e : Event} {events : List Event} {tag tag' : Tag} {d c : AssertionState} {name : Text}

theorem selfClosingApart_tail (h : selfClosingApart (e :: events)) : selfClosingApart events := by
  cases e with
  | empty tag =>
    rw [selfClosingApart, and_eq_true] at h
    exact h.2
  | start | close | text | cData | comment | decl | pi | docType | generalRef => exact h

theorem notMem_endMatters (h : selfClosingApart events)
    (hmem : .empty tag ∈ events) : localName tag.name ∉ endMatters := by
  induction events with
  | nil => cases hmem
  | cons e events ih =>
    rcases mem_cons.mp hmem with rfl | hmem
    · rw [selfClosingApart, and_eq_true, and_eq_true, decide_eq_true_eq] at h
      exact h.1.1
    · exact ih (selfClosingApart_tail h) hmem

/-- After a self-closing AttributeValue the walk still takes itself to be inside, where it is not. -/
def Stale (d c : AssertionState) : Prop :=
  c.inAttributeValue = false ∧ ∃ text, d = { c with inAttributeValue := true, currentText := text }

theorem Stale.result_eq (h : Stale d c) : d.result = c.result := by
  obtain ⟨-, text, rfl⟩ := h
  rfl

theorem Stale.onTag (h : Stale d c) (tag : Tag) :
    d.onTag tag = c.onTag tag ∨ localName tag.name ≠ "AttributeValue" ∧ Stale (d.onTag tag) (c.onTag tag) := by
  obtain ⟨hin, text, rfl⟩ := h
  unfold AssertionState.onTag
  split_ifs with hname hattribute hvalue hsession
  · exact .inr ⟨by rw [hname]; decide, hin, [], rfl⟩
  · exact .inr ⟨by rw [hattribute]; decide, hin, text, rfl⟩
  · exact .inl rfl
  · exact .inr ⟨hvalue, hin, [], rfl⟩
  · exact .inr ⟨hvalue, hin, text, rfl⟩

theorem Stale.onClose (h : Stale d c)
    (hname : localName name ≠ "AttributeValue") : Stale (d.onClose name) (c.onClose name) := by
  obtain ⟨hin, text, rfl⟩ := h
  unfold AssertionState.onClose
  rw [if_neg hname, if_neg hname]
  split_ifs
  · exact ⟨hin, text, rfl⟩
  · exact ⟨hin, text, rfl⟩
  · exact ⟨hin, text, rfl⟩

theorem Stale.onText (h : Stale d c) (content : Text) : Stale (d.onText env content) (c.onText env content) := by
  obtain ⟨hin, text, rfl⟩ := h
  unfold AssertionState.onText
  cases env.unescape content with
  | none => exact ⟨hin, text, rfl⟩
  | some t =>
    dsimp only
    split_ifs <;> exact ⟨hin, _, rfl⟩

theorem Stale.read (h : Stale d c) (content : Text) :
    Stale ((assertionWalk env).read d content) ((assertionWalk env).read c content) := by
  rw [Walk.read, Walk.read]
  split
  · exact h
  · exact h.onText _

theorem onTag_attributeValue (htag : localName tag.name = "AttributeValue") (s : AssertionState) :
    s.onTag tag = { s with inAttributeValue := true, currentText := [] } := by
  simp only [AssertionState.onTag, htag]
  rfl

theorem onClose_onTag_attributeValue (htag : localName tag.name = "AttributeValue")
    (c : AssertionState) :
    (c.onTag tag).onClose tag.name = { c with inAttributeValue := false, currentText := [] } := by
  rw [onTag_attributeValue htag, AssertionState.onClose, htag, if_neg (by decide), if_pos rfl]
  split_ifs
  · rfl
  · rfl

theorem onClose_of_notMem (hname : localName name ∉ endMatters)
    (hvalue : localName name ≠ "AttributeValue") (s : AssertionState) : s.onClose name = s := by
  have hid : localName name ≠ "NameID" := fun h => hname (h ▸ by decide)
  have hindex : localName name ≠ "SessionIndex" := fun h => hname (h ▸ by decide)
  rw [AssertionState.onClose, if_neg hid, if_neg hvalue, if_neg hindex]

/-- What is left of the walk finds the same, whether the two states agree or the walk is stale. -/
def Tracks (events : List Event) (d c : AssertionState) : Prop := d = c ∨ Stale d c ∧ nextOpens events = true

theorem Tracks.onTag (h : Tracks (.start tag :: events) d c) : Tracks events (d.onTag tag) (c.onTag tag) := by
  rcases h with rfl | ⟨hstale, hnext⟩
  · exact .inl rfl
  · rcases hstale.onTag tag with heq | ⟨hname, hstale⟩
    · exact .inl heq
    · rw [nextOpens, decide_eq_false hname, Bool.false_or] at hnext
      exact .inr ⟨hstale, hnext⟩

theorem Tracks.onEmpty
    (h : Tracks (.empty tag :: events) d c) (hapart : selfClosingApart (.empty tag :: events)) :
    Tracks events (d.onTag tag) ((c.onTag tag).onClose tag.name) := by
  rw [selfClosingApart, and_eq_true, and_eq_true, decide_eq_true_eq] at hapart
  by_cases htag : localName tag.name = "AttributeValue"
  · have hnext : nextOpens events := by simpa [htag] using hapart.1.2
    rw [onClose_onTag_attributeValue htag, onTag_attributeValue htag]
    refine .inr ⟨⟨rfl, [], ?_⟩, hnext⟩
    rcases h with rfl | ⟨⟨-, text, rfl⟩, -⟩
    · rfl
    · rfl
  · rw [onClose_of_notMem hapart.1.1 htag]
    rcases h with rfl | ⟨hstale, hnext⟩
    · exact .inl rfl
    · exact (hstale.onTag tag).imp_right fun h => ⟨h.2, hnext⟩

theorem Tracks.onClose
    (h : Tracks (.close name :: events) d c) : Tracks events (d.onClose name) (c.onClose name) := by
  rcases h with rfl | ⟨hstale, hnext⟩
  · exact .inl rfl
  · rw [nextOpens, and_eq_true, decide_eq_true_eq] at hnext
    exact .inr ⟨hstale.onClose hnext.1, hnext.2⟩

theorem result_expanded (env : Env) (h : Tracks events d c)
    (hapart : selfClosingApart events) :
    (events.foldl (assertionWalk env).stepTrimmed d).result =
      ((events.flatMap Event.expanded).foldl (assertionWalk env).stepTrimmed c).result := by
  induction events generalizing d c with
  | nil => exact h.elim (fun heq => by rw [heq]; rfl) fun hstale => hstale.1.result_eq
  | cons e events ih =>
    have hrest := selfClosingApart_tail hapart
    rw [foldl_cons, flatMap_cons, foldl_append]
    cases e with
    | start tag => exact ih h.onTag hrest
    | empty tag => exact ih (h.onEmpty hapart) hrest
    | close name => exact ih h.onClose hrest
    | text content =>
      apply ih _ hrest
      rcases h with rfl | ⟨hstale, hnext⟩
      · exact .inl rfl
      · exact .inr ⟨hstale.read content, hnext⟩
    | cData | comment | decl | pi | docType | generalRef => exact ih h hrest

def ReadAlike (tag tag' : Tag) : Prop :=
  tag'.name = tag.name ∧ ∀ key ∈ readKeys (localName tag.name), tag'.values key = tag.values key

theorem isNs_readKeys (element : Text) : ∀ key ∈ readKeys element, isNs key = false := by
  unfold readKeys
  split_ifs <;> decide

theorem readAlike_of_keeps (h : Keeps tag tag')
    (hnormal : ∀ key ∈ readKeys (localName tag.name), ∀ v ∈ tag.values key, normalizeAttrWhitespace v = v) :
    ReadAlike tag tag' := by
  refine ⟨h.1, ?_⟩
  intro key hkey
  rw [h.2 key (isNs_readKeys _ key hkey)]
  exact (map_congr_left (hnormal key hkey)).trans (map_id _)

theorem ReadAlike.assertion (h : ReadAlike tag tag') (s : AssertionState) : s.onTag tag = s.onTag tag' := by
  unfold AssertionState.onTag
  rw [h.1]
  split_ifs with hname hattribute hvalue hindex
  · rfl
  · rw [h.2]
    rw [hattribute]
    decide
  · rfl
  · rfl
  · rfl

theorem ReadAlike.audience (h : ReadAlike tag tag') (s : AudienceState) : s.onTag tag = s.onTag tag' := by
  unfold AudienceState.onTag
  rw [h.1]

theorem ReadAlike.time (env : Env) (h : ReadAlike tag tag') (b : TimeBounds) : b.onTag env tag = b.onTag env tag' := by
  unfold TimeBounds.onTag bound
  rw [h.1]
  split_ifs with hconditions hsubject
  · rw [h.2 "NotBefore" (by rw [hconditions]; decide), h.2 "NotOnOrAfter" (by rw [hconditions]; decide)]
  · rw [h.2 "NotOnOrAfter" (by rw [hsubject]; decide)]
  · rfl

/-- The first attribute as a walk that changes nothing any more once it has found it. -/
def firstWalk (elements : List Text) (key : Text) : Walk (Option Text) where
  onTag found tag := found.or (attributeOf elements key tag)
  onClose found _ := found
  onText found _ := found
  heeds _ := false
  heeds_onText _ _ := rfl
  onText_of_not_heeds _ _ _ := rfl

theorem firstWalk_run (elements : List Text) (key : Text) (found : Option Text) (events : List Event) :
    (firstWalk elements key).run found events =
      found.or (events.findSome? fun e => e.tag?.bind (attributeOf elements key)) := by
  induction events generalizing found with
  | nil => exact (Option.or_none).symm
  | cons e events ih =>
    have hstep : (firstWalk elements key).step found e = found.or (e.tag?.bind (attributeOf elements key)) := by
      cases e with
      | start | empty => rfl
      | close | text | cData | comment | decl | pi | docType | generalRef => exact (Option.or_none).symm
    have hrun : (firstWalk elements key).run found (e :: events) =
        (firstWalk elements key).run ((firstWalk elements key).step found e) events := rfl
    rw [hrun, ih, hstep, Option.or_assoc, findSome?_cons]
    cases e.tag?.bind (attributeOf elements key) with
    | none => rfl
    | some value => rfl

theorem ReadAlike.recipient (h : ReadAlike tag tag') : attributeOf [subjectConfirmationData] "Recipient" tag =
      attributeOf [subjectConfirmationData] "Recipient" tag' := by
  unfold attributeOf
  rw [h.1]
  split_ifs with hsubject
  · rw [h.2]
    rw [mem_singleton.mp hsubject]
    decide
  · rfl

section Tokens

variable {env : Env} {element : Text} {tokens : List Token}
  (htrim : ∀ xml, env.read true xml = (env.read false xml).trimmed) (hread : ReadAsSigned env element)
  (hspells : Spells Keeps ((env.read false element).events.flatMap Event.expanded) tokens)

include hread hspells

theorem ReadAsSigned.spells : Spells ReadAlike ((env.read false element).events.flatMap Event.expanded) tokens := by
  apply hspells.imp
  intro tag tag' hmem hkeeps
  obtain ⟨e, he, htag⟩ := tag?_of_start_mem_expanded hmem
  exact readAlike_of_keeps hkeeps (hread.normal e he tag htag)

include htrim

theorem ReadAsSigned.parseAssertionXml_eq :
    parseAssertionXml env element = ((assertionWalk env).readTokens .new [] tokens).result := by
  have hcomplete : (env.read true element).error = none := by
    rw [htrim]
    exact hread.complete
  rw [parseAssertionXml, hcomplete, htrim]
  show ((assertionWalk env).run .new ((env.read false element).events.filterMap Event.trimmed)).result = _
  rw [Walk.run_trimmed, result_expanded env (.inl rfl) hread.apart]
  have htags := (hread.spells hspells).imp fun tag tag' _ h => h.assertion
  have hrun := (assertionWalk env).foldl_eq_readTokens htags .new [] false (fun _ _ => rfl) hread.assertion
  rw [Walk.read_nil] at hrun
  rw [hrun]

theorem ReadAsSigned.extractAudiences_eq :
    extractAudiences env element = ((audienceWalk env).readTokens .new [] tokens).audiences := by
  rw [extractAudiences, htrim]
  have htags := (hread.spells hspells).imp fun tag tag' _ h => h.audience
  have hrun := (audienceWalk env).run_eq_readTokens htags ?_ .new hread.audiences
  · exact congrArg AudienceState.audiences hrun
  · intro tag htag s
    have hname := notMem_endMatters hread.apart htag
    have haudience : localName tag.name ≠ "Audience" := fun h => hname (h ▸ by decide)
    have hrestriction : localName tag.name ≠ "AudienceRestriction" := fun h => hname (h ▸ by decide)
    show AudienceState.onClose _ _ = _
    rw [AudienceState.onClose, if_neg haudience, if_neg hrestriction]

theorem ReadAsSigned.timeBounds_eq :
    timeBounds env element = (timeWalk env).readTokens ⟨none, none, none⟩ [] tokens := by
  rw [timeBounds, htrim]
  have htags := (hread.spells hspells).imp fun tag tag' _ h => h.time env
  exact (timeWalk env).run_eq_readTokens htags (fun _ _ _ => rfl) _ ((timeWalk env).whole_of_deaf (fun _ => rfl) _ _ _)

theorem ReadAsSigned.extractRecipient_eq : extractRecipient env element =
      (firstWalk [subjectConfirmationData] "Recipient").readTokens none [] tokens := by
  have hfirst := firstWalk_run [subjectConfirmationData] "Recipient" none (env.read true element).events
  rw [extractRecipient, firstAttribute, ← Option.none_or (o := findSome? _ _), ← hfirst, htrim]
  have htags := (hread.spells hspells).imp fun tag tag' _ h (found : Option Text) =>
    congrArg found.or h.recipient
  exact Walk.run_eq_readTokens _ htags (fun _ _ _ => rfl) _ (Walk.whole_of_deaf _ (fun _ => rfl) _ _ _)

end Tokens

theorem mapError_eq_ok {ε ε' α : Type} {x : Except ε α} {f : ε → ε'} {a : α} : x.mapError f = .ok a ↔ x = .ok a := by
  cases x with
  | error e | ok b => simp [Except.mapError]

theorem orRefuse_eq_ok {α : Type} {message : String} {x : Option α} {a : α} :
    orRefuse message x = .ok a ↔ x = some a := by
  cases x with
  | none | some b => simp [orRefuse]

theorem refuseUnless_eq_ok {p : Prop} [Decidable p] {message : String} : refuseUnless p message = .ok () ↔ p := by
  unfold refuseUnless
  split_ifs with hp
  · simp [hp]
  · simp [hp]

theorem canonicalize_eq_ok {xml form : Text} :
    canonicalize env xml = .ok form ↔ exclusiveCanonicalize env.read xml = some form := by
  unfold canonicalize
  cases exclusiveCanonicalize env.read xml with
  | none => simp
  | some f => simp

/-- The response has a SignedInfo whose signature verifies and that carries the digest of this canonical form. -/
def CarriesDigest (env : Env) (xml idpCertPem form : Text) : Prop :=
  ∃ signedInfo signatureValue certDer signed digest, findSignature env xml = .ok (signedInfo, signatureValue) ∧
    parseCertificateDer env idpCertPem = .ok certDer ∧ exclusiveCanonicalize env.read signedInfo = some signed ∧
    env.verifyRsaSha256 certDer signed (Text.trim signatureValue) = .ok () ∧
    extractReferenceDigestValue env signedInfo = some digest ∧
    Text.trim (env.sha256DigestB64 form) = Text.trim digest

/-- A response that is validated: all of its parts are found, and each of them passes its check. -/
structure Validated (env : Env) (xml idpCertPem element : Text) where
  (signedInfo signatureValue assertionId : Text)
  certDer : List UInt8
  (signed digest found form : Text)
  signature_eq : findSignature env xml = .ok (signedInfo, signatureValue)
  reference_eq : extractReferenceUri env signedInfo = some assertionId
  assertion_eq : extractAssertionId env xml = some assertionId
  certificate_eq : parseCertificateDer env idpCertPem = .ok certDer
  signed_eq : exclusiveCanonicalize env.read signedInfo = some signed
  verified : env.verifyRsaSha256 certDer signed (Text.trim signatureValue) = .ok ()
  digest_eq : extractReferenceDigestValue env signedInfo = some digest
  found_eq : extractElementById env xml assertionId = some found
  element_eq : removeSignatureElement env found = element
  form_eq : exclusiveCanonicalize env.read element = some form
  equal : Text.trim (env.sha256DigestB64 form) = Text.trim digest

theorem validated_of_ok {xml idpCertPem element : Text} {requestId : Option Text}
    (h : validateResponseSignature env xml idpCertPem requestId = .ok element) :
    Nonempty (Validated env xml idpCertPem element) := by
  unfold validateResponseSignature at h
  obtain ⟨⟨signedInfo, signatureValue⟩, hsignature, h⟩ := bind_eq_ok_iff.mp h
  obtain ⟨referenceUri, hreference, h⟩ := bind_eq_ok_iff.mp h
  obtain ⟨assertionId, hassertion, h⟩ := bind_eq_ok_iff.mp h
  obtain ⟨_, hsame, h⟩ := bind_eq_ok_iff.mp h
  obtain ⟨certDer, hcert, h⟩ := bind_eq_ok_iff.mp h
  obtain ⟨signed, hsigned, h⟩ := bind_eq_ok_iff.mp h
  obtain ⟨_, hverified, h⟩ := bind_eq_ok_iff.mp h
  obtain ⟨digest, hdigest, h⟩ := bind_eq_ok_iff.mp h
  obtain ⟨found, hfound, h⟩ := bind_eq_ok_iff.mp h
  obtain ⟨form, hform, h⟩ := bind_eq_ok_iff.mp h
  obtain ⟨_, hequal, h⟩ := bind_eq_ok_iff.mp h
  obtain ⟨-, -, h⟩ := bind_eq_ok_iff.mp h
  obtain rfl : removeSignatureElement env found = element := Except.ok.inj h
  obtain rfl : referenceUri = assertionId := refuseUnless_eq_ok.mp hsame
  exact ⟨⟨signedInfo, signatureValue, referenceUri, certDer, signed, digest, found, form, hsignature,
    orRefuse_eq_ok.mp hreference, orRefuse_eq_ok.mp hassertion, mapError_eq_ok.mp hcert, canonicalize_eq_ok.mp hsigned,
    mapError_eq_ok.mp hverified, orRefuse_eq_ok.mp hdigest, orRefuse_eq_ok.mp hfound, rfl,
    canonicalize_eq_ok.mp hform, refuseUnless_eq_ok.mp hequal⟩⟩

theorem exists_form_of_validated {xml idpCertPem element : Text} {requestId : Option Text}
    (h : validateResponseSignature env xml idpCertPem requestId = .ok element) :
    ∃ form, exclusiveCanonicalize env.read element = some form ∧ CarriesDigest env xml idpCertPem form := by
  obtain ⟨v⟩ := validated_of_ok h
  exact ⟨v.form, v.form_eq, v.signedInfo, v.signatureValue, v.certDer, v.signed, v.digest, v.signature_eq,
    v.certificate_eq, v.signed_eq, v.verified, v.digest_eq, v.equal⟩

def readElement (env : Env) (config : SamlConfig) (now : DateTime) (element : Text) :
    Except Failure SamlAttributes := do
  let attrs ← (parseAssertionXml env element).mapError .refused
  (validateAudience env element config.entityId).mapError .refused
  (validateRecipient env element config.acsUrl).mapError .refused
  (validateTimeConditions env now element).mapError .refused
  return attrs

theorem parseSamlResponse_of_validated {config : SamlConfig} {xml idpCertPem element : Text}
    {requestId : Option Text} (hstrict : config.strictMode) (hcert : idpCertPem ≠ [])
    (h : validateResponseSignature env xml idpCertPem requestId = .ok element) (now : DateTime) :
    parseSamlResponse env config now xml idpCertPem requestId = readElement env config now element := by
  have hchecked : (config.strictMode && decide (idpCertPem ≠ [])) := by simp [hstrict, hcert]
  rw [parseSamlResponse, hchecked, hstrict]
  simp only [if_true, h]
  rfl

theorem readElement_eq {element element' form : Text}
    (htrim : ∀ xml, env.read true xml = (env.read false xml).trimmed) (hread : ReadAsSigned env element)
    (hread' : ReadAsSigned env element') (hform : exclusiveCanonicalize env.read element = some form)
    (hform' : exclusiveCanonicalize env.read element' = some form) :
    (∀ config now, readElement env config now element = readElement env config now element') ∧
      extractAudiences env element = extractAudiences env element' ∧ timeBounds env element = timeBounds env element' := by
  obtain ⟨tokens, hspells, hspells'⟩ := exists_tokens_of_canonical_eq hread.plain hread'.plain hform hform'
  have hattrs : parseAssertionXml env element = parseAssertionXml env element' := by
    rw [hread.parseAssertionXml_eq htrim hspells, hread'.parseAssertionXml_eq htrim hspells']
  have haudiences : extractAudiences env element = extractAudiences env element' := by
    rw [hread.extractAudiences_eq htrim hspells, hread'.extractAudiences_eq htrim hspells']
  have hrecipient : extractRecipient env element = extractRecipient env element' := by
    rw [hread.extractRecipient_eq htrim hspells, hread'.extractRecipient_eq htrim hspells']
  have hbounds : timeBounds env element = timeBounds env element' := by
    rw [hread.timeBounds_eq htrim hspells, hread'.timeBounds_eq htrim hspells']
  refine ⟨?_, haudiences, hbounds⟩
  intro config now
  have htime : validateTimeConditions env now element = validateTimeConditions env now element' := by
    have hcomplete : (env.read true element).error = none := (congrArg Reading.error (htrim element)).trans hread.complete
    have hcomplete' : (env.read true element').error = none :=
      (congrArg Reading.error (htrim element')).trans hread'.complete
    rw [validateTimeConditions, validateTimeConditions, hcomplete, hcomplete', hbounds]
  unfold readElement validateAudience validateRecipient
  rw [hattrs, haudiences, hrecipient, htime]

end

namespace Fixture

def tag (name : String) (attributes : List (String × String)) : Tag :=
  ⟨name.toList, attributes.map fun a => (a.1.toList, a.2.toList)⟩

def element (name : String) (content : List Event) : List Event :=
  .start (tag name []) :: (content ++ [.close name.toList])

def signedInfo : List Event :=
  element "SignedInfo" (.start (tag "Reference" [("URI", "_a")]) ::
    (element "DigestValue" [.text "D"] ++ [.close "Reference"]))

def signature : List Event := element "Signature" (signedInfo ++ element "SignatureValue" [.text "S"])

def assertion (signature nameId advice : List Event) : List Event :=
  .start (tag "Assertion" [("ID", "_a")]) :: (signature ++ element "NameID" nameId ++ advice ++
    .start (tag "Conditions" [("NotOnOrAfter", "T")]) :: (element "AudienceRestriction"
      (element "Audience" [.text "sp"]) ++ [.close "Conditions", .close "Assertion"]))

def response (nameId advice : List Event) : List Event :=
  .start (tag "Response" [("InResponseTo", "_r")]) :: (assertion signature nameId advice ++ [.close "Response"])

def plainName : List Event := [.text "ab"]

def cutName : List Event := [.text "a", .cData "b"]

def shortAdvice : List Event := [.empty (tag "Advice" [])]

def longAdvice : List Event := element "Advice" []

def spell : Event → Text
  | .start t => rawTag t ">"
  | .empty t => rawTag t "/>"
  | .close name => writeClose name
  | .text content => content
  | .cData content => rawCData content
  | .comment _ | .decl _ | .pi _ | .docType _ | .generalRef _ => []

def documents (nameId advice : List Event) : List (List Event) :=
  [response nameId advice, assertion signature nameId advice, assertion [] nameId advice]

def known : List (List Event) :=
  signedInfo :: (documents plainName shortAdvice ++ documents plainName longAdvice ++ documents cutName shortAdvice)

def read (xml : Text) : Reading :=
  match known.find? fun events => events.flatMap spell = xml with
  | some events => ⟨events, none⟩
  | none => ⟨[], some "unexpected document"⟩

def signedForm : Text := (canonicalizeEvents Scope.new (assertion [] plainName shortAdvice)).getD []

def env : Env where
  read trimText xml := if trimText then (read xml).trimmed else read xml
  unescape := some
  parseFromRfc3339 s := if s = "T" then some 100 else none
  parseFromStr _ _ := none
  showDateTime _ := "T"
  decodeBase64 _ := .ok [48]
  verifyRsaSha256 _ _ signature := if signature = "S" then .ok () else .error "RSA signature verification failed"
  sha256DigestB64 form := if form = signedForm then "D" else 'E' :: form

def config : SamlConfig := ⟨"sp", "acs", true⟩

def cert : Text := "MA=="

def requestId : Option Text := some "_r"

def xml (nameId advice : List Event) : Text := (response nameId advice).flatMap spell

def verified (nameId advice : List Event) : Text := (assertion [] nameId advice).flatMap spell

theorem read_trimmed (xml : Text) : env.read true xml = (env.read false xml).trimmed := rfl

theorem sha256_injective : Function.Injective env.sha256DigestB64 := by
  intro form form' h
  by_cases hform : form = signedForm
  · by_cases hform' : form' = signedForm
    · rw [hform, hform']
    · simp [env, hform, hform'] at h
  · by_cases hform' : form' = signedForm
    · simp [env, hform, hform'] at h
    · simpa [env, hform, hform'] using h

theorem validated_plain_short : validateResponseSignature env (xml plainName shortAdvice) cert requestId =
      .ok (verified plainName shortAdvice) := by
  decide +kernel

end Fixture

open Fixture in
-- A self-closing NameID takes the text that comes after it.
example : canonicalizeEvents Scope.new [.empty (tag "NameID" []), .text ['x']] =
      canonicalizeEvents Scope.new [.start (tag "NameID" []), .close "NameID", .text ['x']] ∧
    ((assertionWalk env).run .new [.empty (tag "NameID" []), .text ['x']]).nameId = some ['x'] ∧
    ((assertionWalk env).run .new [.start (tag "NameID" []), .close "NameID", .text ['x']]).nameId = none := by
  decide +kernel

open Fixture in
-- A tab and a space in the name of an attribute are two names with one canonical form.
example : canonicalizeEvents Scope.new [.start (tag "Attribute" [("Name", "a\tb")])] =
      canonicalizeEvents Scope.new [.start (tag "Attribute" [("Name", "a b")])] ∧
    ((assertionWalk env).run .new [.start (tag "Attribute" [("Name", "a\tb")])]).currentAttrName ≠
      ((assertionWalk env).run .new [.start (tag "Attribute" [("Name", "a b")])]).currentAttrName := by
  decide +kernel

end Persea.Saml
