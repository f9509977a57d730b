import Persea.BaseExcept
import Persea.SamlCanonical

/-! The SAML response of `auth_providers/saml.rs` with the walks of `xml_util.rs`: how the signed element is found and
verified, and what is read from it. The XML parser, the cryptography and the parsing of dates are parameters. -/

namespace Persea.Saml

open Base Base.Xml

abbrev DateTime := Int

structure Env where
  /-- `quick_xml::Reader`, by whether it trims texts. -/
  read : Bool → Text → Reading
  /-- `quick_xml::escape::unescape`. -/
  unescape : Text → Option Text
  parseFromRfc3339 : Text → Option DateTime
  parseFromStr : Text → String → Option DateTime
  showDateTime : DateTime → String
  decodeBase64 : Text → Except String (List UInt8)
  /-- The certificate, what is signed and the signature in base64. -/
  verifyRsaSha256 : List UInt8 → Text → Text → Except String Unit
  sha256DigestB64 : Text → Text

inductive Failure
  | refused (message : String)
  | panicked
deriving DecidableEq

def localName (name : Text) : Text :=
  match Text.rsplitOnce ':' name with
  | some (_, rest) => rest
  | none => name

def attributeOf (elements : List Text) (key : Text) (tag : Tag) : Option Text :=
  if localName tag.name ∈ elements then (tag.values key).head? else none

def firstAttribute (env : Env) (xml : Text) (elements : List Text) (key : Text) : Option Text :=
  (env.read true xml).events.findSome? fun e => e.tag?.bind (attributeOf elements key)

structure SamlAttributes where
  nameId : Text
  sessionIndex : Option Text
  attributes : Store Text (List Text)

structure AssertionState where
  nameId : Option Text
  sessionIndex : Option Text
  attributes : Store Text (List Text)
  (inNameId inAttributeValue inSessionIndex : Bool)
  currentAttrName : Text
  currentText : Text

namespace AssertionState

def new : AssertionState := ⟨none, none, ∅, false, false, false, [], []⟩

variable (s : AssertionState)

def onTag (tag : Tag) : AssertionState :=
  if localName tag.name = "NameID" then { s with inNameId := true, currentText := [] }
  else if localName tag.name = "Attribute" then
    { s with currentAttrName := (tag.values "Name").getLast?.getD s.currentAttrName }
  else if localName tag.name = "AttributeValue" then { s with inAttributeValue := true, currentText := [] }
  else if localName tag.name = "SessionIndex" then { s with inSessionIndex := true, currentText := [] }
  else s

def onText (env : Env) (s : AssertionState) (content : Text) : AssertionState :=
  match env.unescape content with
  | none => s
  | some text =>
    if s.inNameId then { s with nameId := some text }
    else if s.inSessionIndex then { s with sessionIndex := some text }
    else if s.inAttributeValue && s.currentAttrName ≠ [] then { s with currentText := s.currentText ++ text }
    else s

def pushValue : AssertionState :=
  if Text.trim s.currentText = [] then { s with currentText := [] }
  else
    { s with
      attributes := s.attributes.insert s.currentAttrName
        ((s.attributes.lookup s.currentAttrName).getD [] ++ [Text.trim s.currentText])
      currentText := [] }

def onClose (name : Text) : AssertionState :=
  if localName name = "NameID" then { s with inNameId := false }
  else if localName name = "AttributeValue" then
    { (if s.inAttributeValue && s.currentAttrName ≠ [] then s.pushValue else s) with inAttributeValue := false }
  else if localName name = "SessionIndex" then { s with inSessionIndex := false }
  else s

def heeds : Bool := s.inNameId || s.inSessionIndex || s.inAttributeValue && s.currentAttrName ≠ []

end AssertionState

def assertionWalk (env : Env) : Walk AssertionState where
  onTag := AssertionState.onTag
  onClose := AssertionState.onClose
  onText := AssertionState.onText env
  heeds := AssertionState.heeds
  heeds_onText := by
    intro s content
    unfold AssertionState.onText
    split
    · rfl
    · split_ifs <;> rfl
  onText_of_not_heeds := by
    intro s content h
    simp only [AssertionState.heeds, Bool.or_eq_false_iff] at h
    unfold AssertionState.onText
    split
    · rfl
    · simp only [h.1.1, h.1.2, h.2, Bool.false_eq_true, if_false]

def AssertionState.result (s : AssertionState) : Except String SamlAttributes :=
  match s.nameId with
  | none => .error "No NameID found in SAML assertion"
  | some nameId =>
    match s.sessionIndex with
    | some index => .ok ⟨nameId, some index, s.attributes⟩
    | none =>
      .ok ⟨nameId, (s.attributes.lookup "SessionIndex".toList).bind (·.head?), s.attributes.erase
        "SessionIndex".toList⟩

def parseAssertionXml (env : Env) (xml : Text) : Except String SamlAttributes :=
  match (env.read true xml).error with
  | some e => .error ("SAML XML parse error: " ++ e)
  | none => ((assertionWalk env).run .new (env.read true xml).events).result

structure AudienceState where
  inAudienceRestriction : Bool
  inAudience : Bool
  audiences : List Text
  currentText : Text

namespace AudienceState

def new : AudienceState := ⟨false, false, [], []⟩

def onTag (s : AudienceState) (tag : Tag) : AudienceState :=
  if localName tag.name = "AudienceRestriction" then { s with inAudienceRestriction := true }
  else if localName tag.name = "Audience" && s.inAudienceRestriction then
    { s with inAudience := true, currentText := [] }
  else s

def onText (env : Env) (s : AudienceState) (content : Text) : AudienceState :=
  if s.inAudience then
    match env.unescape content with
    | some text => { s with currentText := s.currentText ++ text }
    | none => s
  else s

def onClose (s : AudienceState) (name : Text) : AudienceState :=
  if localName name = "Audience" then
    if s.inAudience then
      { s with
        inAudience := false
        audiences := if Text.trim s.currentText = [] then s.audiences else s.audiences ++ [Text.trim s.currentText]
        currentText := [] }
    else s
  else if localName name = "AudienceRestriction" then { s with inAudienceRestriction := false }
  else s

end AudienceState

variable (env : Env)

def audienceWalk : Walk AudienceState where
  onTag := AudienceState.onTag
  onClose := AudienceState.onClose
  onText := AudienceState.onText env
  heeds := AudienceState.inAudience
  heeds_onText := by
    intro s content
    unfold AudienceState.onText
    split
    · split <;> rfl
    · rfl
  onText_of_not_heeds := by
    intro s content h
    rw [AudienceState.onText, if_neg]
    rw [h]
    decide

def extractAudiences (xml : Text) : List Text := ((audienceWalk env).run .new (env.read true xml).events).audiences

def validateAudience (assertionXml entityId : Text) : Except String Unit :=
  let audiences := extractAudiences env assertionXml
  if audiences = [] then .error "SAML assertion carries no Audience restriction"
  else if entityId ∉ audiences then
    .error ("SP entity ID '" ++ String.ofList entityId ++ "' not found in Audience restriction")
  else .ok ()

def subjectConfirmationData : Text := "SubjectConfirmationData"

def extractRecipient (xml : Text) : Option Text := firstAttribute env xml [subjectConfirmationData] "Recipient"

def validateRecipient (assertionXml acsUrl : Text) : Except String Unit :=
  match extractRecipient env assertionXml with
  | none => .ok ()
  | some recipient =>
    if recipient = acsUrl then .ok ()
    else
      .error ("SAML Recipient '" ++ String.ofList recipient ++ "' does not match the configured ACS URL '" ++
        String.ofList acsUrl ++ "'")

def parseSamlDatetime (s : Text) : Option DateTime :=
  (env.parseFromRfc3339 s).or
    ((env.parseFromStr s "%Y-%m-%dT%H:%M:%S%.fZ").or (env.parseFromStr s "%Y-%m-%dT%H:%M:%SZ"))

structure TimeBounds where
  (conditionsNotBefore conditionsNotOnOrAfter subjectNotOnOrAfter : Option DateTime)
deriving DecidableEq

def bound (tag : Tag) (key : String) (current : Option DateTime) : Option DateTime :=
  match (tag.values key.toList).getLast? with
  | some value => parseSamlDatetime env value
  | none => current

def TimeBounds.onTag (b : TimeBounds) (tag : Tag) : TimeBounds :=
  if localName tag.name = "Conditions" then
    { b with
      conditionsNotBefore := bound env tag "NotBefore" b.conditionsNotBefore
      conditionsNotOnOrAfter := bound env tag "NotOnOrAfter" b.conditionsNotOnOrAfter }
  else if localName tag.name = subjectConfirmationData then
    { b with subjectNotOnOrAfter := bound env tag "NotOnOrAfter" b.subjectNotOnOrAfter }
  else b

def timeWalk : Walk TimeBounds where
  onTag := TimeBounds.onTag env
  onClose b _ := b
  onText b _ := b
  heeds _ := false
  heeds_onText _ _ := rfl
  onText_of_not_heeds _ _ _ := rfl

def timeBounds (xml : Text) : TimeBounds := (timeWalk env).run ⟨none, none, none⟩ (env.read true xml).events

def validateTimeConditions (now : DateTime) (xml : Text) : Except String Unit :=
  match (env.read true xml).error with
  | some e => .error ("XML parse error: " ++ e)
  | none => do
      let bounds := timeBounds env xml
      match bounds.conditionsNotOnOrAfter with
      | none => .error "SAML assertion has no NotOnOrAfter condition"
      | some expiry =>
        match bounds.conditionsNotBefore with
        | some t =>
          if now < t then .error ("SAML assertion not yet valid (NotBefore: " ++ env.showDateTime t ++ ")")
        | none => pure ()
        if expiry ≤ now then .error ("SAML assertion expired (NotOnOrAfter: " ++ env.showDateTime expiry ++ ")")
        match bounds.subjectNotOnOrAfter with
        | some t =>
          if t ≤ now then
            .error ("SAML subject confirmation expired (NotOnOrAfter: " ++ env.showDateTime t ++ ")")
        | none => pure ()

/-! ### The signed element -/

/-- A tag as the extractors write it again: the values as they are spelled, always between double quotes. -/
def rawTag (tag : Tag) (ending : String) : Text :=
  '<' :: (tag.name ++ (tag.attributes.flatMap fun a => ' ' :: (a.1 ++ "=\"" ++ a.2 ++ ['"']))) ++ ending.toList

def rawCData (content : Text) : Text := "<![CDATA[" ++ content ++ "]]>"

structure SignatureState where
  inSignatureValue : Bool
  inSignedInfo : Bool
  signatureValue : Text
  signedInfoBuf : Text
  signedInfoDepth : Nat

namespace SignatureState

def new : SignatureState := ⟨false, false, [], [], 0⟩

variable (s : SignatureState)

def openSignatureValue : SignatureState := { s with inSignatureValue := true, signatureValue := [] }

def copy (text : Text) : SignatureState :=
  if s.inSignedInfo then { s with signedInfoBuf := s.signedInfoBuf ++ text } else s

def onStart (tag : Tag) : SignatureState :=
  if localName tag.name = "SignedInfo" then
    { s with inSignedInfo := true, signedInfoDepth := 1, signedInfoBuf := rawTag tag ">" }
  -- a SignatureValue is not copied, nor does it count
  else if localName tag.name = "SignatureValue" then s.openSignatureValue
  else if s.inSignedInfo then { s.copy (rawTag tag ">") with signedInfoDepth := s.signedInfoDepth + 1 }
  else s

def onEmpty (tag : Tag) : SignatureState :=
  if localName tag.name = "SignatureValue" then (s.copy (rawTag tag "/>")).openSignatureValue
  else s.copy (rawTag tag "/>")

def onText (content : Text) : SignatureState :=
  SignatureState.copy
    (if s.inSignatureValue then { s with signatureValue := s.signatureValue ++ content } else s) content

def onClose (name : Text) : SignatureState :=
  let s := if s.inSignedInfo then
    { s.copy (writeClose name) with
      signedInfoDepth := s.signedInfoDepth - 1
      inSignedInfo := s.signedInfoDepth - 1 ≠ 0 }
  else s
  if localName name = "SignatureValue" then { s with inSignatureValue := false } else s

def step : Event → SignatureState
  | .start tag => s.onStart tag
  | .empty tag => s.onEmpty tag
  | .text content => s.onText content
  | .close name => s.onClose name
  | .cData _ | .comment _ | .decl _ | .pi _ | .docType _ | .generalRef _ => s

end SignatureState

def hasId (tag : Tag) (targetId : Text) : Bool := ("ID", targetId) ∈ tag.attributes

def extractLoop (targetId : Text) : Option (Nat × Text) → List Event → Option Text
  | _, [] => none
  | none, .start tag :: events =>
    extractLoop targetId (if hasId tag targetId then some (1, rawTag tag ">") else none) events
  | none, .empty tag :: events =>
    if hasId tag targetId then some (rawTag tag "/>") else extractLoop targetId none events
  | none, _ :: events => extractLoop targetId none events
  | some (depth, result), e :: events =>
    match e with
    | .start tag => extractLoop targetId (some (depth + 1, result ++ rawTag tag ">")) events
    | .empty tag => extractLoop targetId (some (depth, result ++ rawTag tag "/>")) events
    | .text content => extractLoop targetId (some (depth, result ++ content)) events
    | .cData content => extractLoop targetId (some (depth, result ++ rawCData content)) events
    | .close name =>
      if depth - 1 = 0 then some (result ++ writeClose name)
      else extractLoop targetId (some (depth - 1, result ++ writeClose name)) events
    | _ => extractLoop targetId (some (depth, result)) events

variable (env : Env)

def extractElementById (xml targetId : Text) : Option Text := extractLoop targetId none (env.read false xml).events

/-- The loop of `remove_signature_element`. Inside a signature there is only its depth, `sig_depth`. -/
def removeLoop (sigDepth : Nat) : List Event → Text
  | [] => []
  | e :: events =>
    if sigDepth = 0 then
      match e with
      | .start tag =>
        if localName tag.name = "Signature" then removeLoop 1 events
        else rawTag tag ">" ++ removeLoop 0 events
      | .empty tag => rawTag tag "/>" ++ removeLoop 0 events
      | .close name => writeClose name ++ removeLoop 0 events
      | .text content => content ++ removeLoop 0 events
      | .cData content => rawCData content ++ removeLoop 0 events
      | _ => removeLoop 0 events
    else
      match e with
      | .start _ => removeLoop (sigDepth + 1) events
      | .close _ => removeLoop (sigDepth - 1) events
      | _ => removeLoop sigDepth events

def removeSignatureElement (xml : Text) : Text := removeLoop 0 (env.read false xml).events

def extractReferenceUri (signedInfo : Text) : Option Text := firstAttribute env signedInfo ["Reference"] "URI"

def extractAssertionId (xml : Text) : Option Text := firstAttribute env xml ["Assertion"] "ID"

def extractInResponseTo (xml : Text) : Option Text :=
  firstAttribute env xml ["Response", subjectConfirmationData] "InResponseTo"

def digestStep (s : Bool × Text) : Event → Bool × Text
  | .start tag | .empty tag => if localName tag.name = "DigestValue" then (true, []) else s
  | .text content => if s.1 then (true, s.2 ++ content) else s
  | .close name => if localName name = "DigestValue" then (false, s.2) else s
  | .cData _ | .comment _ | .decl _ | .pi _ | .docType _ | .generalRef _ => s

def extractReferenceDigestValue (signedInfo : Text) : Option Text :=
  let trimmed := Text.trim ((env.read true signedInfo).events.foldl digestStep (false, [])).2
  if trimmed = [] then none else some trimmed

/-- `lines` and `replace` leave no line end in the base64 text. -/
def parseCertificateDer (certPem : Text) : Except String (List UInt8) :=
  let certPem := Text.trim certPem
  let b64 :=
    if certPem.tails.any "-----BEGIN".toList.isPrefixOf then
      ((certPem.splitOn '\n').filter fun l => !"-----".toList.isPrefixOf l).flatten.filter fun c => c ≠ '\r'
    else certPem
  (env.decodeBase64 b64).mapError fun e => "Certificate base64 decode error: " ++ e

def orRefuse {α : Type} (message : String) : Option α → Except Failure α
  | some a => .ok a
  | none => .error (.refused message)

def refuseUnless (p : Prop) [Decidable p] (message : String) : Except Failure Unit :=
  if p then .ok () else .error (.refused message)

def canonicalize (xml : Text) : Except Failure Text :=
  match exclusiveCanonicalize env.read xml with
  | some form => .ok form
  | none => .error .panicked

def checkInResponseTo (xml : Text) (requestId : Option Text) : Except Failure Unit :=
  match requestId with
  | none => .ok ()
  | some reqId =>
    match extractInResponseTo env xml with
    | none => .error (.refused "InResponseTo attribute missing from SAML response")
    | some irt =>
      refuseUnless (irt = reqId) ("InResponseTo '" ++ String.ofList irt ++
        "' does not match AuthnRequest ID '" ++ String.ofList reqId ++ "'")

def findSignature (xml : Text) : Except Failure (Text × Text) :=
  match (env.read true xml).error with
  | some e => .error (.refused ("XML parse error finding signature: " ++ e))
  | none =>
    let s := (env.read true xml).events.foldl SignatureState.step .new
    if s.signatureValue = [] then .error (.refused "No SignatureValue found in SAML response")
    else .ok (s.signedInfoBuf, s.signatureValue)

def validateResponseSignature (xml idpCertPem : Text) (requestId : Option Text) : Except Failure Text := do
  let (signedInfo, signatureValue) ← findSignature env xml
  let referenceUri ← orRefuse "No Reference URI found in SignedInfo" (extractReferenceUri env signedInfo)
  let assertionId ←
    orRefuse "No Assertion element with ID found in SAML response" (extractAssertionId env xml)
  refuseUnless (referenceUri = assertionId) ("Signature Reference URI '" ++ String.ofList referenceUri ++
    "' does not match Assertion ID '" ++ String.ofList assertionId ++ "'")
  let certDer ← (parseCertificateDer env idpCertPem).mapError .refused
  let signedInfoCanonical ← canonicalize env signedInfo
  (env.verifyRsaSha256 certDer signedInfoCanonical (Text.trim signatureValue)).mapError .refused
  let expectedDigest ←
    orRefuse "No DigestValue found in SignedInfo" (extractReferenceDigestValue env signedInfo)
  let elementXml ←
    orRefuse "Referenced element not found in SAML response" (extractElementById env xml referenceUri)
  let elementXml := removeSignatureElement env elementXml
  let canonical ← canonicalize env elementXml
  refuseUnless (Text.trim (env.sha256DigestB64 canonical) = Text.trim expectedDigest)
    "Digest verification failed — referenced element tampered"
  checkInResponseTo env xml requestId
  return elementXml

structure SamlConfig where
  entityId : Text
  acsUrl : Text
  strictMode : Bool

def parseSamlResponse (config : SamlConfig) (now : DateTime) (xml idpCertPem : Text)
    (requestId : Option Text) : Except Failure SamlAttributes := do
  let checked := config.strictMode && idpCertPem ≠ []
  let assertionXml ← if checked then validateResponseSignature env xml idpCertPem requestId else pure xml
  let attrs ← (parseAssertionXml env assertionXml).mapError .refused
  if checked then (validateAudience env assertionXml config.entityId).mapError .refused
  if checked then (validateRecipient env assertionXml config.acsUrl).mapError .refused
  if config.strictMode then (validateTimeConditions env now assertionXml).mapError .refused
  return attrs

end Persea.Saml
