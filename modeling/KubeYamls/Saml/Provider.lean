import KubeYamls.Data.Base64
import KubeYamls.Data.Fallible
import KubeYamls.Data.Strings
import KubeYamls.Data.Xml
import KubeYamls.Dex.Calls
import KubeYamls.Dex.Text

/-! # The SAML connector

`dex/connector/saml`: what `HandlePOST` makes of a response that a browser posts. The
text is decoded, a signature is looked for at the root and then at the first
assertion, the document is decoded into the structs of `types.go`, and their fields
are checked against the configuration and the request. -/
namespace KubeYamls.Saml
open Data Data.Xml
open Dex (Time Duration ConnScopes Identity quote quoteAll)

/-! ## types.go -/

structure NameID where
  value : String := ""
  deriving DecidableEq

structure SubjectConfirmationData where
  notBefore : Time := 0
  notOnOrAfter : Time := 0
  recipient : String := ""
  inResponseTo : String := ""
  deriving DecidableEq

structure SubjectConfirmation where
  method : String := ""
  subjectConfirmationData : Option SubjectConfirmationData := none
  deriving DecidableEq

structure Subject where
  nameID : Option NameID := none
  subjectConfirmations : List SubjectConfirmation := []
  deriving DecidableEq

structure Audience where
  value : String := ""
  deriving DecidableEq

structure AudienceRestriction where
  audiences : List Audience := []
  deriving DecidableEq

structure Conditions where
  notBefore : Time := 0
  notOnOrAfter : Time := 0
  audienceRestriction : List AudienceRestriction := []
  deriving DecidableEq

structure StatusCode where
  value : String := ""
  deriving DecidableEq

structure StatusMessage where
  value : String := ""
  deriving DecidableEq

structure Status where
  statusCode : Option StatusCode := none
  statusMessage : Option StatusMessage := none
  deriving DecidableEq

structure Issuer where
  issuer : String := ""
  deriving DecidableEq

structure AttributeValue where
  value : String := ""
  deriving DecidableEq

structure Attribute where
  name : String := ""
  attributeValues : List AttributeValue := []
  deriving DecidableEq

structure AttributeStatement where
  attributes : List Attribute := []
  deriving DecidableEq

structure Assertion where
  issueInstance : Time := 0
  issuer : Issuer := {}
  subject : Option Subject := none
  conditions : Option Conditions := none
  attributeStatement : Option AttributeStatement := none
  deriving DecidableEq

structure Response where
  inResponseTo : String := ""
  destination : String := ""
  issuer : Option Issuer := none
  status : Option Status := none
  assertion : Option Assertion := none
  deriving DecidableEq

namespace AttributeStatement

/-- An attribute without values is found, but the search goes on. -/
def getFrom (name : String) (ok : Bool) : List Attribute → String × Bool
  | [] => ("", ok)
  | attr :: rest =>
    if attr.name = name then
      match attr.attributeValues with
      | value :: _ => (value.value, true)
      | [] => getFrom name true rest
    else getFrom name ok rest

def get (a : AttributeStatement) (name : String) : String × Bool := getFrom name false a.attributes

def all (a : AttributeStatement) (name : String) : List String × Bool :=
  let found := a.attributes.filter fun attr => attr.name = name
  (found.flatMap fun attr => attr.attributeValues.map AttributeValue.value, !found.isEmpty)

def names (a : AttributeStatement) : List String := a.attributes.map Attribute.name

end AttributeStatement

/-! ## Decoding -/

def assertionSpace : String := "urn:oasis:names:tc:SAML:2.0:assertion"

def protocolSpace : String := "urn:oasis:names:tc:SAML:2.0:protocol"

/-- `samlVersion.UnmarshalXMLAttr` -/
def samlVersion {σ : Type} (a : Attr) (s : σ) : Except String σ :=
  if a.value ≠ "2.0" then .error ("saml version expected \"2.0\" got " ++ quote a.value) else .ok s

def NameID.struct : Struct NameID where
  space := assertionSpace
  tag := "NameID"
  charData data s := { s with value := data }

section
-- `time.Parse` with the format of `xmlTime`
variable (parseTime : String → Except String Time)

def SubjectConfirmationData.struct : Struct SubjectConfirmationData where
  space := assertionSpace
  tag := "SubjectConfirmationData"
  attr a s :=
    match a.tag with
    | "NotBefore" => (fun t => { s with notBefore := t }) <$> parseTime a.value
    | "NotOnOrAfter" => (fun t => { s with notOnOrAfter := t }) <$> parseTime a.value
    | "Recipient" => .ok { s with recipient := a.value }
    | "InResponseTo" => .ok { s with inResponseTo := a.value }
    | _ => .ok s

def SubjectConfirmation.struct : Struct SubjectConfirmation where
  space := assertionSpace
  tag := "SubjectConfirmation"
  attr a s :=
    match a.tag with
    | "Method" => .ok { s with method := a.value }
    | _ => .ok s
  child e s :=
    match e.tag with
    | "SubjectConfirmationData" => (fun d => { s with subjectConfirmationData := d }) <$>
        (SubjectConfirmationData.struct parseTime).pointer {} e s.subjectConfirmationData
    | _ => .ok s

def Subject.struct : Struct Subject where
  space := assertionSpace
  tag := "Subject"
  child e s :=
    match e.tag with
    | "NameID" => (fun n => { s with nameID := n }) <$> NameID.struct.pointer {} e s.nameID
    | "SubjectConfirmation" => (fun c => { s with subjectConfirmations := c }) <$>
        (SubjectConfirmation.struct parseTime).slice {} e s.subjectConfirmations
    | _ => .ok s

def Audience.struct : Struct Audience where
  space := assertionSpace
  tag := "Audience"
  charData data s := { s with value := data }

def AudienceRestriction.struct : Struct AudienceRestriction where
  space := assertionSpace
  tag := "AudienceRestriction"
  child e s :=
    match e.tag with
    | "Audience" => (fun a => { s with audiences := a }) <$> Audience.struct.slice {} e s.audiences
    | _ => .ok s

def Conditions.struct : Struct Conditions where
  space := assertionSpace
  tag := "Conditions"
  attr a s :=
    match a.tag with
    | "NotBefore" => (fun t => { s with notBefore := t }) <$> parseTime a.value
    | "NotOnOrAfter" => (fun t => { s with notOnOrAfter := t }) <$> parseTime a.value
    | _ => .ok s
  child e s :=
    match e.tag with
    | "AudienceRestriction" => (fun r => { s with audienceRestriction := r }) <$>
        AudienceRestriction.struct.slice {} e s.audienceRestriction
    | _ => .ok s

def StatusCode.struct : Struct StatusCode where
  space := protocolSpace
  tag := "StatusCode"
  attr a s :=
    match a.tag with
    | "Value" => .ok { s with value := a.value }
    | _ => .ok s

def StatusMessage.struct : Struct StatusMessage where
  space := protocolSpace
  tag := "StatusMessage"
  charData data s := { s with value := data }

def Status.struct : Struct Status where
  space := protocolSpace
  tag := "Status"
  child e s :=
    match e.tag with
    | "StatusCode" => (fun c => { s with statusCode := c }) <$> StatusCode.struct.pointer {} e s.statusCode
    | "StatusMessage" => (fun m => { s with statusMessage := m }) <$>
        StatusMessage.struct.pointer {} e s.statusMessage
    | _ => .ok s

def Issuer.struct : Struct Issuer where
  space := assertionSpace
  tag := "Issuer"
  charData data s := { s with issuer := data }

/-- The name space of the values is not checked. -/
def AttributeValue.struct : Struct AttributeValue where
  space := ""
  tag := "AttributeValue"
  charData data s := { s with value := data }

def Attribute.struct : Struct Attribute where
  space := assertionSpace
  tag := "Attribute"
  attr a s :=
    match a.tag with
    | "Name" => .ok { s with name := a.value }
    | _ => .ok s
  child e s :=
    match e.tag with
    | "AttributeValue" => (fun v => { s with attributeValues := v }) <$>
        AttributeValue.struct.slice {} e s.attributeValues
    | _ => .ok s

def AttributeStatement.struct : Struct AttributeStatement where
  space := assertionSpace
  tag := "AttributeStatement"
  child e s :=
    match e.tag with
    | "Attribute" => (fun a => { s with attributes := a }) <$> Attribute.struct.slice {} e s.attributes
    | _ => .ok s

def Assertion.struct : Struct Assertion where
  space := assertionSpace
  tag := "Assertion"
  attr a s :=
    match a.tag with
    | "Version" => samlVersion a s
    | "IssueInstance" => (fun t => { s with issueInstance := t }) <$> parseTime a.value
    | _ => .ok s
  child e s :=
    match e.tag with
    | "Issuer" => (fun i => { s with issuer := i }) <$> Issuer.struct.unmarshal e s.issuer
    | "Subject" => (fun x => { s with subject := x }) <$> (Subject.struct parseTime).pointer {} e s.subject
    | "Conditions" => (fun c => { s with conditions := c }) <$>
        (Conditions.struct parseTime).pointer {} e s.conditions
    | "AttributeStatement" => (fun a => { s with attributeStatement := a }) <$>
        AttributeStatement.struct.pointer {} e s.attributeStatement
    | _ => .ok s

def Response.struct : Struct Response where
  space := protocolSpace
  tag := "Response"
  attr a s :=
    match a.tag with
    | "InResponseTo" => .ok { s with inResponseTo := a.value }
    | "Version" => samlVersion a s
    | "Destination" => .ok { s with destination := a.value }
    | _ => .ok s
  child e s :=
    match e.tag with
    | "Issuer" => (fun i => { s with issuer := i }) <$> Issuer.struct.pointer {} e s.issuer
    | "Status" => (fun x => { s with status := x }) <$> Status.struct.pointer {} e s.status
    | "Assertion" => (fun a => { s with assertion := a }) <$>
        (Assertion.struct parseTime).pointer {} e s.assertion
    | _ => .ok s

end

/-! ## saml.go -/

/-- How a call ends without a result. A nil element given to the validator is
dereferenced. -/
inductive Fault where
  | error (msg : String)
  | panic
  deriving DecidableEq

/-- What is done by libraries: parsing, printing and decoding of documents, and the
parts of messages that depend on `fmt` and `time`. -/
structure Library where
  parse : List UInt8 → Except String Document
  print : Document → Except String (List UInt8)
  unmarshal : List UInt8 → Except String Response
  timeText : Time → String
  /-- `fmt.Errorf` with a format and nothing else -/
  sprintf : String → String

structure Provider where
  entityIssuer : String := ""
  ssoIssuer : String := ""
  now : Time
  validator : Option (Element → Except String Element) := none
  usernameAttr : String
  emailAttr : String
  groupsAttr : String := ""
  groupsDelim : String := ""
  redirectURI : String

def statusCodeSuccess : String := "urn:oasis:names:tc:SAML:2.0:status:Success"

def subjectConfirmationMethodBearer : String := "urn:oasis:names:tc:SAML:2.0:cm:bearer"

def allowedClockDrift : Duration := 30 * 1000000000

def before (now notBefore : Time) : Bool := decide (now + allowedClockDrift < notBefore)

def after (now notOnOrAfter : Time) : Bool := decide (notOnOrAfter + allowedClockDrift < now)

/-- `fmt`'s `%v` on a slice. -/
def listText (ss : List String) : String := "[" ++ " ".intercalate ss ++ "]"

section
variable (lib : Library)

def verifyResponseSig (validate : Element → Except String Element) (data : List UInt8) :
    Except Fault (List UInt8 × Bool) := do
  let doc ← (lib.parse data).mapError fun e => .error ("parse document: " ++ e)
  let response ← present .panic (Document.root doc)
  match validate response with
  | .ok transformedResponse =>
    let signed ← (lib.print (Document.setRoot transformedResponse doc)).mapError .error
    return (signed, true)
  | .error _ =>
    let found ← (response.select assertionSpace "Assertion").mapError fun _ =>
      .error "response does not contain an Assertion element"
    let assertion ← present .panic found
    let transformedAssertion ← (validate assertion).mapError fun e =>
      .error ("response does not contain a valid signature element: " ++ e)
    let doc := Document.setRoot (response.onlyChild transformedAssertion) doc
    let signed ← (lib.print doc).mapError .error
    return (signed, false)

variable (p : Provider)

def validateStatus (status : Status) : Except String Unit := do
  let code ← present "response did not contain a StatusCode" status.statusCode
  if code.value ≠ statusCodeSuccess then
    let lastPart := (split code.value ":").getLastD ""
    let errorMessage := "status code of the Response was not Success, was " ++ quote lastPart
    match status.statusMessage with
    | some m => .error (lib.sprintf (if m.value ≠ "" then errorMessage ++ " -> " ++ m.value else errorMessage))
    | none => .error (lib.sprintf errorMessage)

/-- The window of validity, which is checked at two places. -/
def checkWindow (notBefore notOnOrAfter : Time) : Except String Unit := do
  refuse (notBefore ≠ 0 ∧ before p.now notBefore = true)
    ("at " ++ lib.timeText p.now ++ " got response that cannot be processed before " ++
      lib.timeText notBefore)
  refuse (notOnOrAfter ≠ 0 ∧ after p.now notOnOrAfter = true)
    ("at " ++ lib.timeText p.now ++ " got response that cannot be processed because it expired at " ++
      lib.timeText notOnOrAfter)

def validateConfirmation (inResponseTo : String) (c : SubjectConfirmation) : Except String Unit := do
  refuse (c.method ≠ subjectConfirmationMethodBearer)
    ("unexpected subject confirmation method: " ++ c.method)
  let data ← present "SubjectConfirmation contained no SubjectConfirmationData" c.subjectConfirmationData
  refuse (data.inResponseTo ≠ inResponseTo)
    ("expected SubjectConfirmationData InResponseTo value " ++ quote inResponseTo ++ ", got " ++
      quote data.inResponseTo)
  checkWindow lib p data.notBefore data.notOnOrAfter
  refuse (data.recipient ≠ "" ∧ data.recipient ≠ p.redirectURI)
    ("expected Recipient " ++ quote p.redirectURI ++ " got " ++ quote data.recipient)

def confirmationLoop (inResponseTo : String) (errs : List String) :
    List SubjectConfirmation → Except String Unit
  | [] =>
    match errs with
    | [err] => .error ("failed to validate subject confirmation: " ++ err)
    | errs => .error ("failed to validate subject confirmation: " ++ listText errs)
  | c :: rest =>
    match validateConfirmation lib p inResponseTo c with
    | .ok () => .ok ()
    | .error err => confirmationLoop inResponseTo (errs ++ [err]) rest

def validateSubject (subject : Subject) (inResponseTo : String) : Except String Unit := do
  refuse (subject.subjectConfirmations.isEmpty = true) "Subject contained no SubjectConfrimations"
  confirmationLoop lib p inResponseTo [] subject.subjectConfirmations

def expAud : String := if p.entityIssuer = "" then p.redirectURI else p.entityIssuer

/-- The values are those of the audiences looked at, which is all of them when there
is an error to report. -/
def audienceLoop : List AudienceRestriction → Except String Unit
  | [] => .ok ()
  | r :: rest =>
    if r.audiences.any fun aud => aud.value = expAud p then audienceLoop rest
    else .error ("required audience " ++ expAud p ++ " was not in Response audiences " ++
      listText (r.audiences.map Audience.value))

def validateConditions (conditions : Conditions) : Except String Unit := do
  checkWindow lib p conditions.notBefore conditions.notOnOrAfter
  audienceLoop p conditions.audienceRestriction

/-- The elements that are looked at if the root element is signed. -/
def validateRoot (resp : Response) (inResponseTo : String) : Except String Unit := do
  refuse (p.ssoIssuer ≠ "" ∧ ∃ i ∈ resp.issuer, i.issuer ≠ p.ssoIssuer)
    ("expected Issuer value " ++ p.ssoIssuer ++ ", got " ++ (resp.issuer.getD {}).issuer)
  refuse (resp.inResponseTo ≠ inResponseTo)
    ("expected InResponseTo value " ++ inResponseTo ++ ", got " ++ resp.inResponseTo)
  refuse (resp.destination ≠ "" ∧ resp.destination ≠ p.redirectURI)
    ("expected destination " ++ quote p.redirectURI ++ " got " ++ quote resp.destination)
  let status ← present "Response did not contain a Status element" resp.status
  validateStatus lib status

def missingAttribute (name : String) (attributes : AttributeStatement) : String :=
  "no attribute with name " ++ quote name ++ ": " ++ listText attributes.names

def groupsOf (s : ConnScopes) (attributes : AttributeStatement) : Except String (List String) :=
  if s.groups = false ∨ p.groupsAttr = "" then .ok []
  else if p.groupsDelim ≠ "" then
    match attributes.get p.groupsAttr with
    | (_, false) => .error (missingAttribute p.groupsAttr attributes)
    | (groupsStr, true) => .ok (split groupsStr p.groupsDelim)
  else
    match attributes.all p.groupsAttr with
    | (_, false) => .error (missingAttribute p.groupsAttr attributes)
    | (groups, true) => .ok groups

/-- The assertion is checked and mapped to user info. -/
def identityOf (s : ConnScopes) (inResponseTo : String) (assertion : Option Assertion) :
    Except String Identity := do
  let assertion ← present "response did not contain an assertion" assertion
  let subject ← present "response did not contain a subject" assertion.subject
  validateSubject lib p subject inResponseTo
  ifPresent (validateConditions lib p) assertion.conditions
  let name ← present "subject does not contain an NameID element" subject.nameID
  refuse (name.value = "") "NameID element does not contain a value"
  let attributes ← present "response did not contain a AttributeStatement" assertion.attributeStatement
  let email := (attributes.get p.emailAttr).1
  refuse (email = "") (missingAttribute p.emailAttr attributes)
  let username := (attributes.get p.usernameAttr).1
  refuse (username = "") (missingAttribute p.usernameAttr attributes)
  let groups ← groupsOf p s attributes
  return ⟨name.value, username, email, true, groups, []⟩

/-- The response as it is processed, and whether its root element counts as signed. -/
def received (samlResponse : String) : Except Fault (Response × Bool) := do
  let rawResp ← (Base64.decodeStd samlResponse.toList).mapError fun i =>
    .error ("decode response: illegal base64 data at input byte " ++ toString i)
  let (rawResp, rootElementSigned) ←
    match p.validator with
    | none => pure (rawResp, true)
    | some validate =>
      (verifyResponseSig lib validate rawResp).mapError fun
        | .error e => .error ("verify signature: " ++ e)
        | .panic => .panic
  let resp ← (lib.unmarshal rawResp).mapError fun e => .error ("unmarshal response: " ++ e)
  return (resp, rootElementSigned)

def handlePOST (s : ConnScopes) (samlResponse inResponseTo : String) : Except Fault Identity := do
  let (resp, rootElementSigned) ← received lib p samlResponse
  onlyIf rootElementSigned ((validateRoot lib p resp inResponseTo).mapError .error)
  (identityOf lib p s inResponseTo resp.assertion).mapError .error

end

end KubeYamls.Saml
