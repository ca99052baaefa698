import KubeYamls.Data.Base64
import KubeYamls.Data.Json
import KubeYamls.Store.Etcd

/-! # Auth codes as JSON

An auth code is written with the tags of `etcd.AuthCode` and `etcd.Claims` and read into
`storage.AuthCode` and `storage.Claims`, which have no tags. The text of a time is left
to the time package. -/
namespace KubeYamls.Store.Etcd
open Data Json
open Dex (Time Error)

/-- `MarshalJSON` and `UnmarshalJSON` of a time, without the quotes. -/
structure TimeText where
  format : Time → Option String
  parse : String → Option Time

def TimeText.WallClock (tt : TimeText) (t : Time) : Prop := (tt.format t).bind tt.parse = some t

/-! ## Claims -/

inductive ClaimsField where
  | userID
  | username
  | email
  | emailVerified
  | groups
  deriving DecidableEq

namespace ClaimsField

def tags : List (String × ClaimsField) :=
  [("userID", userID), ("username", username), ("email", email), ("emailVerified", emailVerified), ("groups", groups)]

/-- The names of the fields of `storage.Claims`. -/
def names : List (String × ClaimsField) :=
  [("UserID", userID), ("Username", username), ("Email", email), ("EmailVerified", emailVerified), ("Groups", groups)]

def get (i : Claims) : ClaimsField → Option Json
  | userID => some (.str i.userID)
  | username => some (.str i.username)
  | email => some (.str i.email)
  | emailVerified => some (.bool i.emailVerified)
  | groups => omitEmpty [] i.groups (.arr (i.groups.map .str))

def set (f : ClaimsField) (v : Json) (i : Dex.Claims) : Option Dex.Claims :=
  match f with
  | userID => setString v i fun s => { i with userID := s }
  | username => setString v i fun s => { i with username := s }
  | email => setString v i fun s => { i with email := s }
  | emailVerified => setBool v i fun b => { i with emailVerified := b }
  | groups => setStrings v fun l => { i with groups := l }

theorem find_tags : ∀ p ∈ tags, findField names p.1 = some p.2 := by decide +kernel

end ClaimsField

def marshalClaims (i : Claims) : Json := .obj (members ClaimsField.tags (ClaimsField.get i))

def unmarshalClaims (members : List (String × Json)) (i : Dex.Claims) : Option Dex.Claims :=
  fill ClaimsField.names ClaimsField.set members i

theorem unmarshal_marshalClaims (i : Claims) :
    unmarshalClaims (members ClaimsField.tags (ClaimsField.get i)) {} = some (toStorageClaims i) := by
  let withGroups (l : List String) : Dex.Claims := { toStorageClaims i with groups := l }
  have hgroups := elim_omitEmpty [] i.groups (.arr (i.groups.map .str))
    (fun v => ClaimsField.set .groups v (withGroups [])) withGroups (setStrings_arr i.groups withGroups)
  rw [unmarshalClaims, fill_members ClaimsField.find_tags]
  exact congrArg (· >>= pure) hgroups

/-! ## Auth codes -/

inductive AuthCodeField where
  | id
  | clientID
  | redirectURI
  | nonce
  | scopes
  | connectorID
  | connectorData
  | claims
  | expiry
  deriving DecidableEq

namespace AuthCodeField

def tags : List (String × AuthCodeField) :=
  [("ID", id), ("clientID", clientID), ("redirectURI", redirectURI), ("nonce", nonce), ("scopes", scopes),
    ("connectorID", connectorID), ("connectorData", connectorData), ("claims", claims), ("expiry", expiry)]

/-- The names of the fields of `storage.AuthCode`. -/
def names : List (String × AuthCodeField) :=
  [("ID", id), ("ClientID", clientID), ("RedirectURI", redirectURI), ("Nonce", nonce), ("Scopes", scopes),
    ("ConnectorID", connectorID), ("ConnectorData", connectorData), ("Claims", claims), ("Expiry", expiry)]

/-- A struct is never empty, so the claims are always written. -/
def get (a : AuthCode) (expiryText : String) : AuthCodeField → Option Json
  | id => some (.str a.id)
  | clientID => some (.str a.clientID)
  | redirectURI => some (.str a.redirectURI)
  | nonce => omitEmpty "" a.nonce (.str a.nonce)
  | scopes => omitEmpty [] a.scopes (.arr (a.scopes.map .str))
  | connectorID => omitEmpty "" a.connectorID (.str a.connectorID)
  | connectorData => omitEmpty [] a.connectorData (.str (String.ofList (Base64.encodeStd a.connectorData)))
  | claims => some (marshalClaims a.claims)
  | expiry => some (.str expiryText)

def setBytes {α : Type} (v : Json) (update : List UInt8 → α) : Option α :=
  match v with
  | .str s => (Base64.decodeStd s.toList).toOption.map update
  | .null => some (update [])
  | _ => none

def setTime {α : Type} (tt : TimeText) (v : Json) (a : α) (update : Time → α) : Option α :=
  match v with
  | .str s => (tt.parse s).map update
  | .null => some a
  | _ => none

def set (tt : TimeText) (f : AuthCodeField) (v : Json) (a : Dex.AuthCode) : Option Dex.AuthCode :=
  match f with
  | id => setString v a fun s => { a with id := s }
  | clientID => setString v a fun s => { a with clientID := s }
  | redirectURI => setString v a fun s => { a with redirectURI := s }
  | nonce => setString v a fun s => { a with nonce := s }
  | scopes => setStrings v fun l => { a with scopes := l }
  | connectorID => setString v a fun s => { a with connectorID := s }
  | connectorData => setBytes v fun b => { a with connectorData := b }
  | claims => setStruct v a a.claims unmarshalClaims fun i => { a with claims := i }
  | expiry => setTime tt v a fun t => { a with expiry := t }

theorem find_tags : ∀ p ∈ tags, findField names p.1 = some p.2 := by decide +kernel

end AuthCodeField

/-- `json.Marshal` of an `etcd.AuthCode`. -/
def marshalAuthCode (tt : TimeText) (a : AuthCode) : Option (List Char) :=
  (tt.format a.expiry).map fun text => (obj (members AuthCodeField.tags (AuthCodeField.get a text))).print

/-- `json.Unmarshal` into a `storage.AuthCode` that is zero. -/
def unmarshalAuthCode (tt : TimeText) (text : List Char) : Option Dex.AuthCode :=
  (parse text).bind fun v => setStruct v (decodeAuthCode (zero .authCode)) (decodeAuthCode (zero .authCode))
    (fill AuthCodeField.names (AuthCodeField.set tt)) fun a => a

theorem setBytes_encodeStd {α : Type} (bytes : List UInt8) (update : List UInt8 → α) :
    AuthCodeField.setBytes (.str (String.ofList (Base64.encodeStd bytes))) update = some (update bytes) := by
  rw [AuthCodeField.setBytes, String.toList_ofList, Base64.decodeStd_encodeStd]
  rfl

theorem unmarshal_marshalAuthCode {tt a} (h : tt.WallClock a.expiry) :
    ∃ text, marshalAuthCode tt a = some text ∧ unmarshalAuthCode tt text = some (decodeAuthCode a) := by
  obtain ⟨expiryText, hformat, hparse⟩ := Option.bind_eq_some_iff.mp h
  refine ⟨_, by rw [marshalAuthCode, hformat]; rfl, ?_⟩
  -- the fields that can be left out, with those before them set
  let first : Dex.AuthCode :=
    { decodeAuthCode (zero .authCode) with id := a.id, clientID := a.clientID, redirectURI := a.redirectURI }
  let withNonce (s : String) : Dex.AuthCode := { first with nonce := s }
  let withScopes (l : List String) : Dex.AuthCode := { withNonce a.nonce with scopes := l }
  let withConnectorID (s : String) : Dex.AuthCode := { withScopes a.scopes with connectorID := s }
  let withConnectorData (b : List UInt8) : Dex.AuthCode := { withConnectorID a.connectorID with connectorData := b }
  have hnonce := elim_omitEmpty "" a.nonce (.str a.nonce)
    (fun v => AuthCodeField.set tt .nonce v (withNonce "")) withNonce rfl
  have hscopes := elim_omitEmpty [] a.scopes (.arr (a.scopes.map .str))
    (fun v => AuthCodeField.set tt .scopes v (withScopes [])) withScopes (setStrings_arr a.scopes withScopes)
  have hconnectorID := elim_omitEmpty "" a.connectorID (.str a.connectorID)
    (fun v => AuthCodeField.set tt .connectorID v (withConnectorID "")) withConnectorID rfl
  have hconnectorData := elim_omitEmpty [] a.connectorData
    (.str (String.ofList (Base64.encodeStd a.connectorData)))
    (fun v => AuthCodeField.set tt .connectorData v (withConnectorData [])) withConnectorData
    (setBytes_encodeStd a.connectorData withConnectorData)
  have hclaims : AuthCodeField.set tt .claims (marshalClaims a.claims) (withConnectorData a.connectorData) =
      some { withConnectorData a.connectorData with claims := toStorageClaims a.claims } :=
    congrArg (Option.map _) (unmarshal_marshalClaims a.claims)
  have hexpiry : AuthCodeField.set tt .expiry (.str expiryText)
      { withConnectorData a.connectorData with claims := toStorageClaims a.claims } = some (decodeAuthCode a) :=
    congrArg (Option.map _) hparse
  have hfill : fill AuthCodeField.names (AuthCodeField.set tt)
      (members AuthCodeField.tags (AuthCodeField.get a expiryText)) (decodeAuthCode (zero .authCode)) =
      some (decodeAuthCode a) := by
    rw [fill_members AuthCodeField.find_tags, AuthCodeField.tags, foldlM_some rfl, foldlM_some rfl,
      foldlM_some rfl, foldlM_some hnonce, foldlM_some hscopes, foldlM_some hconnectorID,
      foldlM_some hconnectorData, foldlM_some hclaims, foldlM_some hexpiry]
    rfl
  rw [unmarshalAuthCode, parse_print, Option.bind_some, setStruct, hfill]
  rfl

/-! ## The methods on texts -/

/-- `CreateAuthCode`, on the texts stored under the keys. -/
def putAuthCode (tt : TimeText) (c : Dex.AuthCode) (texts : Table String (List Char)) :
    Except Error (Table String (List Char)) :=
  match marshalAuthCode tt (fromStorageAuthCode c) with
  | none => .error (.other "json: error calling MarshalJSON for type time.Time")
  | some text =>
    match texts.lookup (keyID authCodePrefix c.id) with
    | some _ => .error .alreadyExists
    | none => .ok (texts.insert (keyID authCodePrefix c.id) text)

/-- `GetAuthCode` -/
def readAuthCode (tt : TimeText) (id : String) (texts : Table String (List Char)) : Except Error Dex.AuthCode :=
  match texts.lookup (keyID authCodePrefix id) with
  | none => .error .notFound
  | some text =>
    match unmarshalAuthCode tt text with
    | none => .error (.other "json: cannot unmarshal")
    | some c => .ok c

/-- An auth code that was created is read as it was. -/
theorem authCode_kept (tt : TimeText) (c : Dex.AuthCode) (texts : Table String (List Char))
    (hwall : tt.WallClock c.expiry) (hnew : texts.lookup (keyID authCodePrefix c.id) = none) :
    ∃ texts', putAuthCode tt c texts = .ok texts' ∧ readAuthCode tt c.id texts' = .ok c := by
  obtain ⟨text, hmarshal, hunmarshal⟩ := unmarshal_marshalAuthCode (a := fromStorageAuthCode c) hwall
  refine ⟨texts.insert (keyID authCodePrefix c.id) text, ?_, ?_⟩
  · rw [putAuthCode, hmarshal, hnew]
  · rw [readAuthCode, AList.lookup_insert]
    simp only [hunmarshal]
    rfl

def noon : Time := 1514808000000000000

/-- The text of one time. -/
def noonText : TimeText where
  format t := if t = noon then some "2018-01-01T12:00:00Z" else none
  parse s := if s = "2018-01-01T12:00:00Z" then some noon else none

def markedCode : Dex.AuthCode :=
  { id := "x<y", clientID := "app", redirectURI := "https://app.example.com/cb?a=1&b=2", nonce := "",
    scopes := ["openid", "groups"], connectorID := "ldap", connectorData := [0, 255, 7, 9],
    claims := { userID := "1", username := "J. \"Jane\" Doe", email := "jane@example.com", groups := ["a\tb"] },
    expiry := noon }

theorem markedCode_kept : ∃ texts, putAuthCode noonText markedCode ∅ = .ok texts ∧
    readAuthCode noonText "x<y" texts = .ok markedCode := by
  have hwall : noonText.WallClock markedCode.expiry := by
    unfold TimeText.WallClock
    decide +kernel
  exact authCode_kept noonText markedCode ∅ hwall rfl

end KubeYamls.Store.Etcd
