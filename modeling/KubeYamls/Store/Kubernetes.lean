import KubeYamls.Data.Base32
import KubeYamls.Dex.Text
import KubeYamls.Store.Objects

/-! # The Kubernetes storage

The methods of `dex/storage/kubernetes/storage.go` as programs over single
requests to the API server, the names of `client.go` and the mirrored types of
`types.go`. An object is addressed by its resource and its name; the namespace
and the type metadata are the same for all objects of a kind and are left out, as
is the text of HTTP errors. -/
namespace KubeYamls.Store.Kubernetes
open Data Conc List Option
open Dex (Time Error Outcome CaseTable GCResult quote bytes)

/-! ## Names -/

def encoding : Base32.Alphabet where
  chars := "abcdefghijklmnopqrstuvwxyz234567".toList
  length := by decide
  nodup := by decide
  pad := by decide

/-- `hash/fnv`, the 64-bit FNV-1 hash: its state before anything is written. -/
def offset64 : UInt64 := 14695981039346656037

def prime64 : UInt64 := 1099511628211

/-- `Write` -/
def hashWrite (h : UInt64) (data : List UInt8) : UInt64 :=
  data.foldl (fun h b => h * prime64 ^^^ b.toUInt64) h

/-- `Sum`: the eight bytes of the hash behind what is given. -/
def hashSum (h : UInt64) (b : List UInt8) : List UInt8 :=
  b ++ ([56, 48, 40, 32, 24, 16, 8, 0] : List UInt64).map fun n => (h >>> n).toUInt8

/-- A `hash.Hash` that nothing has been written to. `Sum` appends a digest that has a length of its own. -/
structure NewHash where
  sum : List UInt8 → List UInt8
  digest : List UInt8
  digest_ne_nil : digest ≠ []
  sum_eq : ∀ b, sum b = b ++ digest

/-- `fnv.New64` -/
def fnv64 : NewHash where
  sum := hashSum offset64
  digest := hashSum offset64 []
  digest_ne_nil := by simp [hashSum]
  sum_eq b := by simp [hashSum]

/-- `idToName` of any bytes with any hash. -/
def idToNameWith (h : NewHash) (s : List UInt8) : String := String.ofList (encoding.encodeTrimmed (h.sum s))

/-- Nothing is written to the hash, so what is encoded is the ID with a constant
behind it. -/
def idToName (s : String) : String :=
  String.ofList (encoding.encodeTrimmed (hashSum offset64 (bytes s)))

theorem idToName_eq (s : String) : idToName s = idToNameWith fnv64 (bytes s) := rfl

theorem idToNameWith_inj {h s t} (heq : idToNameWith h s = idToNameWith h t) : s = t := by
  have hsum := encoding.encodeTrimmed_injective (String.ofList_injective heq)
  rw [h.sum_eq, h.sum_eq] at hsum
  exact append_cancel_right hsum

theorem idToName_injective : Function.Injective idToName := by
  intro s t h
  rw [idToName_eq, idToName_eq] at h
  have htext := congrArg Dex.text (idToNameWith_inj h)
  rw [Dex.text_bytes, Dex.text_bytes] at htext
  exact some.inj htext

/-- Names are told apart and legal, whatever the hash is. -/
theorem idToNameWith_legal (h : NewHash) : Function.Injective (idToNameWith h) ∧ ∀ s, idToNameWith h s ≠ "" ∧
      ∀ c ∈ (idToNameWith h s).toList, ('a' ≤ c ∧ c ≤ 'z') ∨ ('2' ≤ c ∧ c ≤ '7') := by
  refine ⟨fun s t heq => idToNameWith_inj heq, fun s => ⟨fun hempty => ?_, fun c hc => ?_⟩⟩
  · have hlength : (idToNameWith h s).toList.length = (8 * (s.length + h.digest.length) + 4) / 5 := by
      rw [idToNameWith, String.toList_ofList, encoding.length_encodeTrimmed, h.sum_eq, length_append]
    have hdigest := length_pos_iff.mpr h.digest_ne_nil
    have hzero : "".toList.length = 0 := rfl
    rw [hempty] at hlength
    omega
  · have hall : encoding.chars.all (fun c => ('a' ≤ c ∧ c ≤ 'z') ∨ ('2' ≤ c ∧ c ≤ '7')) = true := by decide
    rw [idToNameWith, String.toList_ofList] at hc
    simpa using all_eq_true.mp hall c (encoding.mem_encodeTrimmed hc)

def offlineTokenName (userID connID : String) : String :=
  let hash := hashWrite (hashWrite offset64 (bytes userID)) (bytes connID)
  String.ofList (encoding.encodeTrimmed (hashSum hash []))

def keysName := "openid-connect-keys"

/-! ## Mirrored types -/

/-- The resource version is set by the server. -/
structure ObjectMeta where
  name : String
  resourceVersion : Option Nat := none
  deriving DecidableEq

structure Client where
  objectMeta : ObjectMeta
  id : String
  secret : String
  redirectURIs : List String
  trustedPeers : List String
  isPublic : Bool
  name : String
  logoURL : String
  deriving DecidableEq

def fromStorageClient (c : Dex.Client) : Client where
  objectMeta := { name := idToName c.id }
  id := c.id
  secret := c.secret
  redirectURIs := c.redirectURIs
  trustedPeers := c.trustedPeers
  isPublic := c.isPublic
  name := c.name
  logoURL := c.logoURL

def toStorageClient (c : Client) : Dex.Client where
  id := c.id
  secret := c.secret
  redirectURIs := c.redirectURIs
  trustedPeers := c.trustedPeers
  isPublic := c.isPublic
  name := c.name
  logoURL := c.logoURL

structure Claims where
  userID : String
  username : String
  email : String
  emailVerified : Bool
  groups : List String
  deriving DecidableEq

def fromStorageClaims (i : Dex.Claims) : Claims where
  userID := i.userID
  username := i.username
  email := i.email
  emailVerified := i.emailVerified
  groups := i.groups

def toStorageClaims (i : Claims) : Dex.Claims where
  userID := i.userID
  username := i.username
  email := i.email
  emailVerified := i.emailVerified
  groups := i.groups

/-- The ID of a request is the name of the object. -/
structure AuthRequest where
  objectMeta : ObjectMeta
  clientID : String
  responseTypes : List String
  scopes : List String
  redirectURI : String
  nonce : String
  state : String
  forceApprovalPrompt : Bool
  loggedIn : Bool
  claims : Claims
  connectorID : String
  connectorData : List UInt8
  expiry : Time
  deriving DecidableEq

def toStorageAuthRequest (req : AuthRequest) : Dex.AuthRequest where
  id := req.objectMeta.name
  clientID := req.clientID
  responseTypes := req.responseTypes
  scopes := req.scopes
  redirectURI := req.redirectURI
  nonce := req.nonce
  state := req.state
  forceApprovalPrompt := req.forceApprovalPrompt
  loggedIn := req.loggedIn
  connectorID := req.connectorID
  connectorData := req.connectorData
  expiry := req.expiry
  claims := toStorageClaims req.claims

def fromStorageAuthRequest (a : Dex.AuthRequest) : AuthRequest where
  objectMeta := { name := a.id }
  clientID := a.clientID
  responseTypes := a.responseTypes
  scopes := a.scopes
  redirectURI := a.redirectURI
  nonce := a.nonce
  state := a.state
  loggedIn := a.loggedIn
  forceApprovalPrompt := a.forceApprovalPrompt
  connectorID := a.connectorID
  connectorData := a.connectorData
  expiry := a.expiry
  claims := fromStorageClaims a.claims

structure Password where
  objectMeta : ObjectMeta
  email : String
  hash : List UInt8
  username : String
  userID : String
  deriving DecidableEq

def fromStoragePassword (u : CaseTable) (p : Dex.Password) : Password where
  objectMeta := { name := idToName (u.lower p.email) }
  email := u.lower p.email
  hash := p.hash
  username := p.username
  userID := p.userID

def toStoragePassword (p : Password) : Dex.Password where
  email := p.email
  hash := p.hash
  username := p.username
  userID := p.userID

/-- The field `State` of the source is never set. -/
structure AuthCode where
  objectMeta : ObjectMeta
  clientID : String
  scopes : List String
  redirectURI : String
  nonce : String
  claims : Claims
  connectorID : String
  connectorData : List UInt8
  expiry : Time
  deriving DecidableEq

def fromStorageAuthCode (a : Dex.AuthCode) : AuthCode where
  objectMeta := { name := a.id }
  clientID := a.clientID
  redirectURI := a.redirectURI
  connectorID := a.connectorID
  connectorData := a.connectorData
  nonce := a.nonce
  scopes := a.scopes
  claims := fromStorageClaims a.claims
  expiry := a.expiry

def toStorageAuthCode (a : AuthCode) : Dex.AuthCode where
  id := a.objectMeta.name
  clientID := a.clientID
  redirectURI := a.redirectURI
  connectorID := a.connectorID
  connectorData := a.connectorData
  nonce := a.nonce
  scopes := a.scopes
  claims := toStorageClaims a.claims
  expiry := a.expiry

structure RefreshToken where
  objectMeta : ObjectMeta
  createdAt : Time
  lastUsed : Time
  clientID : String
  scopes : List String
  token : String
  nonce : String
  claims : Claims
  connectorID : String
  connectorData : List UInt8
  deriving DecidableEq

def toStorageRefreshToken (r : RefreshToken) : Dex.RefreshToken where
  id := r.objectMeta.name
  token := r.token
  createdAt := r.createdAt
  lastUsed := r.lastUsed
  clientID := r.clientID
  connectorID := r.connectorID
  connectorData := r.connectorData
  scopes := r.scopes
  nonce := r.nonce
  claims := toStorageClaims r.claims

def fromStorageRefreshToken (r : Dex.RefreshToken) : RefreshToken where
  objectMeta := { name := r.id }
  token := r.token
  createdAt := r.createdAt
  lastUsed := r.lastUsed
  clientID := r.clientID
  connectorID := r.connectorID
  connectorData := r.connectorData
  scopes := r.scopes
  nonce := r.nonce
  claims := fromStorageClaims r.claims

structure Keys where
  objectMeta : ObjectMeta
  signingKey : Option Dex.JSONWebKey
  signingKeyPub : Option Dex.JSONWebKey
  verificationKeys : List Dex.VerificationKey
  nextRotation : Time
  deriving DecidableEq

def fromStorageKeys (keys : Dex.Keys) : Keys where
  objectMeta := { name := keysName }
  signingKey := keys.signingKey
  signingKeyPub := keys.signingKeyPub
  verificationKeys := keys.verificationKeys
  nextRotation := keys.nextRotation

def toStorageKeys (keys : Keys) : Dex.Keys where
  signingKey := keys.signingKey
  signingKeyPub := keys.signingKeyPub
  verificationKeys := keys.verificationKeys
  nextRotation := keys.nextRotation

structure OfflineSessions where
  objectMeta : ObjectMeta
  userID : String
  connID : String
  refresh : Table String Dex.RefreshTokenRef
  deriving DecidableEq

def fromStorageOfflineSessions (o : Dex.OfflineSessions) : OfflineSessions where
  objectMeta := { name := offlineTokenName o.userID o.connID }
  userID := o.userID
  connID := o.connID
  refresh := o.refresh

def toStorageOfflineSessions (o : OfflineSessions) : Dex.OfflineSessions where
  userID := o.userID
  connID := o.connID
  refresh := o.refresh

structure Connector where
  objectMeta : ObjectMeta
  id : String
  type : String
  name : String
  resourceVersion : String
  config : List UInt8
  deriving DecidableEq

def fromStorageConnector (c : Dex.StorageConnector) : Connector where
  objectMeta := { name := c.id }
  id := c.id
  type := c.type
  name := c.name
  resourceVersion := c.resourceVersion
  config := c.config

def toStorageConnector (c : Connector) : Dex.StorageConnector where
  id := c.id
  type := c.type
  name := c.name
  resourceVersion := c.resourceVersion
  config := c.config

@[reducible] def Doc : Kind → Type
  | .client => Client
  | .authCode => AuthCode
  | .refreshToken => RefreshToken
  | .authRequest => AuthRequest
  | .password => Password
  | .offlineSessions => OfflineSessions
  | .connector => Connector
  | .keys => Keys

def fromStorage (u : CaseTable) : (k : Kind) → Obj k → Doc k
  | .client => fromStorageClient
  | .authCode => fromStorageAuthCode
  | .refreshToken => fromStorageRefreshToken
  | .authRequest => fromStorageAuthRequest
  | .password => fromStoragePassword u
  | .offlineSessions => fromStorageOfflineSessions
  | .connector => fromStorageConnector
  | .keys => fromStorageKeys

def toStorage : (k : Kind) → Doc k → Obj k
  | .client => toStorageClient
  | .authCode => toStorageAuthCode
  | .refreshToken => toStorageRefreshToken
  | .authRequest => toStorageAuthRequest
  | .password => toStoragePassword
  | .offlineSessions => toStorageOfflineSessions
  | .connector => toStorageConnector
  | .keys => toStorageKeys

def objectMeta : (k : Kind) → Doc k → ObjectMeta
  | .client => Client.objectMeta
  | .authCode => AuthCode.objectMeta
  | .refreshToken => RefreshToken.objectMeta
  | .authRequest => AuthRequest.objectMeta
  | .password => Password.objectMeta
  | .offlineSessions => OfflineSessions.objectMeta
  | .connector => Connector.objectMeta
  | .keys => Keys.objectMeta

def setObjectMeta (m : ObjectMeta) : (k : Kind) → Doc k → Doc k
  | .client, c => { c with objectMeta := m }
  | .authCode, c => { c with objectMeta := m }
  | .refreshToken, r => { r with objectMeta := m }
  | .authRequest, a => { a with objectMeta := m }
  | .password, p => { p with objectMeta := m }
  | .offlineSessions, o => { o with objectMeta := m }
  | .connector, c => { c with objectMeta := m }
  | .keys, keys => { keys with objectMeta := m }

@[simp] theorem objectMeta_set (m : ObjectMeta) (k : Kind) (d : Doc k) :
    objectMeta k (setObjectMeta m k d) = m := by
  cases k <;> rfl

theorem toStorage_set {m k d} (h : m.name = (objectMeta k d).name) :
    toStorage k (setObjectMeta m k d) = toStorage k d := by
  cases k
  case authCode | refreshToken | authRequest => simp_all [toStorage, setObjectMeta, objectMeta,
    toStorageAuthCode, toStorageRefreshToken, toStorageAuthRequest]
  all_goals rfl

/-! ## Requests -/

inductive Request where
  | get (k : Kind) (name : String)
  | list (k : Kind)
  | post (k : Kind) (v : Doc k)
  | put (k : Kind) (name : String) (v : Doc k)
  | delete (k : Kind) (name : String)

@[reducible] def Reply : Request → Type
  | .get k _ => Doc k
  | .list k => List (Doc k)
  | .post _ _ | .put _ _ _ | .delete _ _ => Unit

/-- The calls of a process that uses the API server and, besides, what `S` has. -/
inductive Op (S : Sig) where
  | api (q : Request)
  | other (o : S.Op)

@[reducible] def Res {S : Sig} : Op S → Type
  | .api q => Except Error (Reply q)
  | .other o => S.Res o

abbrev sig (S : Sig) : Sig := ⟨Op S, Res⟩

abbrev Conn (S : Sig) := Prog (sig S)

section
variable {S : Sig} (u : CaseTable)

abbrev request (q : Request) : Conn S (Except Error (Reply q)) := Prog.op (S := sig S) (.api q)

/-! ## The methods -/

def createAuthRequest (a : Dex.AuthRequest) : Conn S (Except Error Unit) :=
  request (.post .authRequest (fromStorageAuthRequest a))

def createClient (c : Dex.Client) : Conn S (Except Error Unit) :=
  request (.post .client (fromStorageClient c))

def createAuthCode (c : Dex.AuthCode) : Conn S (Except Error Unit) :=
  request (.post .authCode (fromStorageAuthCode c))

def createPassword (p : Dex.Password) : Conn S (Except Error Unit) :=
  request (.post .password (fromStoragePassword u p))

def createRefresh (r : Dex.RefreshToken) : Conn S (Except Error Unit) :=
  request (.post .refreshToken (fromStorageRefreshToken r))

def createOfflineSessions (o : Dex.OfflineSessions) : Conn S (Except Error Unit) :=
  request (.post .offlineSessions (fromStorageOfflineSessions o))

def createConnector (c : Dex.StorageConnector) : Conn S (Except Error Unit) :=
  request (.post .connector (fromStorageConnector c))

/-- A get, and the check that the object is the one that was meant. -/
def fetch (k : Kind) (name : String) (wrong : Doc k → Option Error) : Conn S (Except Error (Doc k)) := do
  match ← request (.get k name) with
  | .error e => return .error e
  | .ok v =>
    match wrong v with
    | some e => return .error e
    | none => return .ok v

/-- `getClient` -/
def fetchClient (id : String) : Conn S (Except Error Client) :=
  fetch .client (idToName id) fun c =>
    if c.id ≠ id then
      some (.other ("get client: ID " ++ quote id ++ " mapped to client with ID " ++ quote c.id))
    else none

/-- `getPassword` -/
def fetchPassword (email : String) : Conn S (Except Error Password) :=
  fetch .password (idToName (u.lower email)) fun p =>
    if u.lower email ≠ p.email then
      some (.other ("get email: email " ++ quote (u.lower email) ++ " mapped to password with email " ++
        quote p.email))
    else none

/-- `getRefreshToken` -/
def fetchRefreshToken (id : String) : Conn S (Except Error RefreshToken) :=
  fetch .refreshToken id fun _ => none

/-- `getOfflineSessions` -/
def fetchOfflineSessions (userID connID : String) : Conn S (Except Error OfflineSessions) :=
  fetch .offlineSessions (offlineTokenName userID connID) fun o =>
    if userID ≠ o.userID ∨ connID ≠ o.connID then
      some (.other "get offline session: wrong session retrieved")
    else none

/-- The exported `Get` methods. -/
def getObject (k : Kind) (get : Conn S (Except Error (Doc k))) : Conn S (Except Error (Obj k)) := do
  match ← get with
  | .error e => return .error e
  | .ok v => return .ok (toStorage k v)

def getAuthRequest (id : String) : Conn S (Except Error Dex.AuthRequest) :=
  getObject .authRequest (request (.get .authRequest id))

def getAuthCode (id : String) : Conn S (Except Error Dex.AuthCode) :=
  getObject .authCode (request (.get .authCode id))

def getClient (id : String) : Conn S (Except Error Dex.Client) :=
  getObject .client (fetchClient id)

def getPassword (email : String) : Conn S (Except Error Dex.Password) :=
  getObject .password (fetchPassword u email)

def getKeys : Conn S (Except Error Dex.Keys) := getObject .keys (request (.get .keys keysName))

def getRefresh (id : String) : Conn S (Except Error Dex.RefreshToken) :=
  getObject .refreshToken (fetchRefreshToken id)

def getOfflineSessions (userID connID : String) : Conn S (Except Error Dex.OfflineSessions) :=
  getObject .offlineSessions (fetchOfflineSessions userID connID)

def getConnector (id : String) : Conn S (Except Error Dex.StorageConnector) :=
  getObject .connector (request (.get .connector id))

def listObjects (k : Kind) (what : String) : Conn S (Except Error (List (Obj k))) := do
  match ← request (.list k) with
  | .error e => return .error (.other ("failed to list " ++ what ++ ": " ++ e.text))
  | .ok items => return .ok (items.map (toStorage k))

def listPasswords : Conn S (Except Error (List Dex.Password)) := listObjects .password "passwords"

def listConnectors : Conn S (Except Error (List Dex.StorageConnector)) :=
  listObjects .connector "connectors"

def deleteAuthRequest (id : String) : Conn S (Except Error Unit) := request (.delete .authRequest id)

def deleteAuthCode (code : String) : Conn S (Except Error Unit) := request (.delete .authCode code)

def deleteRefresh (id : String) : Conn S (Except Error Unit) := request (.delete .refreshToken id)

def deleteConnector (id : String) : Conn S (Except Error Unit) := request (.delete .connector id)

/-- The `Delete` methods that check for a hash collision first. -/
def deleteFetched (k : Kind) (get : Conn S (Except Error (Doc k))) : Conn S (Except Error Unit) := do
  match ← get with
  | .error e => return .error e
  | .ok v => request (.delete k (objectMeta k v).name)

def deleteClient (id : String) : Conn S (Except Error Unit) := deleteFetched .client (fetchClient id)

def deletePassword (email : String) : Conn S (Except Error Unit) :=
  deleteFetched .password (fetchPassword u email)

def deleteOfflineSessions (userID connID : String) : Conn S (Except Error Unit) :=
  deleteFetched .offlineSessions (fetchOfflineSessions userID connID)

/-- The `Update` methods: get, update, put back under the metadata that came with
the get. `fix` is what a method does to the updated object before it is
converted. What the updater was called on is returned with success. -/
def updateObject (k : Kind) (get : Conn S (Except Error (Doc k))) (name : Doc k → String)
    (fix : Doc k → Obj k → Obj k) (updater : Obj k → Outcome (Obj k)) : Conn S (Outcome (Obj k)) := do
  match ← get with
  | .error e => return .error e
  | .ok old =>
    match updater (toStorage k old) with
    | .error e => return .error e
    | .panic => return .panic
    | .ok updated =>
      let new := setObjectMeta (objectMeta k old) k (fromStorage u k (fix old updated))
      match ← request (.put k (name old) new) with
      | .error e => return .error e
      | .ok () => return .ok (toStorage k old)

def updateRefreshToken (id : String) (updater : Dex.RefreshToken → Outcome Dex.RefreshToken) :
    Conn S (Outcome Dex.RefreshToken) :=
  updateObject u .refreshToken (fetchRefreshToken id) (fun r => r.objectMeta.name)
    (fun _ updated => { updated with id := id }) updater

def updateClient (id : String) (updater : Dex.Client → Outcome Dex.Client) :
    Conn S (Outcome Dex.Client) :=
  updateObject u .client (fetchClient id) (fun c => c.objectMeta.name)
    (fun c updated => { updated with id := c.id }) updater

def updatePassword (email : String) (updater : Dex.Password → Outcome Dex.Password) :
    Conn S (Outcome Dex.Password) :=
  updateObject u .password (fetchPassword u email) (fun p => p.objectMeta.name)
    (fun p updated => { updated with email := p.email }) updater

def updateOfflineSessions (userID connID : String)
    (updater : Dex.OfflineSessions → Outcome Dex.OfflineSessions) :
    Conn S (Outcome Dex.OfflineSessions) :=
  updateObject u .offlineSessions (fetchOfflineSessions userID connID) (fun o => o.objectMeta.name)
    (fun _ updated => updated) updater

def updateAuthRequest (id : String) (updater : Dex.AuthRequest → Outcome Dex.AuthRequest) :
    Conn S (Outcome Dex.AuthRequest) :=
  updateObject u .authRequest (request (.get .authRequest id)) (fun _ => id)
    (fun _ updated => updated) updater

def updateConnector (id : String) (updater : Dex.StorageConnector → Outcome Dex.StorageConnector) :
    Conn S (Outcome Dex.StorageConnector) :=
  updateObject u .connector (request (.get .connector id)) (fun _ => id)
    (fun _ updated => updated) updater

def updateKeys (updater : Dex.Keys → Outcome Dex.Keys) : Conn S (Outcome Dex.Keys) := do
  match ← request (.get .keys keysName) with
  | .ok keys =>
    match updater (toStorageKeys keys) with
    | .error e => return .error e
    | .panic => return .panic
    | .ok updated =>
      let newKeys := { fromStorageKeys updated with objectMeta := keys.objectMeta }
      match ← request (.put .keys keysName newKeys) with
      | .error e => return .error e
      | .ok () => return .ok (toStorageKeys keys)
  | .error e =>
    if e ≠ .notFound then return .error e
    match updater {} with
    | .error e => return .error e
    | .panic => return .panic
    | .ok updated =>
      match ← request (.post .keys (fromStorageKeys updated)) with
      | .error e => return .error e
      | .ok () => return .ok {}

/-- A deletion loop of `GarbageCollect`: errors do not stop it, the last one is
reported. -/
def deleteNames (k : Kind) (what : String) : List String → Option Error → Conn S (Option Error)
  | [], delErr => return delErr
  | name :: names, delErr => do
    match ← request (.delete k name) with
    | .error e => deleteNames k what names (some (.other ("failed to delete " ++ what ++ ": " ++ e.text)))
    | .ok () => deleteNames k what names delErr

def garbageCollect (now : Time) : Conn S (GCResult × Option Error) := do
  match ← request (.list .authRequest) with
  | .error e => return (⟨0, 0⟩, some (.other ("failed to list auth requests: " ++ e.text)))
  | .ok authRequests =>
    let requests := authRequests.filter fun a => decide (now > a.expiry)
    match ← deleteNames .authRequest "auth request" (requests.map (·.objectMeta.name)) none with
    | some delErr => return (⟨requests.length, 0⟩, some delErr)
    | none =>
      match ← request (.list .authCode) with
      | .error e =>
        return (⟨requests.length, 0⟩, some (.other ("failed to list auth codes: " ++ e.text)))
      | .ok authCodes =>
        let codes := authCodes.filter fun a => decide (now > a.expiry)
        let delErr ← deleteNames .authCode "auth code" (codes.map (·.objectMeta.name)) none
        return (⟨requests.length, codes.length⟩, delErr)

end

/-! ## The API server -/

/-- The objects with the resource version of their last write. An object is stored
under the name in its metadata. -/
structure Api where
  store : Versioned Kind Doc
  named : ∀ k name v n, store.lookup k name = some (v, n) → (objectMeta k v).name = name

namespace Api

def empty : Api := ⟨.empty, fun _ _ _ _ h => by cases h⟩

def write (a : Api) (k : Kind) (v : Doc k) : Api where
  store := a.store.write k (objectMeta k v).name v
  named := fun k' name v' n h => by
    by_cases he : (k', name) = (k, (objectMeta k v).name)
    · cases he
      rw [Versioned.lookup_write_self] at h
      cases h
      rfl
    · exact a.named k' name v' n (Versioned.lookup_write_ne v he ▸ h)

def remove (a : Api) (k : Kind) (name : String) : Api where
  store := a.store.remove k name
  named := fun k' name' v' n h => by
    by_cases he : (k', name') = (k, name)
    · cases he
      rw [Versioned.lookup_remove_self] at h
      cases h
    · exact a.named k' name' v' n (Versioned.lookup_remove_ne he ▸ h)

/-- An object as it is served, with its current resource version. -/
def stamp (k : Kind) (v : Doc k × Nat) : Doc k :=
  setObjectMeta ⟨(objectMeta k v.1).name, some v.2⟩ k v.1

/-- A conflict, or a name that is not the one in the body. -/
def rejected : Error := .other "response from server"

def serve : (q : Request) → Api → Except Error (Reply q) × Api
  | .get k name, a =>
    match a.store.lookup k name with
    | none => (.error .notFound, a)
    | some v => (.ok (stamp k v), a)
  | .list k, a => (.ok ((a.store.tables k).entries.map fun e => stamp k e.2), a)
  | .post k v, a =>
    match a.store.lookup k (objectMeta k v).name with
    | some _ => (.error .alreadyExists, a)
    | none => (.ok (), a.write k v)
  | .put k name v, a =>
    match a.store.lookup k name with
    | none => (.error .notFound, a)
    | some old =>
      if name = (objectMeta k v).name ∧ (objectMeta k v).resourceVersion = some old.2 then
        (.ok (), a.write k v)
      else (.error rejected, a)
  | .delete k name, a =>
    match a.store.lookup k name with
    | none => (.error .notFound, a)
    | some _ => (.ok (), a.remove k name)

end Api

/-- A request is answered, or fails without effect; `other` is for the rest. -/
inductive Ans (A : Type) where
  | done
  | fail
  | other (a : A)

section
variable {S : Sig} {A W : Type}

def exec (outer : (o : S.Op) → A → W → Option (S.Res o × W)) :
    (o : Op S) → Ans A → Api × W → Option (Res o × (Api × W))
  | .api q, .done, (a, w) => some ((a.serve q).1, ((a.serve q).2, w))
  | .api _, .fail, s => some (.error failure, s)
  | .other o, .other ans, (a, w) => (outer o ans w).map fun (r, w) => (r, (a, w))
  | _, _, _ => none

variable {outer : (o : S.Op) → A → W → Option (S.Res o × W)} {ans : Ans A} {s s' : Api × W}

theorem exec_api {q r} (h : exec outer (.api q) ans s = some (r, s')) :
    (r = (s.1.serve q).1 ∧ s' = ((s.1.serve q).2, s.2)) ∨ (r = .error failure ∧ s' = s) := by
  cases ans with
  | done => exact .inl (Prod.mk.inj (some.inj h.symm))
  | fail => exact .inr (Prod.mk.inj (some.inj h.symm))
  | other a => cases h

theorem exec_other {o r} (h : exec outer (.other o) ans s = some (r, s')) : s'.1 = s.1 := by
  cases ans with
  | done | fail => cases h
  | other a =>
    obtain ⟨⟨r', w⟩, _, he⟩ := map_eq_some_iff.mp h
    cases he
    rfl

end

/-- Requests of one process alone, all of them answered. -/
def respond : (o : Op nothing) → Api → Res o × Api
  | .api q, a => a.serve q
  | .other o, a => (Empty.elim o, a)

/-! ## What a request does -/

namespace Api
variable {a : Api} {k : Kind} {name : String} {v : Doc k}

theorem stamp_name (k : Kind) (v : Doc k × Nat) : (objectMeta k (stamp k v)).name = (objectMeta k v.1).name := by
  simp [stamp]

theorem toStorage_stamp (k : Kind) (v : Doc k × Nat) : toStorage k (stamp k v) = toStorage k v.1 :=
  toStorage_set rfl

theorem serve_get_ok {d} (h : (a.serve (.get k name)).1 = .ok d) :
    ∃ v, a.store.lookup k name = some v ∧ d = stamp k v := by
  cases hl : a.store.lookup k name with
  | none => simp [serve, hl] at h
  | some v =>
    simp only [serve, hl, Except.ok.injEq] at h
    exact ⟨v, rfl, h.symm⟩

theorem serve_post (v : Doc k) :
    (a.store.lookup k (objectMeta k v).name = none ∧ a.serve (.post k v) = (.ok (), a.write k v)) ∨
    a.serve (.post k v) = (.error .alreadyExists, a) := by
  cases hl : a.store.lookup k (objectMeta k v).name with
  | none => exact .inl ⟨rfl, by simp [serve, hl]⟩
  | some _ => exact .inr (by simp [serve, hl])

theorem serve_put (name : String) (v : Doc k) :
    (∃ old, a.store.lookup k name = some old ∧ name = (objectMeta k v).name ∧
      (objectMeta k v).resourceVersion = some old.2 ∧ a.serve (.put k name v) = (.ok (), a.write k v)) ∨
    ∃ e, a.serve (.put k name v) = (.error e, a) := by
  cases hl : a.store.lookup k name with
  | none => exact .inr ⟨.notFound, by simp [serve, hl]⟩
  | some old =>
    by_cases hv : name = (objectMeta k v).name ∧ (objectMeta k v).resourceVersion = some old.2
    · exact .inl ⟨old, rfl, hv.1, hv.2, by simp only [serve, hl, if_pos hv]⟩
    · exact .inr ⟨rejected, by simp only [serve, hl, if_neg hv]⟩

theorem serve_delete (name : String) :
    (∃ old, a.store.lookup k name = some old ∧ a.serve (.delete k name) = (.ok (), a.remove k name)) ∨
    a.serve (.delete k name) = (.error .notFound, a) := by
  cases hl : a.store.lookup k name with
  | none => exact .inr (by simp [serve, hl])
  | some old => exact .inl ⟨old, rfl, by simp [serve, hl]⟩

theorem serve_get_same : (a.serve (.get k name)).2 = a := by
  cases hl : a.store.lookup k name <;> simp [serve, hl]

theorem serve_advance (q : Request) :
    Advance (fun a : Api => a.store.cell) (fun a => a.store.revision) a (a.serve q).2 := by
  have hwrite : ∀ {k : Kind} (v : Doc k),
      Advance (fun a : Api => a.store.cell) (fun a => a.store.revision) a (a.write k v) :=
    fun v => ⟨(Versioned.write_advance v).rev_le, (Versioned.write_advance v).cell⟩
  cases q with
  | get k name => exact serve_get_same.symm ▸ .refl a
  | list k => exact .refl a
  | post k v =>
    rcases serve_post v with ⟨_, h⟩ | h
    · exact h ▸ hwrite v
    · exact h ▸ .refl a
  | put k name v =>
    rcases serve_put name v with ⟨_, _, _, _, h⟩ | ⟨_, h⟩
    · exact h ▸ hwrite v
    · exact h ▸ .refl a
  | delete k name =>
    rcases serve_delete name with ⟨_, _, h⟩ | h
    · have ha : Advance Versioned.cell Versioned.revision a.store (a.store.remove k name) :=
        Versioned.remove_advance
      exact h ▸ ⟨ha.rev_le, ha.cell⟩
    · exact h ▸ .refl a

end Api

end KubeYamls.Store.Kubernetes
