import KubeYamls.Dex.System

/-! # What the calls of a handler follow from

For every call that changes the storage, hands out a token or signs one, this
says what its execution has done before: which reads it rests on, which checks
were passed, which request it serves. The handlers are walked once
(`KubeYamls.Dex.Obey`); the invariants of runs use only what is stated here. -/
namespace KubeYamls.Dex
open Conc

/-- The calls of one execution so far, newest first. -/
abbrev Past := List (Ev sig)

/-- The execution has made the call `o` and got the reply `r`. -/
def did (past : Past) (o : Op) (r : Res o) : Prop := (⟨o, r⟩ : Ev sig) ∈ past

/-- It made the first call, and later the second. -/
def didThen (past : Past) (o1 : Op) (r1 : Res o1) (o2 : Op) (r2 : Res o2) : Prop :=
  List.Sublist [⟨o2, r2⟩, ⟨o1, r1⟩] past

/-! ## Login -/

/-- `a` is what `parseAuthorizationRequest` makes of the form it was given. -/
def Parsed (req : Request) (past : Past) (a : AuthRequest) : Prop :=
  ∃ q client redirectURI, req.kind = .authorization q ∧
    a = authRequestOf q client redirectURI a.id ∧ did past .newID a.id

/-- As far as the execution has looked, `peerID` trusts the client. -/
def Trusts (past : Past) (clientID peerID : String) : Prop :=
  peerID = clientID ∨ ∃ peer, did past (.getClient peerID) (.ok peer) ∧ clientID ∈ peer.trustedPeers

def AllTrust (past : Past) (clientID : String) (scopes : List String) : Prop :=
  ∀ scope ∈ scopes, ∀ peerID, parseCrossClientScope scope = some peerID → Trusts past clientID peerID

/-- The client of `a` was found, and every peer that its scopes name trusts it. -/
structure Vetted (req : Request) (past : Past) (a : AuthRequest) (q : AuthorizationForm)
    (client : Client) : Prop where
  kind : req.kind = .authorization q
  read : did past (.getClient q.clientID) (.ok client)
  clientID : a.clientID = client.id
  redirectURI : queryUnescape q.redirectURI = some a.redirectURI
  responseTypes : a.responseTypes = fields q.responseType
  peers : AllTrust past q.clientID a.scopes

/-- The execution asks connector `connID` who the user of request `a` is. -/
inductive LoginVia (req : Request) (past : Past) : AuthRequest → String → Prop where
  | same {r : LoginRequest} {a : AuthRequest} (hk : req.kind = .connectorLogin r)
    (hm : r.method = .post) (hg : did past (.getAuthRequest r.req) (.ok a))
    (hc : a.connectorID = r.connector) : LoginVia req past a r.connector
  | set {r : LoginRequest} {a old : AuthRequest} (hk : req.kind = .connectorLogin r)
    (hm : r.method = .post) (hg : did past (.getAuthRequest r.req) (.ok a))
    (hu : did past (.updateAuthRequest r.req (setConnectorID r.connector)) (.ok old)) :
    LoginVia req past a r.connector
  | callback {r : CallbackRequest} {a : AuthRequest} (hk : req.kind = .connectorCallback r)
    (hg : did past (.getAuthRequest r.authID) (.ok a)) : LoginVia req past a a.connectorID

/-- Connector `connID` has returned `identity` for the request `authReqID`. -/
def Answered (past : Past) (connID authReqID : String) (identity : Identity) : Prop :=
  (∃ scopes username password,
    did past (.login connID authReqID scopes username password) (.ok (some identity))) ∨
  (∃ scopes, did past (.handleCallback connID authReqID scopes) (.ok identity)) ∨
  ∃ scopes resp, did past (.handlePOST connID authReqID scopes resp) (.ok identity)

/-- Nothing was written to the client yet. -/
def Unwritten (past : Past) : Prop := ∀ resp, ¬ did past (.write resp) ()

/-! ## Approval -/

/-- `sendCodeResponse` runs for `a`, which was found logged in and not expired. -/
structure Approves (S : Setup) (req : Request) (past : Past) (r : ApprovalRequest) (a : AuthRequest) :
    Prop where
  kind : req.kind = .approval r
  loggedIn : a.loggedIn = true
  approved : (r.method = .post ∧ r.approval = "approve") ∨
    (r.method = .get ∧ (S.config req.inst).skipApproval = true)
  inTime : ∃ t, t ≤ a.expiry ∧ didThen past (.getAuthRequest r.req) (.ok a) .now t

/-- It has also taken the request out of the storage. -/
structure Sends (S : Setup) (req : Request) (past : Past) (r : ApprovalRequest) (a : AuthRequest) :
    Prop extends Approves S req past r a where
  deleted : did past (.deleteAuthRequest a.id) (.ok ())

def createsCode : Ev sig → Bool
  | ⟨.createAuthCode _, _⟩ => true
  | _ => false

/-! ## Token requests -/

structure Authenticated (req : Request) (past : Past) (r : TokenRequest) (client : Client) : Prop where
  kind : req.kind = .token r
  secret : ∃ id, credentials r = .ok (id, client.secret) ∧ did past (.getClient id) (.ok client)

/-- `handleAuthCode` has checked the code. -/
structure CodeChecked (req : Request) (past : Past) (r : TokenRequest) (client : Client)
    (c : AuthCode) : Prop extends Authenticated req past r client where
  grantType : r.grantType = grantTypeAuthorizationCode
  clientID : c.clientID = client.id
  redirectURI : c.redirectURI = r.redirectURI
  inTime : ∃ t, t ≤ c.expiry ∧ didThen past (.getAuthCode r.code) (.ok c) .now t

/-- It has also taken the code out of the storage. -/
structure CodeClaimed (req : Request) (past : Past) (r : TokenRequest) (client : Client)
    (c : AuthCode) : Prop extends CodeChecked req past r client c where
  deleted : did past (.deleteAuthCode r.code) (.ok ())

/-- `x` is the refresh token made of the code `c`. -/
structure RefreshMade (req : Request) (past : Past) (r : TokenRequest) (client : Client)
    (c : AuthCode) (x : RefreshToken) : Prop extends CodeClaimed req past r client c where
  shape : ∃ t1 t2, x = refreshOf c x.id x.token t1 t2
  id : did past .newID x.id
  token : did past .newID x.token

/-- The refresh token is stored, and its reference is being installed. -/
structure RefreshStored (req : Request) (past : Past) (r : TokenRequest) (client : Client)
    (c : AuthCode) (x : RefreshToken) : Prop extends RefreshMade req past r client c x where
  created : did past (.createRefresh x) (.ok ())

structure OldRef (past : Past) (x : RefreshToken) (session : OfflineSessions)
    (ref : RefreshTokenRef) : Prop where
  read : did past (.getOfflineSessions x.claims.userID x.connectorID) (.ok session)
  lookup : session.refresh.lookup x.clientID = some ref

/-- The token `x` was not given up; at most, its ID was that of the old reference. -/
def Kept (past : Past) (x : RefreshToken) : Prop :=
  ∀ res, did past (.deleteRefresh x.id) res → ∃ session ref, OldRef past x session ref ∧ ref.id = x.id

/-- The reference of `x` was put into a session. -/
def Installed (past : Past) (x : RefreshToken) : Prop :=
  did past (.createOfflineSessions (newOfflineSessions x)) (.ok ()) ∨
  ∃ u c old, did past (.updateOfflineSessions u c (setTokenRef x.ref)) (.ok old)

/-- `handleRefreshToken` has checked the token `x`. -/
structure RefreshChecked (S : Setup) (req : Request) (past : Past) (r : TokenRequest)
    (client : Client) (x : RefreshToken) : Prop extends Authenticated req past r client where
  grantType : r.grantType = grantTypeRefreshToken
  given : r.refreshToken ≠ ""
  read : did past (.getRefresh (decodeRefresh S.codec r.refreshToken).1) (.ok x)
  clientID : x.clientID = client.id
  token : x.token = (decodeRefresh S.codec r.refreshToken).2
  scope : r.scope = "" ∨ unauthorizedScopes x r.scope = []

/-- `ident` is the identity stored with `x`, or what its connector made of it. -/
def Refreshed (past : Past) (x : RefreshToken) (ident : Identity) : Prop :=
  ident = x.identity ∨
  ∃ scopes, did past (.refreshIdentity x.connectorID scopes x.identity) (.ok ident)

/-- The session of `x` was found to hold its reference. -/
def Touched (past : Past) (x : RefreshToken) (lastUsed : Time) : Prop :=
  ∃ old, did past (.updateOfflineSessions x.claims.userID x.connectorID (touchUpdater x lastUsed))
    (.ok old)

/-- The calls on refresh tokens and sessions, all but the first read of a token. -/
def touches : Op → Bool
  | .createRefresh _ | .updateRefreshToken _ _ | .deleteRefresh _ | .createOfflineSessions _
  | .getOfflineSessions _ _ | .updateOfflineSessions _ _ _ => true
  | _ => false

def Untouched (past : Past) : Prop := ∀ o r, touches o = true → ¬ did past o r

/-- No reference was installed, and no token claimed. -/
structure Uninstalled (past : Past) : Prop where
  create : ∀ o, ¬ did past (.createOfflineSessions o) (.ok ())
  update : ∀ u c f o, ¬ did past (.updateOfflineSessions u c f) (.ok o)
  claim : ∀ id f r, ¬ did past (.updateRefreshToken id f) r

/-! ## Keys -/

/-- `k` was cached, and the clock showed `t` when that was accepted. -/
def CachedKeys (past : Past) (k : Keys) (t : Time) : Prop :=
  ∃ rest, past = ⟨.now, t⟩ :: ⟨.loadKeys, some k⟩ :: ⟨.note .keysCall, ()⟩ :: rest ∧ t < k.nextRotation

/-- The keys were read from the storage in a call of `GetKeys` that found no
cached keys to return. -/
def StoredKeys (past : Past) (k : Keys) : Prop :=
  ∃ rest, past = ⟨.getKeys, .ok k⟩ :: ⟨.loadKeys, none⟩ :: ⟨.note .keysCall, ()⟩ :: rest ∨
    ∃ t k', past = ⟨.getKeys, .ok k⟩ :: ⟨.now, t⟩ :: ⟨.loadKeys, some k'⟩ ::
      ⟨.note .keysCall, ()⟩ :: rest

/-- `GetKeys` is about to return `k`. -/
def KeysRead (past : Past) (k : Keys) : Prop :=
  (∃ t, CachedKeys past k t) ∨
  ∃ t rest, StoredKeys rest k ∧ (past = ⟨.now, t⟩ :: rest ∨ past = ⟨.storeKeys k, ()⟩ :: ⟨.now, t⟩ :: rest)

/-- Calls made between the clock reading of `newIDToken` and its signature. -/
def signing : Op → Bool
  | .marshal _ _ | .getClient _ => true
  | _ => false

/-- The clock was read right after `GetKeys` had returned `k`. -/
def IssuedAt (past : Past) (k : Keys) (t : Time) : Prop :=
  ∃ es rest, past = es ++ ⟨.now, t⟩ :: ⟨.note (.keysReturn k), ()⟩ :: rest ∧ ∀ e ∈ es, signing e.1 = true

def mints : Op → Bool
  | .note (.newIDToken _ _ _ _ _ _) => true
  | _ => false

/-- `newIDToken` was called with these arguments, and not again since. -/
def Minting (past : Past) (clientID : String) (claims : Claims) (scopes : List String)
    (nonce accessToken connID : String) : Prop :=
  ∃ es rest, past = es ++ ⟨.note (.newIDToken clientID claims scopes nonce accessToken connID), ()⟩ :: rest ∧
    ∀ e ∈ es, mints e.1 = false

/-! ## The contract -/

/-- Why an updater is applied to an auth request. -/
def AuthRequestUpdate (req : Request) (past : Past) (id : String)
    (f : AuthRequest → Outcome AuthRequest) : Prop :=
  (∃ r, req.kind = .connectorLogin r ∧ id = r.req ∧ f = setConnectorID r.connector ∧
    ∀ a connID, ¬ LoginVia req past a connID) ∨
  ∃ a connID identity, LoginVia req past a connID ∧ Answered past connID a.id identity ∧
    Unwritten past ∧ id = a.id ∧ f = setIdentity identity

/-- Why an updater is applied to an offline session. -/
inductive SessionUpdate (S : Setup) (req : Request) (past : Past) :
    String → String → (OfflineSessions → Outcome OfflineSessions) → Prop where
  | install {r client c x session} (hx : RefreshStored req past r client c x) (hu : Uninstalled past)
    (hk : Kept past x)
    (hs : did past (.getOfflineSessions x.claims.userID x.connectorID) (.ok session))
    (hold : ∀ ref, OldRef past x session ref → did past (.deleteRefresh ref.id) (.ok ())) :
    SessionUpdate S req past session.userID session.connID (setTokenRef x.ref)
  | touch {r client x lastUsed} (hx : RefreshChecked S req past r client x) (hu : Untouched past)
    (hw : Unwritten past) :
    SessionUpdate S req past x.claims.userID x.connectorID (touchUpdater x lastUsed)
  | revoke {r u c} (hk : req.kind = .revokeRefresh r) (hd : S.codec.unmarshal r.userId = some (u, c))
    (hp : past = []) : SessionUpdate S req past u c (revokeUpdater r.clientId)

/-- Why a refresh token is deleted. -/
inductive RefreshDelete (req : Request) (past : Past) : String → Prop where
  | old {r client c x session ref} (hx : RefreshStored req past r client c x) (hu : Uninstalled past)
    (ho : OldRef past x session ref) : RefreshDelete req past ref.id
  | own {r client c x} (hx : RefreshStored req past r client c x) (hu : Uninstalled past) :
    RefreshDelete req past x.id
  | revoke {r u c old} (hk : req.kind = .revokeRefresh r)
    (hp : past = [⟨.updateOfflineSessions u c (revokeUpdater r.clientId), .ok old⟩]) :
    RefreshDelete req past (revokedID r.clientId old)

/-- What `newIDToken` is called with. -/
inductive Mints (S : Setup) (req : Request) (past : Past) :
    String → Claims → List String → String → String → Prop where
  | approval {r a} (h : Sends S req past r a) :
    Mints S req past a.clientID a.claims a.scopes a.nonce a.connectorID
  | code {r client c} (h : CodeChecked req past r client c) :
    Mints S req past client.id c.claims c.scopes c.nonce c.connectorID
  | refresh {r client x} {ident : Identity} (h : RefreshChecked S req past r client x)
    (hi : Refreshed past x ident) :
    Mints S req past client.id ident.claims (refreshScopes x r.scope) x.nonce x.connectorID

/-- When the token endpoint answers with tokens. -/
inductive Hands (S : Setup) (req : Request) (past : Past) : String → Prop where
  | code {r client c} (h : CodeClaimed req past r client c) : Hands S req past ""
  | offline {r client c x raw} (h : RefreshStored req past r client c x) (hi : Installed past x)
    (hm : S.codec.marshal x.id x.token = some raw) : Hands S req past raw
  | refresh {r client x newToken ident lastUsed old raw} (h : RefreshChecked S req past r client x)
    (ht : Touched past x lastUsed)
    (hc : did past (.updateRefreshToken x.id (claimUpdater x newToken ident lastUsed)) (.ok old))
    (hm : S.codec.marshal x.id newToken = some raw) : Hands S req past raw

/-- What an execution that serves `req` has done before it makes a call. -/
def duty (S : Setup) (req : Request) (past : Past) : Op → Prop
  | .note (.accepted a) => Parsed req past a ∧ ∃ q client, Vetted req past a q client
  | .createAuthRequest a => ∃ a0 t, Parsed req past a0 ∧ did past (.note (.accepted a0)) () ∧
    a = { a0 with expiry := t } ∧ ∀ a' r, ¬ did past (.createAuthRequest a') r
  | .updateAuthRequest id f => AuthRequestUpdate req past id f
  | .deleteAuthRequest id => ∃ r a, Approves S req past r a ∧ id = a.id
  | .createAuthCode c => ∃ r a t, Sends S req past r a ∧ c = authCodeOf a c.id t ∧
    did past .newID c.id ∧ (∀ c' r, did past (.createAuthCode c') r → c'.id ≠ c.id) ∧
    past.countP createsCode < a.responseTypes.count responseTypeCode
  | .note (.newIDToken clientID claims scopes nonce _ connID) =>
    Mints S req past clientID claims scopes nonce connID
  | .deleteAuthCode id => ∃ r client c, CodeChecked req past r client c ∧ id = r.code
  | .createRefresh x => (∃ r client c, RefreshMade req past r client c x) ∧ Untouched past
  | .createOfflineSessions o => ∃ r client c x, RefreshStored req past r client c x ∧
    Uninstalled past ∧ Kept past x ∧ o = newOfflineSessions x
  | .updateOfflineSessions u c f => SessionUpdate S req past u c f
  | .deleteRefresh id => RefreshDelete req past id
  | .updateRefreshToken id f => ∃ r client x newToken ident lastUsed,
    RefreshChecked S req past r client x ∧ Touched past x lastUsed ∧ id = x.id ∧
    f = claimUpdater x newToken ident lastUsed ∧ did past .newID newToken ∧
    (∀ x' r', ¬ did past (.createRefresh x') r') ∧ ∀ id' f' r', ¬ did past (.updateRefreshToken id' f') r'
  | .note (.writeAccessToken _ _ refreshToken) => Hands S req past refreshToken
  | .updateKeys f => ∃ n keyID,
    f = rotateUpdater (S.config req.inst) (newSigningKey n keyID) (newSigningKeyPub n keyID)
  | .storeKeys k => ∃ t rest, past = ⟨.now, t⟩ :: rest ∧ t < k.nextRotation ∧ StoredKeys rest k
  | .note (.keysReturn k) => KeysRead past k
  | .signPayload key _ payload =>
    (∃ k t, IssuedAt past k t ∧ k.signingKey = some key ∧ payload.issuedAt = unix t ∧
      payload.expiry = unix (t + (S.config req.inst).idTokensValidFor)) ∧
    ∃ clientID claims scopes accessToken connID,
      Minting past clientID claims scopes payload.nonce accessToken connID ∧
      S.codec.marshal claims.userID connID = some payload.subject
  | .write (.revoke false) => ∃ r u c old, req.kind = .revokeRefresh r ∧
    S.codec.unmarshal r.userId = some (u, c) ∧
    did past (.updateOfflineSessions u c (revokeUpdater r.clientId)) (.ok old)
  | _ => True

/-- What a reply is like, whatever the other executions do. -/
def grant (S : Setup) (past : Past) : (o : Op) → Res o → Prop
  | .newID, s => ¬ did past .newID s
  | .marshal a b, .ok c => S.codec.marshal a b = some c
  | _, _ => True

def contract (S : Setup) (req : Request) : Contract sig := ⟨duty S req, grant S⟩

/-- An execution that created a refresh token has installed its reference or
tried to delete the token, and where it deleted another token for it, it went on
to update the session. -/
structure Settled (past : Past) : Prop where
  created : ∀ x, did past (.createRefresh x) (.ok ()) →
    Installed past x ∨ ∃ res, did past (.deleteRefresh x.id) res
  replaced : ∀ x session ref, did past (.createRefresh x) (.ok ()) → OldRef past x session ref →
    did past (.deleteRefresh ref.id) (.ok ()) → ref.id = x.id ∨
      ∃ u c f res, did past (.updateOfflineSessions u c f) res

/-- The token endpoint has handed out tokens, reported an error, or panicked. -/
def Replied (S : Setup) (req : Request) (past : Past) : Prop :=
  (∃ idToken accessToken refreshToken, Hands S req past refreshToken ∧
    did past (.note (.writeAccessToken idToken accessToken refreshToken)) ()) ∨
  (∃ typ description status, did past (.write (.tokenErr typ description status)) ()) ∨
  ∃ u c f, did past (.updateOfflineSessions u c f) .panic

def post (S : Setup) (req : Request) (past : Past) : Prop :=
  match req.kind with
  | .token _ => Settled past ∧ Replied S req past
  | .revokeRefresh r => ∀ u c old,
    did past (.updateOfflineSessions u c (revokeUpdater r.clientId)) (.ok old) →
    ∃ res, did past (.deleteRefresh (revokedID r.clientId old)) res
  | _ => True

end KubeYamls.Dex
