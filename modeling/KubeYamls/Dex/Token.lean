import KubeYamls.Dex.Login

/-! # The token endpoint and the revocation call

`handleToken`, `handleAuthCode` and `handleRefreshToken` of
`dex/server/handlers.go`, and `RevokeRefresh` of `dex/server/api.go`. -/
namespace KubeYamls.Dex
open Data Conc

structure TokenRequest where
  /-- the user name and password of the Authorization header -/
  basicAuth : Option (String × String) := none
  clientID : String := ""
  clientSecret : String := ""
  grantType : String := ""
  code : String := ""
  redirectURI : String := ""
  refreshToken : String := ""
  scope : String := ""
  deriving DecidableEq

def writeAccessToken (idToken : IDToken) (accessToken refreshToken : String) (expiry : Time) :
    Handler Unit := do
  note (.writeAccessToken idToken accessToken refreshToken)
  let t ← now
  write (.token ⟨accessToken, "bearer", seconds (expiry - t), refreshToken, idToken⟩)

/-! ## The exchange of a code -/

/-- `reqRefresh`. A connector that cannot be found is answered with an error
here, and the handler goes on without a refresh token. -/
def reqRefresh (authCode : AuthCode) : Handler Bool := do
  match ← getConnector authCode.connectorID with
  | .error _ => do
    tokenErrHelper errServerError "" 500
    return false
  | .ok conn =>
    if !conn.connector.refresh then return false
    else return authCode.scopes.contains scopeOfflineAccess

/-- The refresh token `handleAuthCode` creates. -/
def refreshOf (authCode : AuthCode) (id token : String) (createdAt lastUsed : Time) : RefreshToken where
  id := id
  token := token
  clientID := authCode.clientID
  connectorID := authCode.connectorID
  scopes := authCode.scopes
  claims := authCode.claims
  nonce := authCode.nonce
  connectorData := authCode.connectorData
  createdAt := createdAt
  lastUsed := lastUsed

def RefreshToken.ref (refresh : RefreshToken) : RefreshTokenRef where
  id := refresh.id
  clientID := refresh.clientID
  createdAt := refresh.createdAt
  lastUsed := refresh.lastUsed

/-- The updater with which `handleAuthCode` installs a reference. -/
def setTokenRef (tokenRef : RefreshTokenRef) (old : OfflineSessions) : Outcome OfflineSessions :=
  .ok { old with refresh := old.refresh.insert tokenRef.clientID tokenRef }

def newOfflineSessions (refresh : RefreshToken) : OfflineSessions where
  userID := refresh.claims.userID
  connID := refresh.connectorID
  refresh := (∅ : Table String RefreshTokenRef).insert refresh.ref.clientID refresh.ref

/-- A failure after the refresh token was created: the error is reported, and
the deferred function deletes the token. -/
def discardRefresh (refresh : RefreshToken) : Handler Unit := do
  tokenErrHelper errServerError "" 500
  match ← call (.deleteRefresh refresh.id) with
  | .error _ => tokenErrHelper errServerError "" 500
  | .ok () => return ()

/-- The last storage call of `handleAuthCode`, when the session exists. -/
def replaceRef (refresh : RefreshToken) (session : OfflineSessions) (finish : Handler Unit) :
    Handler Unit := do
  match ← call (.updateOfflineSessions session.userID session.connID (setTokenRef refresh.ref)) with
  | .ok _ => finish
  | _ => discardRefresh refresh

/-- The part of `handleAuthCode` that ties the new refresh token to the session
of its user. -/
def storeRef (refresh : RefreshToken) (finish : Handler Unit) : Handler Unit := do
  match ← call (.getOfflineSessions refresh.claims.userID refresh.connectorID) with
  | .error .notFound => do
    match ← call (.createOfflineSessions (newOfflineSessions refresh)) with
    | .ok () => finish
    | .error _ => discardRefresh refresh
  | .error _ => discardRefresh refresh
  | .ok session =>
    match session.refresh.lookup refresh.ref.clientID with
    | some oldTokenRef => do
      match ← call (.deleteRefresh oldTokenRef.id) with
      | .ok () => replaceRef refresh session finish
      | .error _ => discardRefresh refresh
    | none => replaceRef refresh session finish

/-- The part of `handleAuthCode` after the code was deleted. -/
def redeem (authCode : AuthCode) (idToken : IDToken) (expiry : Time) (accessToken : String) :
    Handler Unit := do
  if ← reqRefresh authCode then do
    let id ← newID
    let token ← newID
    let createdAt ← now
    let lastUsed ← now
    let refresh := refreshOf authCode id token createdAt lastUsed
    match ← call (.marshal id token) with
    | .error _ => tokenErrHelper errServerError "" 500
    | .ok refreshToken => do
      match ← call (.createRefresh refresh) with
      | .error _ => tokenErrHelper errServerError "" 500
      | .ok () => storeRef refresh (writeAccessToken idToken accessToken refreshToken expiry)
  else writeAccessToken idToken accessToken "" expiry

/-- The part of `handleAuthCode` after its checks. -/
def exchange (c : Config) (client : Client) (code : String) (authCode : AuthCode) : Handler Unit := do
  let accessToken ← newID
  match ← newIDToken c client.id authCode.claims authCode.scopes authCode.nonce accessToken
      authCode.connectorID with
  | .error _ => tokenErrHelper errServerError "" 500
  | .ok (idToken, expiry) => do
    match ← call (.deleteAuthCode code) with
    | .error _ => tokenErrHelper errServerError "" 500
    | .ok () => redeem authCode idToken expiry accessToken

def handleAuthCode (c : Config) (r : TokenRequest) (client : Client) : Handler Unit := do
  match ← call (.getAuthCode r.code) with
  | .error .notFound => tokenErrHelper errInvalidRequest "Invalid or expired code parameter." 400
  | .error _ => tokenErrHelper errServerError "" 500
  | .ok authCode => do
    let t ← now
    if t > authCode.expiry ∨ authCode.clientID ≠ client.id then
      -- err is nil here, which is not storage.ErrNotFound
      tokenErrHelper errServerError "" 500
    else if authCode.redirectURI ≠ r.redirectURI then
      tokenErrHelper errInvalidRequest "redirect_uri did not match URI from initial request." 400
    else exchange c client r.code authCode

/-! ## The refresh -/

def invalidRefresh : Handler Unit :=
  tokenErrHelper errInvalidRequest
    "Refresh token is invalid or has already been claimed by another client." 400

/-- The pair a `refresh_token` value stands for. What does not decode is taken
for the raw ID of a token that has no `Token` value. -/
def decodeRefresh (codec : Codec) (code : String) : String × String :=
  (codec.unmarshal code).getD (code, "")

/-- `requestedScopes` that the refresh token does not have. -/
def unauthorizedScopes (refresh : RefreshToken) (scope : String) : List String :=
  (fields scope).filter fun s => !refresh.scopes.contains s

/-- `scopes`: the original ones unless the client asks for fewer. -/
def refreshScopes (refresh : RefreshToken) (scope : String) : List String :=
  if scope = "" then refresh.scopes else fields scope

/-- `ident` -/
def RefreshToken.identity (refresh : RefreshToken) : Identity where
  userID := refresh.claims.userID
  username := refresh.claims.username
  email := refresh.claims.email
  emailVerified := refresh.claims.emailVerified
  groups := refresh.claims.groups
  connectorData := refresh.connectorData

/-- The updater of the refresh token. The user ID stays as it is. -/
def claimUpdater (refresh : RefreshToken) (newToken : String) (ident : Identity) (lastUsed : Time)
    (old : RefreshToken) : Outcome RefreshToken :=
  if old.token ≠ refresh.token then .error (.other "refresh token claimed twice")
  else .ok { old with
    token := newToken
    claims := { old.claims with
      username := ident.username
      email := ident.email
      emailVerified := ident.emailVerified
      groups := ident.groups }
    connectorData := ident.connectorData
    lastUsed := lastUsed }

/-- The updater of the offline session. A reference that is not there is a nil
pointer, and its ID is read without a check. -/
def touchUpdater (refresh : RefreshToken) (lastUsed : Time) (old : OfflineSessions) :
    Outcome OfflineSessions :=
  match old.refresh.lookup refresh.clientID with
  | none => .panic
  | some ref =>
    if ref.id ≠ refresh.id then .error (.other "refresh token invalid")
    else .ok { old with refresh := old.refresh.insert refresh.clientID { ref with lastUsed := lastUsed } }

/-- The two updates of `handleRefreshToken` and its answer. -/
def claimRefresh (refresh : RefreshToken) (ident : Identity) (idToken : IDToken) (expiry : Time)
    (accessToken newToken rawNewToken : String) : Handler Unit := do
  let lastUsed ← now
  match ← call (.updateOfflineSessions refresh.claims.userID refresh.connectorID
      (touchUpdater refresh lastUsed)) with
  | .error _ => tokenErrHelper errServerError "" 500
  -- the panic unwinds the handler; net/http closes the connection without an answer
  | .panic => return ()
  | .ok _ => do
    match ← call (.updateRefreshToken refresh.id (claimUpdater refresh newToken ident lastUsed)) with
    | .ok _ => writeAccessToken idToken accessToken rawNewToken expiry
    | _ => tokenErrHelper errServerError "" 500

/-- `handleRefreshToken` once the identity is known. -/
def reissue (c : Config) (client : Client) (refresh : RefreshToken) (scopes : List String)
    (ident : Identity) : Handler Unit := do
  let accessToken ← newID
  match ← newIDToken c client.id ident.claims scopes refresh.nonce accessToken refresh.connectorID with
  | .error _ => tokenErrHelper errServerError "" 500
  | .ok (idToken, expiry) => do
    let newToken ← newID
    match ← call (.marshal refresh.id newToken) with
    | .error _ => tokenErrHelper errServerError "" 500
    | .ok rawNewToken => claimRefresh refresh ident idToken expiry accessToken newToken rawNewToken

/-- `handleRefreshToken` once the scopes are known. -/
def refreshIdentity (c : Config) (client : Client) (refresh : RefreshToken) (scopes : List String) :
    Handler Unit := do
  match ← getConnector refresh.connectorID with
  | .error _ => tokenErrHelper errServerError "" 500
  | .ok conn =>
    if conn.connector.refresh then do
      match ← call (.refreshIdentity refresh.connectorID (parseScopes scopes) refresh.identity) with
      | .error _ => tokenErrHelper errServerError "" 500
      | .ok newIdent => reissue c client refresh scopes newIdent
    else reissue c client refresh scopes refresh.identity

def handleRefreshToken (c : Config) (codec : Codec) (r : TokenRequest) (client : Client) :
    Handler Unit := do
  if r.refreshToken = "" then
    tokenErrHelper errInvalidRequest "No refresh token in request." 400
  else
    let token := decodeRefresh codec r.refreshToken
    match ← call (.getRefresh token.1) with
    | .error .notFound => invalidRefresh
    | .error _ => tokenErrHelper errServerError "" 500
    | .ok refresh =>
      if refresh.clientID ≠ client.id then invalidRefresh
      else if refresh.token ≠ token.2 then invalidRefresh
      else if r.scope ≠ "" ∧ unauthorizedScopes refresh r.scope ≠ [] then
        tokenErrHelper errInvalidRequest
          ("Requested scopes contain unauthorized scope(s): " ++
            quoteAll (unauthorizedScopes refresh r.scope) ++ ".") 400
      else refreshIdentity c client refresh (refreshScopes refresh r.scope)

/-! ## handleToken -/

def credentials (r : TokenRequest) : Except String (String × String) :=
  match r.basicAuth with
  | none => .ok (r.clientID, r.clientSecret)
  | some (id, secret) =>
    match queryUnescape id with
    | none => .error "client_id improperly encoded"
    | some id =>
      match queryUnescape secret with
      | none => .error "client_secret improperly encoded"
      | some secret => .ok (id, secret)

def handleToken (c : Config) (codec : Codec) (r : TokenRequest) : Handler Unit := do
  match credentials r with
  | .error msg => tokenErrHelper errInvalidRequest msg 400
  | .ok (clientID, clientSecret) => do
    match ← call (.getClient clientID) with
    | .error .notFound => tokenErrHelper errInvalidClient "Invalid client credentials." 401
    | .error _ => tokenErrHelper errServerError "" 500
    | .ok client =>
      if client.secret ≠ clientSecret then
        tokenErrHelper errInvalidClient "Invalid client credentials." 401
      else if r.grantType = grantTypeAuthorizationCode then handleAuthCode c r client
      else if r.grantType = grantTypeRefreshToken then handleRefreshToken c codec r client
      else tokenErrHelper errInvalidGrant "" 400

/-! ## RevokeRefresh -/

structure RevokeRefreshReq where
  userId : String
  clientId : String

/-- The updater of `RevokeRefresh`: take the reference out of the session. -/
def revokeUpdater (clientId : String) (old : OfflineSessions) : Outcome OfflineSessions :=
  match old.refresh.lookup clientId with
  | none => .error .notFound
  | some refreshRef =>
    if refreshRef.id = "" then .error .notFound
    else .ok { old with refresh := old.refresh.erase clientId }

/-- `refreshID`, which the updater set from the session it was called on. -/
def revokedID (clientId : String) (old : OfflineSessions) : String :=
  match old.refresh.lookup clientId with
  | none => ""
  | some refreshRef => refreshRef.id

def revokeRefresh (codec : Codec) (req : RevokeRefreshReq) : Handler Unit := do
  match codec.unmarshal req.userId with
  | none => write (.rpcError (.other "failed to unmarshal ID Token subject"))
  | some (userId, connId) => do
    match ← call (.updateOfflineSessions userId connId (revokeUpdater req.clientId)) with
    | .error .notFound => write (.revoke true)
    | .error e => write (.rpcError e)
    | .panic => return ()
    | .ok old => do
      match ← call (.deleteRefresh (revokedID req.clientId old)) with
      | .error e => write (.rpcError e)
      | .ok () => write (.revoke false)

end KubeYamls.Dex
