import KubeYamls.Dex.Rotation
import KubeYamls.Dex.Text

/-! # Authorization requests and ID tokens

The functions of `dex/server/oauth2.go`. -/
namespace KubeYamls.Dex
open Conc

def errInvalidRequest := "invalid_request"
def errUnauthorizedClient := "unauthorized_client"
def errUnsupportedResponseType := "unsupported_response_type"
def errServerError := "server_error"
def errInvalidGrant := "invalid_grant"
def errInvalidClient := "invalid_client"

def scopeOfflineAccess := "offline_access"
def scopeOpenID := "openid"
def scopeGroups := "groups"
def scopeEmail := "email"
def scopeProfile := "profile"
def scopeFederatedID := "federated:id"
def scopeCrossClientPrefix := "audience:server:client_id:"

def redirectURIOOB := "urn:ietf:wg:oauth:2.0:oob"

def grantTypeAuthorizationCode := "authorization_code"
def grantTypeRefreshToken := "refresh_token"

theorem refresh_ne_code {g} (h : g = grantTypeRefreshToken) : g ≠ grantTypeAuthorizationCode := by
  simp [h, grantTypeRefreshToken, grantTypeAuthorizationCode]

def responseTypeCode := "code"
def responseTypeToken := "token"
def responseTypeIDToken := "id_token"

def parseScopes (scopes : List String) : ConnScopes :=
  scopes.foldl (fun s scope =>
    if scope = scopeOfflineAccess then { s with offlineAccess := true }
    else if scope = scopeGroups then { s with groups := true }
    else s) {}

/-- `Time.Unix` -/
def unix (t : Time) : Int := t / 1000000000 - 62135596800

def signatureAlgorithm (jwk : JSONWebKey) : Except Error SignatureAlgorithm :=
  match jwk.key with
  | none => .error (.other "no signing key")
  | some (.rsaPrivate _) => .ok .rs256
  | some (.ecdsaPrivate .p256 _) => .ok .es256
  | some (.ecdsaPrivate .p384 _) => .ok .es384
  | some (.ecdsaPrivate .p521 _) => .ok .es512
  | some (.ecdsaPrivate .other _) => .error (.other "unsupported ecdsa curve")
  | some _ => .error (.other "unsupported signing key type")

def parseCrossClientScope (scope : String) : Option String :=
  cutPrefix scopeCrossClientPrefix scope

def validateCrossClientTrust (clientID peerID : String) : Handler (Except Error Bool) := do
  if peerID = clientID then return .ok true
  else
    match ← call (.getClient peerID) with
    | .error .notFound => return .ok false
    | .error e => return .error e
    | .ok peer => return .ok (peer.trustedPeers.contains clientID)

/-- The loop of `newIDToken` over the scopes. -/
def addScopes (clientID : String) (claims : Claims) (connID : String) :
    List String → IDTokenClaims → Handler (Except Error IDTokenClaims)
  | [], tok => return .ok tok
  | scope :: scopes, tok =>
    if scope = scopeEmail then
      addScopes clientID claims connID scopes
        { tok with email := claims.email, emailVerified := some claims.emailVerified }
    else if scope = scopeGroups then
      addScopes clientID claims connID scopes { tok with groups := claims.groups }
    else if scope = scopeProfile then
      addScopes clientID claims connID scopes { tok with name := claims.username }
    else if scope = scopeFederatedID then
      addScopes clientID claims connID scopes
        { tok with federatedIDClaims := some ⟨connID, claims.userID⟩ }
    else match parseCrossClientScope scope with
      | none =>
        -- unknown scopes were already refused by the authorization request
        addScopes clientID claims connID scopes tok
      | some peerID => do
        match ← validateCrossClientTrust clientID peerID with
        | .error e => return .error e
        | .ok false => return .error (.other ("peer (" ++ peerID ++ ") does not trust client"))
        | .ok true =>
          addScopes clientID claims connID scopes { tok with audience := tok.audience ++ [peerID] }

def setAudience (clientID : String) (tok : IDTokenClaims) : IDTokenClaims :=
  if tok.audience = [] then { tok with audience := [clientID] }
  else
    { tok with
      audience := if tok.audience.contains clientID then tok.audience else tok.audience ++ [clientID]
      authorizingParty := clientID }

def newIDToken (c : Config) (clientID : String) (claims : Claims) (scopes : List String)
    (nonce accessToken connID : String) : Handler (Except Error (IDToken × Time)) := do
  note (.newIDToken clientID claims scopes nonce accessToken connID)
  match ← getKeys with
  | .error e => return .error e
  | .ok keys =>
    match keys.signingKey with
    | none => return .error (.other "no key to sign payload with")
    | some signingKey =>
      match signatureAlgorithm signingKey with
      | .error e => return .error e
      | .ok signingAlg => do
        let issuedAt ← now
        let expiry := issuedAt + c.idTokensValidFor
        match ← call (.marshal claims.userID connID) with
        | .error e => return .error e
        | .ok subjectString => do
          let tok : IDTokenClaims :=
            { issuer := c.issuerURL, subject := subjectString, nonce,
              expiry := unix expiry, issuedAt := unix issuedAt,
              accessTokenHash := if accessToken = "" then none else some (signingAlg, accessToken) }
          match ← addScopes clientID claims connID scopes tok with
          | .error e => return .error e
          | .ok tok => do
            match ← call (.signPayload signingKey signingAlg (setAudience clientID tok)) with
            | .error e => return .error e
            | .ok idToken => return .ok (idToken, expiry)

/-! ## The authorization request -/

/-- The form values `parseAuthorizationRequest` reads; `parsed` is whether
`r.ParseForm` succeeded. -/
structure AuthorizationForm where
  parsed : Bool := true
  redirectURI : String := ""
  clientID : String := ""
  state : String := ""
  nonce : String := ""
  scope : String := ""
  responseType : String := ""
  approvalPrompt : String := ""

structure AuthErr where
  state : String
  redirectURI : String
  typ : String
  description : String

/-- `authErr.Status`. It looks at the state, not at the type of the error. -/
def AuthErr.status (err : AuthErr) : Nat := if err.state = errServerError then 500 else 400

def validateRedirectURI (client : Client) (redirectURI : String) : Bool :=
  if !client.isPublic then client.redirectURIs.contains redirectURI
  else if redirectURI = redirectURIOOB then true
  else
    match urlParse redirectURI with
    | none => false
    | some u =>
      if u.scheme ≠ "http" then false
      else if u.host = "localhost" then true
      else splitHostPort u.host.toList = some "localhost".toList

structure ScopeCheck where
  hasOpenIDScope : Bool := false
  unrecognized : List String := []
  invalidScopes : List String := []

def checkScopes (clientID : String) : List String → ScopeCheck → Handler (Except Error ScopeCheck)
  | [], acc => return .ok acc
  | scope :: scopes, acc =>
    if scope = scopeOpenID then checkScopes clientID scopes { acc with hasOpenIDScope := true }
    else if scope ∈ [scopeOfflineAccess, scopeEmail, scopeProfile, scopeGroups, scopeFederatedID] then
      checkScopes clientID scopes acc
    else match parseCrossClientScope scope with
      | none => checkScopes clientID scopes { acc with unrecognized := acc.unrecognized ++ [scope] }
      | some peerID => do
        match ← validateCrossClientTrust clientID peerID with
        | .error e => return .error e
        | .ok true => checkScopes clientID scopes acc
        | .ok false =>
          checkScopes clientID scopes { acc with invalidScopes := acc.invalidScopes ++ [scope] }

/-- `rt`: which response types were asked for. -/
structure ResponseTypes where
  code : Bool := false
  idToken : Bool := false
  token : Bool := false

/-- The loop over the response types; an error is a type and a description. -/
def checkResponseTypes (supported : List String) :
    List String → ResponseTypes → Except (String × String) ResponseTypes
  | [], rt => .ok rt
  | responseType :: rest, rt =>
    let rt' : Option ResponseTypes :=
      if responseType = responseTypeCode then some { rt with code := true }
      else if responseType = responseTypeIDToken then some { rt with idToken := true }
      else if responseType = responseTypeToken then some { rt with token := true }
      else none
    match rt' with
    | none => .error ("invalid_request", "Invalid response type " ++ quote responseType)
    | some rt =>
      if supported.contains responseType then checkResponseTypes supported rest rt
      else .error (errUnsupportedResponseType, "Unsupported response type " ++ quote responseType)

/-- The checks of `parseAuthorizationRequest` after the scopes were looked up. -/
def checkAuthorization (c : Config) (q : AuthorizationForm) (redirectURI : String)
    (responseTypes : List String) (chk : ScopeCheck) : Except (String × String) Unit :=
  if !chk.hasOpenIDScope then .error ("invalid_scope", "Missing required scope(s) [\"openid\"].")
  else if chk.unrecognized ≠ [] then
    .error ("invalid_scope", "Unrecognized scope(s) " ++ quoteAll chk.unrecognized)
  else if chk.invalidScopes ≠ [] then
    .error ("invalid_scope", "Client can't request scope(s) " ++ quoteAll chk.invalidScopes)
  else
    match checkResponseTypes c.supportedResponseTypes responseTypes {} with
    | .error e => .error e
    | .ok rt =>
      if responseTypes = [] then .error ("invalid_requests", "No response_type provided")
      else if rt.token && !rt.code && !rt.idToken then
        .error ("invalid_request",
          "Response type 'token' must be provided with type 'id_token' and/or 'code'")
      else if !rt.code && q.nonce = "" then
        .error ("invalid_request", "Response type 'token' requires a 'nonce' value.")
      else if rt.token && redirectURI = redirectURIOOB then
        .error ("invalid_request",
          "Cannot use response type 'token' with redirect_uri '" ++ redirectURIOOB ++ "'.")
      else .ok ()

/-- The request `parseAuthorizationRequest` returns. -/
def authRequestOf (q : AuthorizationForm) (client : Client) (redirectURI id : String) : AuthRequest where
  id := id
  clientID := client.id
  state := q.state
  nonce := q.nonce
  forceApprovalPrompt := q.approvalPrompt = "force"
  scopes := fields q.scope
  redirectURI := redirectURI
  responseTypes := fields q.responseType

def parseAuthorizationRequest (c : Config) (q : AuthorizationForm) :
    Handler (Except AuthErr AuthRequest) := do
  if !q.parsed then
    return .error ⟨"", "", errInvalidRequest, "Failed to parse request body."⟩
  else
    match queryUnescape q.redirectURI with
    | none => return .error ⟨"", "", errInvalidRequest, "No redirect_uri provided."⟩
    | some redirectURI => do
      match ← call (.getClient q.clientID) with
      | .error .notFound =>
        return .error ⟨"", "", errUnauthorizedClient, "Invalid client_id (" ++ quote q.clientID ++ ")."⟩
      | .error _ => return .error ⟨"", "", errServerError, ""⟩
      | .ok client =>
        if !validateRedirectURI client redirectURI then
          return .error ⟨"", "", errInvalidRequest,
            "Unregistered redirect_uri (" ++ quote redirectURI ++ ")."⟩
        else do
          -- from here on errors are sent back to the client
          match ← checkScopes q.clientID (fields q.scope) {} with
          | .error _ =>
            return .error ⟨q.state, redirectURI, errServerError, "Internal server error."⟩
          | .ok chk =>
            match checkAuthorization c q redirectURI (fields q.responseType) chk with
            | .error (typ, description) => return .error ⟨q.state, redirectURI, typ, description⟩
            | .ok () => do
              let id ← newID
              note (.accepted (authRequestOf q client redirectURI id))
              return .ok (authRequestOf q client redirectURI id)

end KubeYamls.Dex
