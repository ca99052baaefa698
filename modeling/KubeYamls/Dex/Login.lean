import KubeYamls.Dex.OAuth2

/-! # The login flow

The browser-facing handlers of `dex/server/handlers.go`, from the authorization
request to the code response, and `getConnector` of `dex/server/server.go`. -/
namespace KubeYamls.Dex
open Conc

inductive Method where
  | get
  | post
  | other
  deriving DecidableEq

def renderError (status : Nat) (description : String) : Handler Unit :=
  write (.renderError status description)

def tokenErrHelper (typ description : String) (status : Nat) : Handler Unit :=
  write (.tokenErr typ description status)

/-! ## Connectors -/

/-- `passwordDB`, the connector of type `local`. -/
def passwordDB : ConnectorImpl := { password := true, refresh := true, prompt := "Email Address" }

/-- The end of `OpenConnector`: the opened connector is put into the map. -/
def registerConnector (conn : StorageConnector) (impl : ConnectorImpl) :
    Handler (Except Error Connector) := do
  call (.storeConnector conn.id ⟨conn.resourceVersion, impl⟩)
  return .ok ⟨conn.resourceVersion, impl⟩

def openConnector (conn : StorageConnector) : Handler (Except Error Connector) := do
  if conn.type = "local" then registerConnector conn passwordDB
  else
    match ← call (.openConnector conn) with
    | .error e => return .error e
    | .ok impl => registerConnector conn impl

def getConnector (id : String) : Handler (Except Error Connector) := do
  match ← call (.getConnector id) with
  | .error e => return .error e
  | .ok storageConnector =>
    match ← call (.loadConnector id) with
    | some conn =>
      if storageConnector.resourceVersion = conn.resourceVersion then return .ok conn
      else openConnector storageConnector
    | none => openConnector storageConnector

/-! ## handleAuthorization -/

def handleAuthErr (err : AuthErr) : Handler Unit :=
  if err.redirectURI = "" then renderError err.status err.description
  else
    let v := [("state", err.state), ("error", err.typ)] ++
      if err.description = "" then [] else [("error_description", err.description)]
    write (.redirect (.client err.redirectURI v [] none) 303)

def handleAuthorization (c : Config) (q : AuthorizationForm) : Handler Unit := do
  match ← parseAuthorizationRequest c q with
  | .error err => handleAuthErr err
  | .ok authReq => do
    let t ← now
    match ← call (.createAuthRequest { authReq with expiry := t + c.authRequestsValidFor }) with
    | .error _ => renderError 500 "Failed to connect to the database."
    | .ok () => do
      match ← call .listConnectors with
      | .error _ => renderError 500 "Failed to retrieve connector list."
      | .ok [conn] => write (.redirect (.connector conn.id authReq.id) 302)
      | .ok connectors =>
        write (.page (.login (connectors.map fun conn => (conn.id, conn.name)) authReq.id))

/-! ## Login with a connector -/

def Identity.claims (identity : Identity) : Claims where
  userID := identity.userID
  username := identity.username
  email := identity.email
  emailVerified := identity.emailVerified
  groups := identity.groups

/-- The updater of `handleConnectorLogin`. -/
def setConnectorID (connID : String) (a : AuthRequest) : Outcome AuthRequest :=
  .ok { a with connectorID := connID }

/-- The updater of `finalizeLogin`. -/
def setIdentity (identity : Identity) (a : AuthRequest) : Outcome AuthRequest :=
  .ok { a with
    loggedIn := true
    claims := identity.claims
    connectorData := identity.connectorData }

/-- `finalizeLogin`, up to the redirect to the approval page. -/
def finalizeLogin (identity : Identity) (authReq : AuthRequest) : Handler Unit := do
  match ← call (.updateAuthRequest authReq.id (setIdentity identity)) with
  | .ok _ => write (.redirect (.approval authReq.id) 303)
  | _ => renderError 500 "Login error."

structure LoginRequest where
  /-- the `{connector}` segment of the URL -/
  connector : String
  method : Method
  req : String
  login : String := ""
  password : String := ""

def usernamePrompt (conn : ConnectorImpl) : String :=
  if conn.prompt = "" then "Username" else conn.prompt

/-- `handleConnectorLogin` from the switch over the method on. -/
def connectorLogin (r : LoginRequest) (conn : Connector) (authReq : AuthRequest) : Handler Unit := do
  let scopes := parseScopes authReq.scopes
  let showBacklink := decide ((← call .lenConnectors) > 1)
  match r.method with
  | .get =>
    if conn.connector.callback then
      match ← call (.loginURL r.connector scopes r.req) with
      | .error _ => renderError 500 "Login error."
      | .ok callbackURL => write (.redirect (.upstream callbackURL) 302)
    else if conn.connector.password then
      write (.page (.password "" (usernamePrompt conn.connector) false showBacklink))
    else if conn.connector.saml then
      match ← call (.postData r.connector scopes r.req) with
      | .error _ => renderError 500 "Connector Login Error"
      | .ok (action, value) => write (.page (.saml action value r.req))
    else renderError 400 "Requested resource does not exist."
  | .post =>
    if !conn.connector.password then renderError 400 "Requested resource does not exist."
    else
      match ← call (.login r.connector authReq.id scopes r.login r.password) with
      | .error _ => renderError 500 "Login error."
      | .ok none =>
        write (.page (.password r.login (usernamePrompt conn.connector) true showBacklink))
      | .ok (some identity) => finalizeLogin identity authReq
  | .other => renderError 400 "Unsupported request method."

def handleConnectorLogin (r : LoginRequest) : Handler Unit := do
  match ← getConnector r.connector with
  | .error _ => renderError 400 "Requested resource does not exist"
  | .ok conn => do
    match ← call (.getAuthRequest r.req) with
    | .error .notFound => renderError 400 "Login session expired."
    | .error _ => renderError 500 "Database error."
    | .ok authReq =>
      -- set the connector being used for the login
      if authReq.connectorID ≠ r.connector then
        match ← call (.updateAuthRequest r.req (setConnectorID r.connector)) with
        | .ok _ => connectorLogin r conn authReq
        | _ => renderError 500 "Database error."
      else connectorLogin r conn authReq

structure CallbackRequest where
  /-- the `{connector}` segment of the URL, empty for `/callback` -/
  connector : String := ""
  method : Method
  state : String := ""
  relayState : String := ""
  samlResponse : String := ""

def CallbackRequest.authID (r : CallbackRequest) : String :=
  match r.method with
  | .get => r.state
  | .post => r.relayState
  | .other => ""

/-- `handleConnectorCallback` from the connector's answer on. -/
def finishCallback (authReq : AuthRequest) : Except Error Identity → Handler Unit
  | .error e => renderError 500 ("Failed to authenticate: " ++ e.text)
  | .ok identity => finalizeLogin identity authReq

/-- `handleConnectorCallback` once the request is known. -/
def connectorCallback (r : CallbackRequest) (authReq : AuthRequest) : Handler Unit := do
  match ← getConnector authReq.connectorID with
  | .error _ => renderError 500 "Requested resource does not exist."
  | .ok conn =>
    let scopes := parseScopes authReq.scopes
    if conn.connector.callback then
      if r.method ≠ .get then renderError 400 "Invalid request"
      else do
        finishCallback authReq (← call (.handleCallback authReq.connectorID authReq.id scopes))
    else if conn.connector.saml then
      if r.method ≠ .post then renderError 400 "Invalid request"
      else do
        finishCallback authReq
          (← call (.handlePOST authReq.connectorID authReq.id scopes r.samlResponse))
    else renderError 500 "Requested resource does not exist."

def handleConnectorCallback (r : CallbackRequest) : Handler Unit := do
  if r.method = .other then renderError 400 "Method not supported"
  else if r.authID = "" then renderError 400 "User session error."
  else
    match ← call (.getAuthRequest r.authID) with
    | .error .notFound => renderError 500 "Requested resource does not exist."
    | .error _ => renderError 500 "Database error."
    | .ok authReq =>
      if r.connector ≠ "" ∧ r.connector ≠ authReq.connectorID then
        renderError 500 "Requested resource does not exist."
      else connectorCallback r authReq

/-! ## Approval and the code response -/

/-- What the loop of `sendCodeResponse` has produced so far. -/
structure CodeResponse where
  implicitOrHybrid : Bool := false
  code : Option String := none
  idToken : Option (IDToken × Time) := none

/-- The code of a request, valid for half an hour. -/
def authCodeOf (authReq : AuthRequest) (id : String) (t : Time) : AuthCode where
  id := id
  clientID := authReq.clientID
  connectorID := authReq.connectorID
  nonce := authReq.nonce
  scopes := authReq.scopes
  claims := authReq.claims
  expiry := t + 30 * 60 * 1000000000
  redirectURI := authReq.redirectURI
  connectorData := authReq.connectorData

/-- `int(d.Seconds())` -/
def seconds (d : Duration) : Int := d.tdiv 1000000000

/-- The redirect at the end of `sendCodeResponse`. -/
def redirectCode (authReq : AuthRequest) (accessToken : String) (res : CodeResponse) : Handler Unit := do
  let code := match res.code with
    | some id => [("code", id)]
    | none => []
  if res.implicitOrHybrid then
    let v := [("access_token", accessToken), ("token_type", "bearer"), ("state", authReq.state)]
    match res.idToken, res.code with
    | some (idToken, expiry), none => do
      let t ← now
      let v := v ++ [("expires_in", toString (seconds (expiry - t)))]
      write (.redirect (.client authReq.redirectURI [] v (some idToken)) 303)
    | idToken, _ =>
      write (.redirect (.client authReq.redirectURI [] (v ++ code) (idToken.map Prod.fst)) 303)
  else
    write (.redirect (.client authReq.redirectURI
      [("code", res.code.getD ""), ("state", authReq.state)] [] none) 303)

/-- The loop of `sendCodeResponse` over the response types. -/
def respond (c : Config) (authReq : AuthRequest) (accessToken : String) :
    List String → CodeResponse → Handler Unit
  | [], res => redirectCode authReq accessToken res
  | responseType :: rest, res =>
    if responseType = responseTypeCode then do
      let id ← newID
      let t ← now
      match ← call (.createAuthCode (authCodeOf authReq id t)) with
      | .error _ => renderError 500 "Internal server error."
      | .ok () =>
        -- implicit and hybrid flows with the OOB redirect URI are rejected earlier
        if authReq.redirectURI = redirectURIOOB then write (.page (.oob id))
        else respond c authReq accessToken rest { res with code := some id }
    else if responseType = responseTypeToken then
      respond c authReq accessToken rest { res with implicitOrHybrid := true }
    else if responseType = responseTypeIDToken then do
      match ← newIDToken c authReq.clientID authReq.claims authReq.scopes authReq.nonce accessToken
          authReq.connectorID with
      | .error _ => tokenErrHelper errServerError "" 500
      | .ok idToken =>
        respond c authReq accessToken rest
          { res with implicitOrHybrid := true, idToken := some idToken }
    else respond c authReq accessToken rest res

def sendCodeResponse (c : Config) (authReq : AuthRequest) : Handler Unit := do
  if (← now) > authReq.expiry then renderError 400 "User session has expired."
  else
    match ← call (.deleteAuthRequest authReq.id) with
    | .error .notFound => renderError 400 "User session error."
    | .error _ => renderError 500 "Internal server error."
    | .ok () =>
      match urlParse authReq.redirectURI with
      | none => renderError 500 "Invalid redirect URI."
      | some _ => do
        let accessToken ← newID
        respond c authReq accessToken authReq.responseTypes {}

structure ApprovalRequest where
  method : Method
  req : String
  approval : String := ""

def handleApproval (c : Config) (r : ApprovalRequest) : Handler Unit := do
  match ← call (.getAuthRequest r.req) with
  | .error _ => renderError 500 "Database error."
  | .ok authReq =>
    if !authReq.loggedIn then renderError 500 "Login process not yet finalized."
    else match r.method with
      | .get =>
        if c.skipApproval then sendCodeResponse c authReq
        else do
          match ← call (.getClient authReq.clientID) with
          | .error _ => renderError 500 "Failed to retrieve client."
          | .ok client =>
            write (.page (.approval authReq.id authReq.claims.username client.name authReq.scopes))
      | .post =>
        if r.approval ≠ "approve" then renderError 500 "Approval rejected."
        else sendCodeResponse c authReq
      | .other => return ()

end KubeYamls.Dex
