import KubeYamls.Conc.Machine
import KubeYamls.Dex.Storage

/-! # The calls of the Dex server, and what each one does

A handler of the server is a sequence of calls: into the storage, to the clock,
to the random source, to a connector, into the memory of its own server
instance, and to the client as a response. Each is atomic; everything between
two calls is local computation. `exec` gives the calls their meaning over the
memory storage. Whatever comes from outside (random values, connectors, the
failure of a call) is chosen by the answer. -/
namespace KubeYamls.Dex
open Data Conc

/-- `connector.Scopes` -/
structure ConnScopes where
  offlineAccess : Bool := false
  groups : Bool := false
  deriving DecidableEq

/-- `connector.Identity` -/
structure Identity where
  userID : String
  username : String
  email : String
  emailVerified : Bool
  groups : List String
  connectorData : List UInt8
  deriving DecidableEq

/-- Which of the connector interfaces an opened connector implements. -/
structure ConnectorImpl where
  callback : Bool := false
  password : Bool := false
  saml : Bool := false
  refresh : Bool := false
  prompt : String := ""
  deriving DecidableEq

/-- `server.Connector` -/
structure Connector where
  resourceVersion : String
  connector : ConnectorImpl
  deriving DecidableEq

inductive SignatureAlgorithm where
  | rs256
  | es256
  | es384
  | es512
  deriving DecidableEq

structure FederatedIDClaims where
  connectorID : String
  userID : String
  deriving DecidableEq

/-- `idTokenClaims`. The `at_hash` is kept as the algorithm and the access token
it is the hash of. -/
structure IDTokenClaims where
  issuer : String
  subject : String
  audience : List String := []
  expiry : Time
  issuedAt : Time
  authorizingParty : String := ""
  nonce : String
  accessTokenHash : Option (SignatureAlgorithm × String) := none
  email : String := ""
  emailVerified : Option Bool := none
  groups : List String := []
  name : String := ""
  federatedIDClaims : Option FederatedIDClaims := none
  deriving DecidableEq

/-- A signed ID token: the compact serialisation is a function of these three. -/
structure IDToken where
  key : JSONWebKey
  alg : SignatureAlgorithm
  payload : IDTokenClaims
  deriving DecidableEq

/-- The response of the token endpoint, `resp` in `writeAccessToken`. -/
structure TokenResponse where
  accessToken : String
  tokenType : String
  expiresIn : Int
  refreshToken : String
  idToken : IDToken
  deriving DecidableEq

inductive Location where
  | connector (id req : String)
  | upstream (url : String)
  | approval (req : String)
  | client (redirectURI : String) (query fragment : List (String × String)) (idToken : Option IDToken)
  deriving DecidableEq

inductive Page where
  | login (connectors : List (String × String)) (req : String)
  | password (username prompt : String) (lastWasInvalid showBacklink : Bool)
  | saml (action value req : String)
  | approval (req username clientName : String) (scopes : List String)
  | oob (code : String)
  deriving DecidableEq

inductive Response where
  | renderError (status : Nat) (description : String)
  | tokenErr (typ description : String) (status : Nat)
  | redirect (location : Location) (status : Nat)
  | page (p : Page)
  | token (t : TokenResponse)
  | keys (jwks : List JSONWebKey) (maxAge : Int)
  | revoke (notFound : Bool)
  | rpcError (e : Error)
  deriving DecidableEq

/-- Function entries and returns that the histories record; they have no effect. -/
inductive Note where
  | accepted (a : AuthRequest)
  | newIDToken (clientID : String) (claims : Claims) (scopes : List String)
      (nonce accessToken connID : String)
  | writeAccessToken (idToken : IDToken) (accessToken refreshToken : String)
  | keysCall
  | keysReturn (keys : Keys)
  deriving DecidableEq

inductive Op where
  -- storage.Storage
  | getClient (id : String)
  | getConnector (id : String)
  | listConnectors
  | createAuthRequest (a : AuthRequest)
  | getAuthRequest (id : String)
  | updateAuthRequest (id : String) (updater : AuthRequest → Outcome AuthRequest)
  | deleteAuthRequest (id : String)
  | createAuthCode (c : AuthCode)
  | getAuthCode (id : String)
  | deleteAuthCode (id : String)
  | createRefresh (r : RefreshToken)
  | getRefresh (id : String)
  | updateRefreshToken (id : String) (updater : RefreshToken → Outcome RefreshToken)
  | deleteRefresh (id : String)
  | createOfflineSessions (o : OfflineSessions)
  | getOfflineSessions (userID connID : String)
  | updateOfflineSessions (userID connID : String) (updater : OfflineSessions → Outcome OfflineSessions)
  | getKeys
  | updateKeys (updater : Time → Time → Keys → Outcome Keys)
  | garbageCollect (now : Time)
  -- the memory of one server instance: keyCacher.keys and Server.connectors
  | loadKeys
  | storeKeys (keys : Keys)
  | loadConnector (id : String)
  | storeConnector (id : String) (c : Connector)
  | lenConnectors
  -- the clock and crypto/rand
  | now
  | newID
  | newKey
  -- connectors; authReqID is the request on whose behalf the connector is asked
  | openConnector (c : StorageConnector)
  | loginURL (connID : String) (scopes : ConnScopes) (state : String)
  | postData (connID : String) (scopes : ConnScopes) (requestID : String)
  | login (connID authReqID : String) (scopes : ConnScopes) (username password : String)
  | handleCallback (connID authReqID : String) (scopes : ConnScopes)
  | handlePOST (connID authReqID : String) (scopes : ConnScopes) (samlResponse : String)
  | refreshIdentity (connID : String) (scopes : ConnScopes) (identity : Identity)
  -- encoders that can fail
  | marshal (a b : String)
  | signPayload (key : JSONWebKey) (alg : SignatureAlgorithm) (payload : IDTokenClaims)
  | write (resp : Response)
  | note (n : Note)

@[reducible] def Res : Op → Type
  | .getClient _ => Except Error Client
  | .getConnector _ => Except Error StorageConnector
  | .listConnectors => Except Error (List StorageConnector)
  | .createAuthRequest _ | .deleteAuthRequest _ | .createAuthCode _ | .deleteAuthCode _
  | .createRefresh _ | .deleteRefresh _ | .createOfflineSessions _ => Except Error Unit
  | .getAuthRequest _ => Except Error AuthRequest
  | .updateAuthRequest _ _ => Outcome AuthRequest
  | .getAuthCode _ => Except Error AuthCode
  | .getRefresh _ => Except Error RefreshToken
  | .updateRefreshToken _ _ => Outcome RefreshToken
  | .getOfflineSessions _ _ => Except Error OfflineSessions
  | .updateOfflineSessions _ _ _ => Outcome OfflineSessions
  | .getKeys => Except Error Keys
  | .updateKeys _ => Outcome Keys
  | .garbageCollect _ => Except Error GCResult
  | .loadKeys => Option Keys
  | .storeKeys _ | .storeConnector _ _ | .write _ | .note _ => Unit
  | .loadConnector _ => Option Connector
  | .lenConnectors => Nat
  | .now => Time
  | .newID => String
  | .newKey => Except Error (Nat × String)
  | .openConnector _ => Except Error ConnectorImpl
  | .loginURL _ _ _ => Except Error String
  | .postData _ _ _ => Except Error (String × String)
  | .login _ _ _ _ _ => Except Error (Option Identity)
  | .handleCallback _ _ _ | .handlePOST _ _ _ _ | .refreshIdentity _ _ _ => Except Error Identity
  | .marshal _ _ => Except Error String
  | .signPayload _ _ _ => Except Error IDToken

abbrev sig : Sig := ⟨Op, Res⟩

/-- Server code: a program over these calls. -/
abbrev Handler := Prog sig

abbrev call (o : Op) : Handler (Res o) := Prog.op (S := sig) o

/-- `keyCacher.keys` and `Server.connectors` of one server process. -/
structure Instance where
  keys : Option Keys := none
  connectors : Table String Connector := ∅

structure World where
  store : MemStorage
  clock : Time
  /-- The strings `NewID` can no longer return. -/
  ids : List String
  insts : Nat → Instance

/-- `internal.Marshal` and `internal.Unmarshal` on the two messages of
`types.proto`, each a pair of strings. -/
structure Codec where
  marshal : String → String → Option String
  unmarshal : String → Option (String × String)
  unmarshal_marshal : ∀ {a b c}, marshal a b = some c → unmarshal c = some (a, b)

/-- The part of a call that the server does not decide. -/
inductive Ans where
  | plain
  /-- the call returns an error and has no effect -/
  | fail
  | text (s : String)
  | texts (s t : String)
  | delay (d : Nat)
  | key (n : Nat) (keyID : String)
  | identity (i : Option Identity)
  | opened (c : ConnectorImpl)

/-- An error other than the two the storage interface names. -/
def failure : Error := .other "call failed"

/-- A call into the storage: it runs, or it fails without effect. -/
def storage {α : Type} (err : α) (f : MemStorage → α × MemStorage) :
    Ans → World → Option (α × World)
  | .plain, w => some ((f w.store).1, { w with store := (f w.store).2 })
  | .fail, w => some (err, w)
  | _, _ => none

/-- A call that cannot fail. -/
def here {α : Type} (f : World → α × World) : Ans → World → Option (α × World)
  | .plain, w => some (f w)
  | _, _ => none

/-- A call to another party, which answers or fails. -/
def remote {α : Type} (f : Ans → Option α) : Ans → World → Option (Except Error α × World)
  | .fail, w => some (.error failure, w)
  | ans, w => (f ans).map fun a => (.ok a, w)

/-- `UpdateKeys`. The updater reads the clock twice, and the second reading may
be later than the first. -/
def execUpdateKeys (f : Time → Time → Keys → Outcome Keys) : Ans → World → Option (Outcome Keys × World)
  | .delay d, w =>
    let later := { w with clock := w.clock + d }
    match f w.clock later.clock w.store.keys with
    | .ok new => some (.ok w.store.keys, { later with store := { w.store with keys := new } })
    | .error e => some (.error e, later)
    | .panic => some (.panic, later)
  | .fail, w => some (.error failure, w)
  | _, _ => none

/-- `storage.NewID`: the values are assumed never to repeat. -/
def execNewID : Ans → World → Option (String × World)
  | .text s, w => if s = "" ∨ s ∈ w.ids then none else some (s, { w with ids := s :: w.ids })
  | _, _ => none

def setInstance (inst : Nat) (f : Instance → Instance) (w : World) : World :=
  { w with insts := Function.update w.insts inst (f (w.insts inst)) }

/-- One call of a thread of server instance `inst`. -/
def exec (codec : Codec) (inst : Nat) : (o : Op) → Ans → World → Option (Res o × World)
  | .getClient id => storage (.error failure) fun s => (get id s.clients, s)
  | .getConnector id => storage (.error failure) fun s => (get id s.connectors, s)
  | .listConnectors => storage (.error failure) fun s => (.ok (s.connectors.entries.map Sigma.snd), s)
  | .createAuthRequest a => storage (.error failure) fun s =>
    let (r, t) := create a.id a s.authReqs
    (r, { s with authReqs := t })
  | .getAuthRequest id => storage (.error failure) fun s => (get id s.authReqs, s)
  | .updateAuthRequest id f => storage (.error failure) fun s =>
    let (r, t) := update id f s.authReqs
    (r, { s with authReqs := t })
  | .deleteAuthRequest id => storage (.error failure) fun s =>
    let (r, t) := delete id s.authReqs
    (r, { s with authReqs := t })
  | .createAuthCode c => storage (.error failure) fun s =>
    let (r, t) := create c.id c s.authCodes
    (r, { s with authCodes := t })
  | .getAuthCode id => storage (.error failure) fun s => (get id s.authCodes, s)
  | .deleteAuthCode id => storage (.error failure) fun s =>
    let (r, t) := delete id s.authCodes
    (r, { s with authCodes := t })
  | .createRefresh x => storage (.error failure) fun s =>
    let (r, t) := create x.id x s.refreshTokens
    (r, { s with refreshTokens := t })
  | .getRefresh id => storage (.error failure) fun s => (get id s.refreshTokens, s)
  | .updateRefreshToken id f => storage (.error failure) fun s =>
    let (r, t) := update id f s.refreshTokens
    (r, { s with refreshTokens := t })
  | .deleteRefresh id => storage (.error failure) fun s =>
    let (r, t) := delete id s.refreshTokens
    (r, { s with refreshTokens := t })
  | .createOfflineSessions o => storage (.error failure) fun s =>
    let (r, t) := create (o.userID, o.connID) o s.offlineSessions
    (r, { s with offlineSessions := t })
  | .getOfflineSessions u c => storage (.error failure) fun s => (get (u, c) s.offlineSessions, s)
  | .updateOfflineSessions u c f => storage (.error failure) fun s =>
    let (r, t) := update (u, c) f s.offlineSessions
    (r, { s with offlineSessions := t })
  | .getKeys => storage (.error failure) fun s => (.ok s.keys, s)
  | .updateKeys f => execUpdateKeys f
  | .garbageCollect now => storage (.error failure) fun s =>
    let (r, s) := garbageCollect now s
    (.ok r, s)
  | .loadKeys => here fun w => ((w.insts inst).keys, w)
  | .storeKeys k => here fun w => ((), setInstance inst (fun i => { i with keys := some k }) w)
  | .loadConnector id => here fun w => ((w.insts inst).connectors.lookup id, w)
  | .storeConnector id c => here fun w =>
    ((), setInstance inst (fun i => { i with connectors := i.connectors.insert id c }) w)
  | .lenConnectors => here fun w => ((w.insts inst).connectors.keys.length, w)
  | .now => here fun w => (w.clock, w)
  | .newID => execNewID
  | .newKey => remote fun ans => match ans with
    | .key n keyID => some (n, keyID)
    | _ => none
  | .openConnector _ => remote fun ans => match ans with
    | .opened c => some c
    | _ => none
  | .loginURL _ _ _ => remote fun ans => match ans with
    | .text url => some url
    | _ => none
  | .postData _ _ _ => remote fun ans => match ans with
    | .texts action value => some (action, value)
    | _ => none
  | .login _ _ _ _ _ => remote fun ans => match ans with
    | .identity i => some i
    | _ => none
  | .handleCallback _ _ _ | .handlePOST _ _ _ _ | .refreshIdentity _ _ _ =>
    remote fun ans => match ans with
    | .identity i => i
    | _ => none
  | .marshal a b => remote fun ans => match ans with
    | .plain => codec.marshal a b
    | _ => none
  | .signPayload key alg payload => remote fun ans => match ans with
    | .plain => some ⟨key, alg, payload⟩
    | _ => none
  | .write _ | .note _ => here fun w => ((), w)

/-! ## What a call can change -/

section
variable {codec : Codec} {inst : Nat} {o : Op} {r : Res o} {ans : Ans} {w w' : World}

theorem storage_cases {α : Type} {err f} {a : α} (h : storage err f ans w = some (a, w')) :
    (a = err ∧ w' = w) ∨ (a = (f w.store).1 ∧ w' = { w with store := (f w.store).2 }) := by
  unfold storage at h
  split at h
  · cases h; exact .inr ⟨rfl, rfl⟩
  · cases h; exact .inl ⟨rfl, rfl⟩
  · cases h

theorem here_eq {α : Type} {f} {a : α} (h : here f ans w = some (a, w')) : (a, w') = f w := by
  unfold here at h
  split at h
  · exact (Option.some.inj h).symm
  · cases h

theorem remote_world {α : Type} {f} {a : Except Error α} (h : remote f ans w = some (a, w')) : w' = w := by
  unfold remote at h
  split at h
  · cases h; rfl
  · obtain ⟨_, _, he⟩ := Option.map_eq_some_iff.mp h
    cases he; rfl

theorem execNewID_cases {s} (h : execNewID ans w = some (s, w')) :
    s ≠ "" ∧ s ∉ w.ids ∧ w' = { w with ids := s :: w.ids } := by
  unfold execNewID at h
  split at h
  · split at h
    · cases h
    · rename_i hs
      cases h
      exact ⟨fun he => hs (.inl he), fun hm => hs (.inr hm), rfl⟩
  · cases h

theorem execUpdateKeys_cases {f a} (h : execUpdateKeys f ans w = some (a, w')) :
    (∃ d : Nat, ∃ new, a = .ok w.store.keys ∧ f w.clock (w.clock + d) w.store.keys = .ok new ∧
      w' = { w with clock := w.clock + d, store := { w.store with keys := new } }) ∨
    (∃ d : Nat, (∀ k, a ≠ .ok k) ∧ w' = { w with clock := w.clock + d }) := by
  unfold execUpdateKeys at h
  split at h
  · rename_i d
    dsimp only at h
    split at h
    · rename_i new hf
      cases h; exact .inl ⟨d, new, rfl, hf, rfl⟩
    · cases h; exact .inr ⟨d, by simp, rfl⟩
    · cases h; exact .inr ⟨d, by simp, rfl⟩
  · cases h; exact .inr ⟨0, by simp, by simp⟩
  · cases h

end

end KubeYamls.Dex
