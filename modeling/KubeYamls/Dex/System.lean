import KubeYamls.Dex.Token

/-! # Any number of Dex servers over one storage

Requests of every kind arrive at any server instance at any time, each served
by its own thread; rotation and garbage collection run as threads too. -/
namespace KubeYamls.Dex
open Data Conc

inductive Kind where
  | authorization (q : AuthorizationForm)
  | connectorLogin (r : LoginRequest)
  | connectorCallback (r : CallbackRequest)
  | approval (r : ApprovalRequest)
  | token (r : TokenRequest)
  | publicKeys
  | revokeRefresh (r : RevokeRefreshReq)
  | rotate
  | garbageCollect

/-- A request and the server instance it reaches. -/
structure Request where
  inst : Nat
  kind : Kind

/-- `handlePublicKeys`, up to the encoding of the key set. -/
def handlePublicKeys : Handler Unit := do
  match ← getKeys with
  | .error _ => renderError 500 "Internal server error."
  | .ok keys =>
    match keys.signingKeyPub with
    | none => renderError 500 "Internal server error."
    | some pub => do
      let t ← now
      write (.keys (pub :: keys.verificationKeys.map (·.publicKey))
        (seconds (max (keys.nextRotation - t) (2 * 60 * 1000000000))))

/-- One round of the loop in `startGarbageCollection`. -/
def collect : Handler Unit := do
  let t ← now
  match ← call (.garbageCollect t) with
  | _ => return ()

/-- One round of the loop in `startKeyRotation`. -/
def rotateOnce (c : Config) : Handler Unit := do
  match ← rotate c with
  | _ => return ()

/-- The servers: a configuration for each instance, and the codec of the tokens. -/
structure Setup where
  config : Nat → Config
  codec : Codec

def serve (S : Setup) (req : Request) : Handler Unit :=
  let c := S.config req.inst
  match req.kind with
  | .authorization q => handleAuthorization c q
  | .connectorLogin r => handleConnectorLogin r
  | .connectorCallback r => handleConnectorCallback r
  | .approval r => handleApproval c r
  | .token r => handleToken c S.codec r
  | .publicKeys => handlePublicKeys
  | .revokeRefresh r => revokeRefresh S.codec r
  | .rotate => rotateOnce c
  | .garbageCollect => collect

/-- What happens without a server: time passes, and an administrator changes the
clients or the connectors. -/
inductive Move where
  | tick (d : Nat)
  | configure (clients : Table String Client) (connectors : Table String StorageConnector)

def move : Move → World → Option World
  | .tick d, w => some { w with clock := w.clock + d }
  | .configure clients connectors, w =>
    if (clients.entries.all fun e => e.1 == e.2.id) && (connectors.entries.all fun e => e.1 == e.2.id)
    then some { w with store := { w.store with clients, connectors } }
    else none

/-- The machine whose runs are the interleavings of all handlers. -/
abbrev dex (S : Setup) : Machine sig where
  World := World
  Req := Request
  Ans := Ans
  Move := Move
  main := serve S
  exec := fun req => exec S.codec req.inst
  move := move

end KubeYamls.Dex
