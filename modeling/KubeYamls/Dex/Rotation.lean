import KubeYamls.Dex.Calls

/-! # Signing keys: the rotater and the per-instance cache

`keyRotater.rotate` (`dex/server/rotation.go`) and `keyCacher`
(`dex/server/server.go`). The rotater of a server is built on the server's own
storage, which is the cacher, so its first read goes through the cache and its
update goes to the storage behind it. -/
namespace KubeYamls.Dex
open Conc

structure Config where
  issuerURL : String := ""
  skipApproval : Bool := false
  supportedResponseTypes : List String := ["code"]
  idTokensValidFor : Duration
  authRequestsValidFor : Duration
  /-- `rotationStrategy.rotationFrequency` -/
  rotationFrequency : Duration
  /-- `rotationStrategy.idTokenValidFor` -/
  idTokenValidFor : Duration

abbrev now : Handler Time := call .now
abbrev newID : Handler String := call .newID
abbrev note (n : Note) : Handler Unit := call (.note n)
abbrev write (resp : Response) : Handler Unit := call (.write resp)

/-- The part of `keyCacher.GetKeys` after a cache miss. -/
def getKeysFromStorage : Handler (Except Error Keys) := do
  match ← call .getKeys with
  | .error e => return .error e
  | .ok storageKeys =>
    if (← now) < storageKeys.nextRotation then
      call (.storeKeys storageKeys)
      note (.keysReturn storageKeys)
      return .ok storageKeys
    else
      note (.keysReturn storageKeys)
      return .ok storageKeys

/-- `keyCacher.GetKeys` -/
def getKeys : Handler (Except Error Keys) := do
  note .keysCall
  match ← call .loadKeys with
  | some keys =>
    if (← now) < keys.nextRotation then
      note (.keysReturn keys)
      return .ok keys
    else getKeysFromStorage
  | none => getKeysFromStorage

def errAlreadyRotated : Error := .other "keys already rotated by another server instance"

/-- The private and the public web key made of a fresh RSA key. -/
def newSigningKey (key : Nat) (keyID : String) : JSONWebKey :=
  ⟨some (.rsaPrivate key), keyID, "RS256", "sig"⟩

def newSigningKeyPub (key : Nat) (keyID : String) : JSONWebKey :=
  ⟨some (.rsaPublic key), keyID, "RS256", "sig"⟩

/-- The updater of `rotate`. `tNow` and `later` are its two clock readings. -/
def rotateUpdater (c : Config) (priv pub : JSONWebKey) (tNow later : Time) (keys : Keys) :
    Outcome Keys :=
  if tNow < keys.nextRotation then .error errAlreadyRotated
  else
    let expired := fun key : VerificationKey => decide (tNow > key.expiry)
    let verificationKeys := keys.verificationKeys.filter fun key => !expired key
    .ok {
      signingKey := some priv
      signingKeyPub := some pub
      verificationKeys := match keys.signingKeyPub with
        | some old => verificationKeys ++ [⟨old, tNow + c.idTokenValidFor⟩]
        | none => verificationKeys
      nextRotation := later + c.rotationFrequency }

/-- The part of `rotate` after the first look at the clock. -/
def rotateExpired (c : Config) : Handler (Except Error Unit) := do
  match ← call .newKey with
  | .error e => return .error e
  | .ok (key, keyID) =>
    let priv := newSigningKey key keyID
    let pub := newSigningKeyPub key keyID
    match ← call (.updateKeys (rotateUpdater c priv pub)) with
    | .ok _ => return .ok ()
    | .error e => return .error e
    | .panic => return .ok ()

/-- `keyRotater.rotate` -/
def rotate (c : Config) : Handler (Except Error Unit) := do
  match ← getKeys with
  | .ok keys =>
    if (← now) < keys.nextRotation then return .ok () else rotateExpired c
  | .error .notFound =>
    -- keys is the zero value here
    if (← now) < ({} : Keys).nextRotation then return .ok () else rotateExpired c
  | .error e => return .error e

end KubeYamls.Dex
