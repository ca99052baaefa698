import KubeYamls.Dex.Text
import KubeYamls.Store.Objects

/-! # The etcd storage

The methods of `dex/storage/etcd/etcd.go` as programs over single requests to
etcd, and the mirrored types of `types.go`. A value in etcd is the JSON text of
one of these types and is kept here as the value itself. The prefixes of the keys
differ in what stands before the slash, so each kind has a table of its own and
reading a prefix means reading a table. -/
namespace KubeYamls.Store.Etcd
open Data Conc Option
open Dex (Time Error Outcome CaseTable GCResult quote)

def clientPrefix := "client/"
def authCodePrefix := "auth_code/"
def refreshTokenPrefix := "refresh_token/"
def authRequestPrefix := "auth_req/"
def passwordPrefix := "password/"
def offlineSessionPrefix := "offline_session/"
def connectorPrefix := "connector/"
def keysName := "openid-connect-keys"

/-! ## Mirrored types -/

structure Claims where
  userID : String := ""
  username : String := ""
  email : String := ""
  emailVerified : Bool := false
  groups : List String := []
  deriving DecidableEq

def fromStorageClaims (i : Dex.Claims) : Claims where
  userID := i.userID
  username := i.username
  email := i.email
  emailVerified := i.emailVerified
  groups := i.groups

def toStorageClaims (i : Claims) : Dex.Claims where
  userID := i.userID
  username := i.username
  email := i.email
  emailVerified := i.emailVerified
  groups := i.groups

structure AuthCode where
  id : String := ""
  clientID : String := ""
  redirectURI : String := ""
  nonce : String := ""
  scopes : List String := []
  connectorID : String := ""
  connectorData : List UInt8 := []
  claims : Claims := {}
  expiry : Time := 0
  deriving DecidableEq

def fromStorageAuthCode (a : Dex.AuthCode) : AuthCode where
  id := a.id
  clientID := a.clientID
  redirectURI := a.redirectURI
  connectorID := a.connectorID
  connectorData := a.connectorData
  nonce := a.nonce
  scopes := a.scopes
  claims := fromStorageClaims a.claims
  expiry := a.expiry

/-- `GetAuthCode` decodes the mirrored type straight into `storage.AuthCode`, whose
fields have the same names up to case. -/
def decodeAuthCode (a : AuthCode) : Dex.AuthCode where
  id := a.id
  clientID := a.clientID
  redirectURI := a.redirectURI
  nonce := a.nonce
  scopes := a.scopes
  connectorID := a.connectorID
  connectorData := a.connectorData
  claims := toStorageClaims a.claims
  expiry := a.expiry

structure AuthRequest where
  id : String := ""
  clientID : String := ""
  responseTypes : List String := []
  scopes : List String := []
  redirectURI : String := ""
  nonce : String := ""
  state : String := ""
  forceApprovalPrompt : Bool := false
  expiry : Time := 0
  loggedIn : Bool := false
  claims : Claims := {}
  connectorID : String := ""
  connectorData : List UInt8 := []
  deriving DecidableEq

def fromStorageAuthRequest (a : Dex.AuthRequest) : AuthRequest where
  id := a.id
  clientID := a.clientID
  responseTypes := a.responseTypes
  scopes := a.scopes
  redirectURI := a.redirectURI
  nonce := a.nonce
  state := a.state
  forceApprovalPrompt := a.forceApprovalPrompt
  expiry := a.expiry
  loggedIn := a.loggedIn
  claims := fromStorageClaims a.claims
  connectorID := a.connectorID
  connectorData := a.connectorData

def toStorageAuthRequest (a : AuthRequest) : Dex.AuthRequest where
  id := a.id
  clientID := a.clientID
  responseTypes := a.responseTypes
  scopes := a.scopes
  redirectURI := a.redirectURI
  nonce := a.nonce
  state := a.state
  forceApprovalPrompt := a.forceApprovalPrompt
  loggedIn := a.loggedIn
  connectorID := a.connectorID
  connectorData := a.connectorData
  expiry := a.expiry
  claims := toStorageClaims a.claims

structure RefreshToken where
  id : String := ""
  token : String := ""
  createdAt : Time := 0
  lastUsed : Time := 0
  clientID : String := ""
  connectorID : String := ""
  connectorData : List UInt8 := []
  claims : Claims := {}
  scopes : List String := []
  nonce : String := ""
  deriving DecidableEq

def toStorageRefreshToken (r : RefreshToken) : Dex.RefreshToken where
  id := r.id
  token := r.token
  createdAt := r.createdAt
  lastUsed := r.lastUsed
  clientID := r.clientID
  connectorID := r.connectorID
  connectorData := r.connectorData
  scopes := r.scopes
  nonce := r.nonce
  claims := toStorageClaims r.claims

def fromStorageRefreshToken (r : Dex.RefreshToken) : RefreshToken where
  id := r.id
  token := r.token
  createdAt := r.createdAt
  lastUsed := r.lastUsed
  clientID := r.clientID
  connectorID := r.connectorID
  connectorData := r.connectorData
  scopes := r.scopes
  nonce := r.nonce
  claims := fromStorageClaims r.claims

/-- A nil map and an empty one are the same table. -/
structure OfflineSessions where
  userID : String := ""
  connID : String := ""
  refresh : Table String Dex.RefreshTokenRef := ∅
  deriving DecidableEq

def fromStorageOfflineSessions (o : Dex.OfflineSessions) : OfflineSessions where
  userID := o.userID
  connID := o.connID
  refresh := o.refresh

def toStorageOfflineSessions (o : OfflineSessions) : Dex.OfflineSessions where
  userID := o.userID
  connID := o.connID
  refresh := o.refresh

/-- What is encoded under the keys of a kind: a mirrored type, or the type of the
storage package where it has JSON tags itself. -/
@[reducible] def Doc : Kind → Type
  | .client => Dex.Client
  | .authCode => AuthCode
  | .refreshToken => RefreshToken
  | .authRequest => AuthRequest
  | .password => Dex.Password
  | .offlineSessions => OfflineSessions
  | .connector => Dex.StorageConnector
  | .keys => Dex.Keys

def fromStorage : (k : Kind) → Obj k → Doc k
  | .client => id
  | .authCode => fromStorageAuthCode
  | .refreshToken => fromStorageRefreshToken
  | .authRequest => fromStorageAuthRequest
  | .password => id
  | .offlineSessions => fromStorageOfflineSessions
  | .connector => id
  | .keys => id

def toStorage : (k : Kind) → Doc k → Obj k
  | .client => id
  | .authCode => decodeAuthCode
  | .refreshToken => toStorageRefreshToken
  | .authRequest => toStorageAuthRequest
  | .password => id
  | .offlineSessions => toStorageOfflineSessions
  | .connector => id
  | .keys => id

@[simp] theorem toStorage_fromStorage (k : Kind) (o : Obj k) : toStorage k (fromStorage k o) = o := by
  cases k <;> rfl

/-- The zero value of Go, which `var current` declares. -/
def zero : (k : Kind) → Doc k
  | .client => { id := "", secret := "", redirectURIs := [], trustedPeers := [], isPublic := false,
                 name := "" }
  | .authCode => {}
  | .refreshToken => {}
  | .authRequest => {}
  | .password => { email := "", hash := [], username := "", userID := "" }
  | .offlineSessions => {}
  | .connector => { id := "", type := "", name := "", resourceVersion := "", config := [] }
  | .keys => {}

/-! ## Requests -/

/-- The condition of a transaction: `CreateRevision(key) = 0`, which is true of an
absent key only, or `ModRevision(key) = n`, where an absent key counts as 0. -/
inductive Compare where
  | createRevisionZero
  | modRevision (n : Nat)
  deriving DecidableEq

inductive Request where
  | get (k : Kind) (key : String)
  | list (k : Kind)
  | txn (k : Kind) (key : String) (cond : Compare) (put : Doc k)
  | delete (k : Kind) (key : String)

/-- A value with its `ModRevision`; the values under a prefix; whether the
transaction succeeded; how many keys were deleted. -/
@[reducible] def Reply : Request → Type
  | .get k _ => Option (Doc k × Nat)
  | .list k => List (Doc k)
  | .txn _ _ _ _ => Bool
  | .delete _ _ => Nat

/-- Moments that a history records; they have no effect. -/
inductive Note where
  /-- an `Update` method is entered -/
  | update (k : Kind) (key : String)
  /-- the updater is called -/
  | updater (k : Kind) (key : String)
  deriving DecidableEq

/-- The calls of a process that uses etcd and, besides, what `S` has. -/
inductive Op (S : Sig) where
  | db (q : Request)
  | note (n : Note)
  | other (o : S.Op)

@[reducible] def Res {S : Sig} : Op S → Type
  | .db q => Except Error (Reply q)
  | .note _ => Unit
  | .other o => S.Res o

abbrev sig (S : Sig) : Sig := ⟨Op S, Res⟩

abbrev Conn (S : Sig) := Prog (sig S)

section
variable {S : Sig}

abbrev request (q : Request) : Conn S (Except Error (Reply q)) := Prog.op (S := sig S) (.db q)

abbrev note (n : Note) : Conn S Unit := Prog.op (S := sig S) (.note n)

def keyID (pre id : String) : String := pre ++ id

def keyEmail (u : CaseTable) (pre email : String) : String := pre ++ u.lower email

def keySession (u : CaseTable) (pre userID connID : String) : String :=
  pre ++ u.lower (userID ++ "|" ++ connID)

def deleteKey (k : Kind) (key : String) : Conn S (Except Error Unit) := do
  match ← request (.delete k key) with
  | .error e => return .error e
  | .ok deleted => if deleted = 0 then return .error .notFound else return .ok ()

def getKey (k : Kind) (key : String) : Conn S (Except Error (Obj k)) := do
  match ← request (.get k key) with
  | .error e => return .error e
  | .ok none => return .error .notFound
  | .ok (some kv) => return .ok (toStorage k kv.1)

def listKeys (k : Kind) : Conn S (Except Error (List (Obj k))) := do
  match ← request (.list k) with
  | .error e => return .error e
  | .ok values => return .ok (values.map (toStorage k))

def txnCreate (k : Kind) (key : String) (value : Doc k) : Conn S (Except Error Unit) := do
  match ← request (.txn k key .createRevisionZero value) with
  | .error e => return .error e
  | .ok false => return .error .alreadyExists
  | .ok true => return .ok ()

def conflict (key : String) : Error :=
  .other ("failed to update key=" ++ quote key ++ ": concurrent conflicting update happened")

/-- The value that was read is returned with success. -/
def txnUpdate (k : Kind) (key : String) (update : Option (Doc k) → Conn S (Outcome (Doc k))) :
    Conn S (Outcome (Option (Doc k))) := do
  match ← request (.get k key) with
  | .error e => return .error e
  | .ok getResp =>
    let currentValue := getResp.map Prod.fst
    let modRev := (getResp.map Prod.snd).getD 0
    match ← update currentValue with
    | .error e => return .error e
    | .panic => return .panic
    | .ok updatedValue =>
      match ← request (.txn k key (.modRevision modRev) updatedValue) with
      | .error e => return .error e
      | .ok false => return .error (conflict key)
      | .ok true => return .ok currentValue

/-- The `Update` methods: they differ in the type decoded and in the key. What the
updater was called on is returned with success, as in the memory storage. -/
def updateKey (k : Kind) (key : String) (updater : Obj k → Outcome (Obj k)) :
    Conn S (Outcome (Obj k)) := do
  note (.update k key)
  let r ← txnUpdate k key fun currentValue => do
    note (.updater k key)
    return (updater (toStorage k (currentValue.getD (zero k)))).map (fromStorage k)
  return r.map fun current => toStorage k (current.getD (zero k))

/-! ## The methods -/

def createAuthRequest (a : Dex.AuthRequest) : Conn S (Except Error Unit) :=
  txnCreate .authRequest (keyID authRequestPrefix a.id) (fromStorageAuthRequest a)

def getAuthRequest (id : String) : Conn S (Except Error Dex.AuthRequest) :=
  getKey .authRequest (keyID authRequestPrefix id)

def updateAuthRequest (id : String) (updater : Dex.AuthRequest → Outcome Dex.AuthRequest) :
    Conn S (Outcome Dex.AuthRequest) :=
  updateKey .authRequest (keyID authRequestPrefix id) updater

def deleteAuthRequest (id : String) : Conn S (Except Error Unit) :=
  deleteKey .authRequest (keyID authRequestPrefix id)

def createAuthCode (a : Dex.AuthCode) : Conn S (Except Error Unit) :=
  txnCreate .authCode (keyID authCodePrefix a.id) (fromStorageAuthCode a)

def getAuthCode (id : String) : Conn S (Except Error Dex.AuthCode) :=
  getKey .authCode (keyID authCodePrefix id)

def deleteAuthCode (id : String) : Conn S (Except Error Unit) :=
  deleteKey .authCode (keyID authCodePrefix id)

def createRefresh (r : Dex.RefreshToken) : Conn S (Except Error Unit) :=
  txnCreate .refreshToken (keyID refreshTokenPrefix r.id) (fromStorageRefreshToken r)

def getRefresh (id : String) : Conn S (Except Error Dex.RefreshToken) :=
  getKey .refreshToken (keyID refreshTokenPrefix id)

def updateRefreshToken (id : String) (updater : Dex.RefreshToken → Outcome Dex.RefreshToken) :
    Conn S (Outcome Dex.RefreshToken) :=
  updateKey .refreshToken (keyID refreshTokenPrefix id) updater

def deleteRefresh (id : String) : Conn S (Except Error Unit) :=
  deleteKey .refreshToken (keyID refreshTokenPrefix id)

def createClient (cli : Dex.Client) : Conn S (Except Error Unit) :=
  txnCreate .client (keyID clientPrefix cli.id) cli

def getClient (id : String) : Conn S (Except Error Dex.Client) :=
  getKey .client (keyID clientPrefix id)

def updateClient (id : String) (updater : Dex.Client → Outcome Dex.Client) :
    Conn S (Outcome Dex.Client) :=
  updateKey .client (keyID clientPrefix id) updater

def deleteClient (id : String) : Conn S (Except Error Unit) :=
  deleteKey .client (keyID clientPrefix id)

def createConnector (connector : Dex.StorageConnector) : Conn S (Except Error Unit) :=
  txnCreate .connector (keyID connectorPrefix connector.id) connector

def getConnector (id : String) : Conn S (Except Error Dex.StorageConnector) :=
  getKey .connector (keyID connectorPrefix id)

def updateConnector (id : String) (updater : Dex.StorageConnector → Outcome Dex.StorageConnector) :
    Conn S (Outcome Dex.StorageConnector) :=
  updateKey .connector (keyID connectorPrefix id) updater

def deleteConnector (id : String) : Conn S (Except Error Unit) :=
  deleteKey .connector (keyID connectorPrefix id)

def listConnectors : Conn S (Except Error (List Dex.StorageConnector)) := listKeys .connector

/-- An absent key is read as the zero value. -/
def getKeys : Conn S (Except Error Dex.Keys) := do
  match ← request (.get .keys keysName) with
  | .error e => return .error e
  | .ok none => return .ok (zero .keys)
  | .ok (some kv) => return .ok kv.1

def updateKeys (updater : Dex.Keys → Outcome Dex.Keys) : Conn S (Outcome Dex.Keys) :=
  updateKey .keys keysName updater

section
variable (u : CaseTable)

def createPassword (p : Dex.Password) : Conn S (Except Error Unit) :=
  txnCreate .password (passwordPrefix ++ u.lower p.email) p

def getPassword (email : String) : Conn S (Except Error Dex.Password) :=
  getKey .password (keyEmail u passwordPrefix email)

def updatePassword (email : String) (updater : Dex.Password → Outcome Dex.Password) :
    Conn S (Outcome Dex.Password) :=
  updateKey .password (keyEmail u passwordPrefix email) updater

def deletePassword (email : String) : Conn S (Except Error Unit) :=
  deleteKey .password (keyEmail u passwordPrefix email)

def listPasswords : Conn S (Except Error (List Dex.Password)) := listKeys .password

def createOfflineSessions (s : Dex.OfflineSessions) : Conn S (Except Error Unit) :=
  txnCreate .offlineSessions (keySession u offlineSessionPrefix s.userID s.connID)
    (fromStorageOfflineSessions s)

def getOfflineSessions (userID connID : String) : Conn S (Except Error Dex.OfflineSessions) :=
  getKey .offlineSessions (keySession u offlineSessionPrefix userID connID)

def updateOfflineSessions (userID connID : String)
    (updater : Dex.OfflineSessions → Outcome Dex.OfflineSessions) :
    Conn S (Outcome Dex.OfflineSessions) :=
  updateKey .offlineSessions (keySession u offlineSessionPrefix userID connID) updater

def deleteOfflineSessions (userID connID : String) : Conn S (Except Error Unit) :=
  deleteKey .offlineSessions (keySession u offlineSessionPrefix userID connID)

end

/-- A deletion loop of `GarbageCollect`: errors do not stop it, the last one is
reported. -/
def deleteKeys (k : Kind) (what : String) : List String → Option Error → Conn S (Option Error)
  | [], delErr => return delErr
  | key :: keys, delErr => do
    match ← deleteKey k key with
    | .error e => deleteKeys k what keys (some (.other ("failed to delete " ++ what ++ ": " ++ e.text)))
    | .ok () => deleteKeys k what keys delErr

/-- The keys are made from the IDs inside the values. -/
def garbageCollect (now : Time) : Conn S (GCResult × Option Error) := do
  match ← request (.list .authRequest) with
  | .error e => return (⟨0, 0⟩, some e)
  | .ok authRequests =>
    let requests := authRequests.filter fun a => decide (now > a.expiry)
    match ← deleteKeys .authRequest "auth request"
        (requests.map fun a => keyID authRequestPrefix a.id) none with
    | some delErr => return (⟨requests.length, 0⟩, some delErr)
    | none =>
      match ← request (.list .authCode) with
      | .error e => return (⟨requests.length, 0⟩, some e)
      | .ok authCodes =>
        let codes := authCodes.filter fun a => decide (now > a.expiry)
        let delErr ← deleteKeys .authCode "auth code"
          (codes.map fun a => keyID authCodePrefix a.id) none
        return (⟨requests.length, codes.length⟩, delErr)

end

/-! ## The database -/

/-- The keys with their values and the revision of their last write. -/
abbrev Db := Versioned Kind Doc

namespace Db

def modRevision (db : Db) (k : Kind) (key : String) : Nat := ((db.lookup k key).map Prod.snd).getD 0

def holds (db : Db) (k : Kind) (key : String) : Compare → Bool
  | .createRevisionZero => (db.lookup k key).isNone
  | .modRevision n => modRevision db k key == n

def serve : (q : Request) → Db → Reply q × Db
  | .get k key, db => (db.lookup k key, db)
  | .list k, db => ((db.tables k).entries.map fun e => e.2.1, db)
  | .txn k key cond v, db => if holds db k key cond then (true, db.write k key v) else (false, db)
  | .delete k key, db =>
    match db.lookup k key with
    | some _ => (1, db.remove k key)
    | none => (0, db)

variable {db : Db} {k : Kind} {key : String}

theorem serve_txn {cond} (h : holds db k key cond = true) (v : Doc k) :
    serve (.txn k key cond v) db = (true, db.write k key v) := if_pos h

theorem serve_txn_not {cond} (h : holds db k key cond = false) (v : Doc k) :
    serve (.txn k key cond v) db = (false, db) := if_neg (by simp [h])

theorem serve_delete {kv} (h : db.lookup k key = some kv) : serve (.delete k key) db = (1, db.remove k key) := by
  simp [serve, h]

theorem serve_delete_none (h : db.lookup k key = none) : serve (.delete k key) db = (0, db) := by
  simp [serve, h]

theorem serve_advance (q : Request) : Advance Versioned.cell Versioned.revision db (serve q db).2 := by
  cases q with
  | get | list => exact .refl db
  | txn k key cond v =>
    cases h : holds db k key cond with
    | true => exact serve_txn h v ▸ Versioned.write_advance v
    | false => exact serve_txn_not h v ▸ .refl db
  | delete k key =>
    cases h : db.lookup k key with
    | none => exact serve_delete_none h ▸ .refl db
    | some kv => exact serve_delete h ▸ Versioned.remove_advance

end Db

/-- A request is answered, or fails without effect; `other` is for the rest. -/
inductive Ans (A : Type) where
  | done
  | fail
  | other (a : A)

section
variable {S : Sig} {A W : Type}

def exec (outer : (o : S.Op) → A → W → Option (S.Res o × W)) :
    (o : Op S) → Ans A → Db × W → Option (Res o × (Db × W))
  | .db q, .done, (db, w) => some (.ok (Db.serve q db).1, ((Db.serve q db).2, w))
  | .db _, .fail, s => some (.error failure, s)
  | .note _, .done, s => some ((), s)
  | .other o, .other a, (db, w) => (outer o a w).map fun (r, w) => (r, (db, w))
  | _, _, _ => none

variable {outer : (o : S.Op) → A → W → Option (S.Res o × W)} {ans : Ans A} {s s' : Db × W}

theorem exec_db {q r} (h : exec outer (.db q) ans s = some (r, s')) :
    (r = .ok (Db.serve q s.1).1 ∧ s' = ((Db.serve q s.1).2, s.2)) ∨ (r = .error failure ∧ s' = s) := by
  cases ans with
  | done => exact .inl (Prod.mk.inj (some.inj h.symm))
  | fail => exact .inr (Prod.mk.inj (some.inj h.symm))
  | other a => cases h

theorem exec_note {n r} (h : exec outer (.note n) ans s = some (r, s')) : s' = s := by
  cases ans with
  | done => exact (Prod.mk.inj (some.inj h.symm)).2
  | fail | other => cases h

theorem exec_other {o r} (h : exec outer (.other o) ans s = some (r, s')) : s'.1 = s.1 := by
  cases ans with
  | done | fail => cases h
  | other a =>
    obtain ⟨⟨r', w⟩, _, he⟩ := map_eq_some_iff.mp h
    cases he
    rfl

end

/-- Requests of one process alone, all of them answered. The notes are kept. -/
def respond : (o : Op nothing) → Db × List Note → Res o × (Db × List Note)
  | .db q, (db, notes) => (.ok (Db.serve q db).1, ((Db.serve q db).2, notes))
  | .note n, (db, notes) => ((), (db, n :: notes))
  | .other o, s => (Empty.elim o, s)

theorem alone_request {α : Type} (q : Request) (f : Except Error (Reply q) → Conn nothing α) (db : Db)
    (notes : List Note) : (request q >>= f).alone respond (db, notes) =
      (f (.ok (Db.serve q db).1)).alone respond ((Db.serve q db).2, notes) := rfl

theorem alone_note {α : Type} (n : Note) (f : Unit → Conn nothing α) (db : Db) (notes : List Note) :
    (note n >>= f).alone respond (db, notes) = (f ()).alone respond (db, n :: notes) := rfl

end KubeYamls.Store.Etcd
