import KubeYamls.Data.Table

/-! # Dex storage objects and the in-memory storage

The objects of `dex/storage/storage.go` and the tables of
`dex/storage/memory/memory.go`. Every method of the memory storage runs under
one mutex, so each is one function from the tables to a result and new tables.
Go strings that hold text are `String`; an instant is the number of nanoseconds
since Go's zero time, and a duration a difference of two. -/
namespace KubeYamls.Dex
open Data

abbrev Time := Int
abbrev Duration := Int

/-- `storage.ErrNotFound`, `storage.ErrAlreadyExists`, and every other error,
which the server only logs or passes on. -/
inductive Error where
  | notFound
  | alreadyExists
  | other (msg : String)
  deriving DecidableEq

def Error.text : Error → String
  | .notFound => "not found"
  | .alreadyExists => "ID already exists"
  | .other msg => msg

/-- What an updater function does with the object it is given. A nil pointer
dereferenced inside it panics. -/
inductive Outcome (α : Type) where
  | ok (a : α)
  | error (e : Error)
  | panic

def Outcome.map {α β : Type} (f : α → β) : Outcome α → Outcome β
  | .ok a => .ok (f a)
  | .error e => .error e
  | .panic => .panic

def Outcome.ofExcept {α : Type} : Except Error α → Outcome α
  | .ok a => .ok a
  | .error e => .error e

theorem Outcome.ofExcept_eq_ok {α : Type} {r} {a : α} : Outcome.ofExcept r = .ok a ↔ r = .ok a := by
  cases r <;> simp [ofExcept]

structure Client where
  id : String
  secret : String
  redirectURIs : List String
  trustedPeers : List String
  isPublic : Bool
  name : String
  logoURL : String := ""
  deriving DecidableEq

structure Claims where
  userID : String := ""
  username : String := ""
  email : String := ""
  emailVerified : Bool := false
  groups : List String := []
  deriving DecidableEq

structure AuthRequest where
  id : String
  clientID : String
  responseTypes : List String
  scopes : List String
  redirectURI : String
  nonce : String
  state : String
  forceApprovalPrompt : Bool
  expiry : Time := 0
  loggedIn : Bool := false
  claims : Claims := {}
  connectorID : String := ""
  connectorData : List UInt8 := []
  deriving DecidableEq

structure AuthCode where
  id : String
  clientID : String
  redirectURI : String
  nonce : String
  scopes : List String
  connectorID : String
  connectorData : List UInt8
  claims : Claims
  expiry : Time
  deriving DecidableEq

structure RefreshToken where
  id : String
  token : String
  createdAt : Time
  lastUsed : Time
  clientID : String
  connectorID : String
  connectorData : List UInt8
  claims : Claims
  scopes : List String
  nonce : String
  deriving DecidableEq

structure RefreshTokenRef where
  id : String
  clientID : String
  createdAt : Time
  lastUsed : Time
  deriving DecidableEq

/-- `refresh` is Go's `map[string]*RefreshTokenRef`; a key that is absent is
read as a nil pointer. -/
structure OfflineSessions where
  userID : String
  connID : String
  refresh : Table String RefreshTokenRef
  deriving DecidableEq

structure Password where
  email : String
  hash : List UInt8
  username : String
  userID : String
  deriving DecidableEq

/-- `storage.Connector`, the configuration object of a connector. -/
structure StorageConnector where
  id : String
  type : String
  name : String
  resourceVersion : String
  config : List UInt8
  deriving DecidableEq

inductive Curve where
  | p256
  | p384
  | p521
  | other
  deriving DecidableEq

/-- The `Key` of a JSON web key: one number stands for the key pair. -/
inductive KeyMaterial where
  | rsaPrivate (n : Nat)
  | rsaPublic (n : Nat)
  | ecdsaPrivate (curve : Curve) (n : Nat)
  | other
  deriving DecidableEq

structure JSONWebKey where
  key : Option KeyMaterial
  keyID : String
  algorithm : String
  use : String
  deriving DecidableEq

structure VerificationKey where
  publicKey : JSONWebKey
  expiry : Time
  deriving DecidableEq

structure Keys where
  signingKey : Option JSONWebKey := none
  signingKeyPub : Option JSONWebKey := none
  verificationKeys : List VerificationKey := []
  nextRotation : Time := 0
  deriving DecidableEq

/-! ## Table methods

`Create*`, `Get*`, `Delete*` and `Update*` of the memory storage differ only in
the table they work on. -/

section
variable {K V : Type} [DecidableEq K]

def create (k : K) (v : V) (t : Table K V) : Except Error Unit × Table K V :=
  match t.lookup k with
  | some _ => (.error .alreadyExists, t)
  | none => (.ok (), t.insert k v)

def get (k : K) (t : Table K V) : Except Error V :=
  match t.lookup k with
  | some v => .ok v
  | none => .error .notFound

def delete (k : K) (t : Table K V) : Except Error Unit × Table K V :=
  match t.lookup k with
  | some _ => (.ok (), t.erase k)
  | none => (.error .notFound, t)

/-- The value the updater was called on is returned with success, since an
updater may store what it saw in a variable of its caller. -/
def update (k : K) (updater : V → Outcome V) (t : Table K V) : Outcome V × Table K V :=
  match t.lookup k with
  | none => (.error .notFound, t)
  | some old =>
    match updater old with
    | .ok new => (.ok old, t.insert k new)
    | .error e => (.error e, t)
    | .panic => (.panic, t)

theorem create_cases {k v} {t t' : Table K V} {r} (h : create k v t = (r, t')) :
    (r = .ok () ∧ t.lookup k = none ∧ t' = t.insert k v) ∨
    (r = .error .alreadyExists ∧ (∃ old, t.lookup k = some old) ∧ t' = t) := by
  unfold create at h
  split at h
  · rename_i old hk
    cases h; exact .inr ⟨rfl, ⟨old, hk⟩, rfl⟩
  · rename_i hk
    cases h; exact .inl ⟨rfl, hk, rfl⟩

theorem delete_cases {k} {t t' : Table K V} {r} (h : delete k t = (r, t')) :
    (∃ v, r = .ok () ∧ t.lookup k = some v ∧ t' = t.erase k) ∨
    (r = .error .notFound ∧ t.lookup k = none ∧ t' = t) := by
  unfold delete at h
  split at h
  · rename_i v hk
    cases h; exact .inl ⟨v, rfl, hk, rfl⟩
  · rename_i hk
    cases h; exact .inr ⟨rfl, hk, rfl⟩

theorem update_cases {k f} {t t' : Table K V} {r} (h : update k f t = (r, t')) :
    (∃ old new, r = .ok old ∧ t.lookup k = some old ∧ f old = .ok new ∧ t' = t.insert k new) ∨
    (t' = t ∧ ((r = .error .notFound ∧ t.lookup k = none) ∨ ∃ old, t.lookup k = some old ∧
        ((∃ e, r = .error e ∧ f old = .error e) ∨ (r = .panic ∧ f old = .panic)))) := by
  unfold update at h
  split at h
  · rename_i hk
    cases h; exact .inr ⟨rfl, .inl ⟨rfl, hk⟩⟩
  · rename_i old hk
    split at h
    · rename_i new hf
      cases h; exact .inl ⟨old, new, rfl, hk, hf, rfl⟩
    · rename_i e hf
      cases h; exact .inr ⟨rfl, .inr ⟨old, hk, .inl ⟨e, rfl, hf⟩⟩⟩
    · rename_i hf
      cases h; exact .inr ⟨rfl, .inr ⟨old, hk, .inr ⟨rfl, hf⟩⟩⟩

theorem get_ok {k v} {t : Table K V} : get k t = .ok v ↔ t.lookup k = some v := by
  unfold get
  split <;> simp_all

theorem get_error {k e} {t : Table K V} : get k t = .error e ↔ e = .notFound ∧ t.lookup k = none := by
  unfold get
  cases t.lookup k <;> simp [eq_comm]

end

/-- `memStorage`, less the passwords and the logger. -/
structure MemStorage where
  clients : Table String Client := ∅
  authCodes : Table String AuthCode := ∅
  refreshTokens : Table String RefreshToken := ∅
  authReqs : Table String AuthRequest := ∅
  offlineSessions : Table (String × String) OfflineSessions := ∅
  connectors : Table String StorageConnector := ∅
  keys : Keys := {}

structure GCResult where
  authRequests : Nat
  authCodes : Nat

/-- `GarbageCollect`: delete what has expired, and count it. -/
def garbageCollect (now : Time) (s : MemStorage) : GCResult × MemStorage :=
  let authCodes := s.authCodes.sweep fun a => !decide (now > a.expiry)
  let authReqs := s.authReqs.sweep fun a => !decide (now > a.expiry)
  (⟨s.authReqs.keys.length - authReqs.keys.length, s.authCodes.keys.length - authCodes.keys.length⟩,
    { s with authCodes, authReqs })

end KubeYamls.Dex
