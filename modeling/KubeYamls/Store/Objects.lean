import KubeYamls.Conc.Commits
import KubeYamls.Conc.Versioned
import KubeYamls.Dex.Storage

/-! # Stored objects and the calls that change them

The kinds of objects of `dex/storage/storage.go` and the methods of its `Storage`
interface that modify them. A backend files an object under a key of its own
making; a call that takes effect is then an action on one key of one kind. -/
namespace KubeYamls.Store
open Data Conc
open Dex (Error Outcome)

inductive Kind where
  | client
  | authCode
  | refreshToken
  | authRequest
  | password
  | offlineSessions
  | connector
  | keys
  deriving DecidableEq

@[reducible] def Obj : Kind → Type
  | .client => Dex.Client
  | .authCode => Dex.AuthCode
  | .refreshToken => Dex.RefreshToken
  | .authRequest => Dex.AuthRequest
  | .password => Dex.Password
  | .offlineSessions => Dex.OfflineSessions
  | .connector => Dex.StorageConnector
  | .keys => Dex.Keys

instance : (k : Kind) → DecidableEq (Obj k)
  | .client => inferInstanceAs (DecidableEq Dex.Client)
  | .authCode => inferInstanceAs (DecidableEq Dex.AuthCode)
  | .refreshToken => inferInstanceAs (DecidableEq Dex.RefreshToken)
  | .authRequest => inferInstanceAs (DecidableEq Dex.AuthRequest)
  | .password => inferInstanceAs (DecidableEq Dex.Password)
  | .offlineSessions => inferInstanceAs (DecidableEq Dex.OfflineSessions)
  | .connector => inferInstanceAs (DecidableEq Dex.StorageConnector)
  | .keys => inferInstanceAs (DecidableEq Dex.Keys)

/-- What a storage holds: the objects of each kind by their keys. -/
abbrev Objects := (k : Kind) → String → Option (Obj k)

def Objects.set (s : Objects) (k : Kind) (key : String) (o : Option (Obj k)) : Objects :=
  Function.update s k (Function.update (s k) key o)

theorem Objects.set_ne {s : Objects} {k k' key key' o}
    (h : (k', key') ≠ (k, key)) : s.set k key o k' key' = s k' key' := by
  by_cases hk : k' = k
  · subst hk
    have hkey : key' ≠ key := fun he => h (by rw [he])
    simp [set, Function.update_of_ne hkey]
  · simp [set, Function.update_of_ne hk]

section
variable {Doc : Kind → Type}

/-- The objects in a store, whose values are what a backend makes of them. -/
def objects (toStorage : (k : Kind) → Doc k → Obj k) (d : Versioned Kind Doc) : Objects :=
  fun k key => (d.lookup k key).map fun v => toStorage k v.1

variable {toStorage : (k : Kind) → Doc k → Obj k} {d : Versioned Kind Doc} {k : Kind} {key : String}

theorem objects_write (v : Doc k) :
    objects toStorage (d.write k key v) = (objects toStorage d).set k key (some (toStorage k v)) := by
  funext k' key'
  by_cases h : (k', key') = (k, key)
  · cases h
    simp [objects, Objects.set]
  · rw [objects, Versioned.lookup_write_ne v h, Objects.set_ne h]
    rfl

theorem objects_remove : objects toStorage (d.remove k key) = (objects toStorage d).set k key none := by
  funext k' key'
  by_cases h : (k', key') = (k, key)
  · cases h
    simp [objects, Objects.set]
  · rw [objects, Versioned.lookup_remove_ne h, Objects.set_ne h]
    rfl

end

/-- What a call does where it takes effect. An updater is given the object that
stands under the key, if there is one. -/
inductive Action where
  | create (k : Kind) (key : String) (o : Obj k)
  | update (k : Kind) (key : String) (updater : Option (Obj k) → Outcome (Obj k))
  | delete (k : Kind) (key : String)

/-- The action carried out at once; `none` where it cannot succeed. -/
def Action.apply : Action → Objects → Option Objects
  | .create k key o, s => if (s k key).isSome then none else some (s.set k key (some o))
  | .update k key updater, s =>
    match updater (s k key) with
    | .ok new => some (s.set k key (some new))
    | _ => none
  | .delete k key, s => if (s k key).isSome then some (s.set k key none) else none

theorem Action.apply_create {k key o s}
    (h : s k key = none) : (Action.create k key o).apply s = some (s.set k key (some o)) := by
  simp [apply, h]

theorem Action.apply_update {k key f s new} (h : f (s k key) = .ok new) :
    (Action.update k key f).apply s = some (s.set k key (some new)) := by
  simp [apply, h]

theorem Action.apply_delete {k key o s}
    (h : s k key = some o) : (Action.delete k key).apply s = some (s.set k key none) := by
  simp [apply, h]

/-- The methods of `Storage` that create, update or delete one object. -/
inductive Call where
  | createAuthRequest (a : Dex.AuthRequest)
  | createClient (c : Dex.Client)
  | createAuthCode (c : Dex.AuthCode)
  | createRefresh (r : Dex.RefreshToken)
  | createPassword (p : Dex.Password)
  | createOfflineSessions (s : Dex.OfflineSessions)
  | createConnector (c : Dex.StorageConnector)
  | updateClient (id : String) (updater : Dex.Client → Outcome Dex.Client)
  | updateKeys (updater : Dex.Keys → Outcome Dex.Keys)
  | updateAuthRequest (id : String) (updater : Dex.AuthRequest → Outcome Dex.AuthRequest)
  | updateRefreshToken (id : String) (updater : Dex.RefreshToken → Outcome Dex.RefreshToken)
  | updatePassword (email : String) (updater : Dex.Password → Outcome Dex.Password)
  | updateOfflineSessions (userID connID : String)
      (updater : Dex.OfflineSessions → Outcome Dex.OfflineSessions)
  | updateConnector (id : String) (updater : Dex.StorageConnector → Outcome Dex.StorageConnector)
  | deleteAuthRequest (id : String)
  | deleteAuthCode (code : String)
  | deleteClient (id : String)
  | deleteRefresh (id : String)
  | deletePassword (email : String)
  | deleteOfflineSessions (userID connID : String)
  | deleteConnector (id : String)

/-- The error of a request that did not reach the backend or was refused by it. -/
def failure : Error := .other "request failed"

/-- The calls of a process besides its requests to a backend: none, or the return
of a storage method to its caller. -/
abbrev nothing : Sig := ⟨Empty, fun _ => Unit⟩

abbrev returns : Sig := ⟨Outcome Unit, fun _ => Unit⟩

/-- A state of a run in which calls were as if made one after the other: the
objects are what the committed calls make of the first ones, in commit order,
and the calls that committed, each once, are those that return nil. -/
structure Serialized {S : Sig} {M : Machine S} (L : Ledger M Objects) (ret : Outcome Unit → S.Op)
    (w0 : M.World) (s : Sys M) : Prop where
  replay : (L.log s.hist).foldrM (fun c objects => L.means c.2 objects) (L.view w0) = some (L.view s.world)
  once : ((L.log s.hist).map Prod.fst).Nodup
  returned : ∀ tid r x, (⟨ret r, x⟩ : Ev S) ∈ past tid s.hist →
    (r = .ok () ↔ tid ∈ (L.log s.hist).map Prod.fst)
  unchanged : ∀ tid r x, (⟨ret r, x⟩ : Ev S) ∈ past tid s.hist → r ≠ .ok () →
    ∀ req o y pre post, Entry.act tid req o y pre post ∈ s.hist → L.view post = L.view pre

/-- It is enough that commits do what their calls mean, and that a call returns
nil if and only if it has committed. -/
theorem Serialized.of_kept {S M L ret w0} {s : Sys M} (hL : L.Kept (· = w0)) (h : Reach (· = w0) s)
    (hret : ∀ tid r x, (⟨ret r, x⟩ : Ev S) ∈ past tid s.hist →
      (r = .ok () ↔ ¬ L.Clean (past tid s.hist))) : Serialized L ret w0 s where
  replay := hL.replay h
  once := hL.once h
  returned := fun tid r x hr => (hret tid r x hr).trans L.mem_log.symm
  unchanged := fun tid r x hr hne _ _ _ _ _ hm =>
    hL.unchanged h hm (not_not.mp fun hc => hne ((hret tid r x hr).mpr hc))

end KubeYamls.Store
