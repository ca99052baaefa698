import KubeYamls.Dex.Runs
import KubeYamls.Store.EtcdServer
import KubeYamls.Store.Sequential

/-! # Updates of objects that do not exist

The memory storage answers them with `ErrNotFound`. The etcd storage calls the
updater on the zero value and writes what it returns under the condition that the
key is still absent; so an update that comes too late brings a deleted object back
to life. -/
namespace KubeYamls.Store
open Data Conc
open Dex (Error Outcome CaseTable Setup asciiCase)

/-- An `Update` method of the memory storage: what it returns, the objects after it,
and how often it calls the updater. -/
def memoryUpdate (k : Kind) (key : String) (f : Obj k → Outcome (Obj k)) (s : Objects) :
    Outcome (Obj k) × Objects × Nat :=
  match s k key with
  | none => (.error .notFound, s, 0)
  | some old =>
    match f old with
    | .ok new => (.ok old, s.set k key (some new), 1)
    | .error e => (.error e, s, 1)
    | .panic => (.panic, s, 1)

section
variable {k : Kind} {key : String} {f : Obj k → Outcome (Obj k)} {s : Objects}

theorem memoryUpdate_none (h : s k key = none) : memoryUpdate k key f s = (.error .notFound, s, 0) := by
  simp [memoryUpdate, h]

theorem memoryUpdate_eq (t : Table String (Obj k)) (hs : s k = t.lookup) :
    (Dex.update key f t).1 = (memoryUpdate k key f s).1 ∧
      (Dex.update key f t).2.lookup = (memoryUpdate k key f s).2.1 k := by
  have hkey : s k key = t.lookup key := by rw [hs]
  unfold Dex.update memoryUpdate
  rw [hkey]
  cases ht : t.lookup key with
  | none => exact ⟨rfl, hs.symm⟩
  | some old =>
    dsimp only
    cases hf : f old with
    | ok new =>
      refine ⟨rfl, ?_⟩
      simp [Objects.set, hs, Table.lookup_insert_eq_update]
    | error | panic => exact ⟨rfl, hs.symm⟩

end

namespace Etcd

/-! ## One call alone -/

/-- The `Update` methods other than that of the signing keys, with the key and the
updater of a call. -/
inductive Updates (u : CaseTable) : Call → (k : Kind) → String → (Obj k → Outcome (Obj k)) → Prop
  | client (id : String) (f : Dex.Client → Outcome Dex.Client) :
    Updates u (.updateClient id f) .client (keyID clientPrefix id) f
  | authRequest (id : String) (f : Dex.AuthRequest → Outcome Dex.AuthRequest) :
    Updates u (.updateAuthRequest id f) .authRequest (keyID authRequestPrefix id) f
  | refreshToken (id : String) (f : Dex.RefreshToken → Outcome Dex.RefreshToken) :
    Updates u (.updateRefreshToken id f) .refreshToken (keyID refreshTokenPrefix id) f
  | password (email : String) (f : Dex.Password → Outcome Dex.Password) :
    Updates u (.updatePassword email f) .password (keyEmail u passwordPrefix email) f
  | offlineSessions (userID connID : String)
      (f : Dex.OfflineSessions → Outcome Dex.OfflineSessions) :
    Updates u (.updateOfflineSessions userID connID f) .offlineSessions
      (keySession u offlineSessionPrefix userID connID) f
  | connector (id : String) (f : Dex.StorageConnector → Outcome Dex.StorageConnector) :
    Updates u (.updateConnector id f) .connector (keyID connectorPrefix id) f

def AsInMemory (u : CaseTable) (c : Call) (k : Kind) (key : String) (f : Obj k → Outcome (Obj k))
    (db : Db) : Prop :=
  let here := (run u c).alone respond (db, [])
  let there := memoryUpdate k key f (objects toStorage db)
  here.1 = there.1.map (fun _ => ()) ∧ objects toStorage here.2.1 = there.2.1 ∧
    here.2.2.count (.updater k key) = there.2.2

theorem run_alone {u c k key f} (h : Updates u c k key f) (db : Db) :
    (run u c).alone respond (db, []) = ((updated k key f db).1.map (fun _ => ()),
      (updated k key f db).2, [.updater k key, .update k key]) := by
  have hrun : (run u c : Conn nothing _) = (updateKey k key f >>= fun r => pure (r.map fun _ => ())) := by
    cases h <;> rfl
  rw [hrun, Prog.alone_bind, updateKey_alone, Prog.alone_pure]

theorem asInMemory_iff {u c k key f} (h : Updates u c k key f) (db : Db) :
    AsInMemory u c k key f db ↔ (db.lookup k key).isSome := by
  unfold AsInMemory
  rw [run_alone h db]
  cases hl : db.lookup k key with
  | none =>
    have hnone : objects toStorage db k key = none := by simp [objects, hl]
    simp [memoryUpdate_none hnone]
  | some kv =>
    have hsome : objects toStorage db k key = some (toStorage k kv.1) := by simp [objects, hl]
    have hsub : subject k key db = toStorage k kv.1 := by simp [subject, hl]
    unfold memoryUpdate updated
    rw [hsome, hsub]
    dsimp only
    cases hf : f (toStorage k kv.1) with
    | ok new => simp [Outcome.map, objects_write]
    | error | panic => simp [Outcome.map]

/-! ## Handlers -/

section
variable {S : Setup} {u : CaseTable}

/-- The object an `Update` method was entered for in the last call. -/
def entered (past : List (Ev (sig Dex.sig))) : Option (Kind × String) :=
  match past with
  | ⟨.note (.update k key), _⟩ :: _ => some (k, key)
  | _ => none

/-- The thread, the key and the database of a get of an auth request. -/
def requestRead : Entry (server S u) → Option (Nat × String × Db)
  | .act tid _ (.db (.get .authRequest key)) _ pre _ => some (tid, key, pre.1)
  | _ => none

def FindsRequest (hist : List (Entry (server S u))) (e : Entry (server S u)) : Prop :=
  ∀ x ∈ requestRead e, entered (past x.1 hist) = some (.authRequest, x.2.1) →
    (x.2.2.lookup .authRequest x.2.1).isSome

instance (hist : List (Entry (server S u))) (e : Entry (server S u)) :
    Decidable (FindsRequest hist e) :=
  inferInstanceAs (Decidable (∀ x ∈ requestRead e, _))

def requestDeleted : Entry (server S u) → Option String
  | .act _ _ (.db (.delete .authRequest key)) (.ok n) _ _ => if n = 0 then none else some key
  | _ => none

def requestCreated : Entry (server S u) → String → Bool
  | .act _ _ (.db (.txn .authRequest key' .createRevisionZero _)) (.ok true) _ _, key => key' == key
  | _, _ => false

/-- The keys of the auth requests that were deleted and not created again. -/
def gone (hist : List (Entry (server S u))) : List String :=
  ongoing requestDeleted requestCreated hist

theorem absent_of_deleted {tid job o ans r w w' key} (hx : (server S u).exec job o ans w = some (r, w'))
    (hd : requestDeleted (.act tid job o r w w' : Entry (server S u)) = some key) :
    w'.1.lookup .authRequest key = none := by
  unfold requestDeleted at hd
  split at hd
  · rename_i key' n pre post heq
    cases heq
    split at hd
    · cases hd
    · rename_i hn
      cases hd
      rcases exec_db hx with ⟨hr, rfl⟩ | ⟨hr, _⟩
      · cases hl : w.1.lookup .authRequest key with
        | none =>
          rw [Db.serve_delete_none hl] at hr
          exact absurd (Except.ok.inj hr) hn
        | some kv =>
          show (Db.serve (.delete .authRequest key) w.1).2.lookup .authRequest key = none
          rw [Db.serve_delete hl]
          exact Versioned.lookup_remove_self
      · cases hr
  · cases hd

theorem absent_step {tid job o ans r w w' key} (hx : (server S u).exec job o ans w = some (r, w'))
    (habsent : w.1.lookup .authRequest key = none)
    (hc : requestCreated (.act tid job o r w w' : Entry (server S u)) key = false)
    (hrev : ∀ v, o ≠ .db (.txn .authRequest key (.modRevision 0) v)) : w'.1.lookup .authRequest key = none := by
  cases o with
  | note n => exact exec_note hx ▸ habsent
  | other o => exact exec_other hx ▸ habsent
  | db q =>
    rcases exec_db hx with ⟨rfl, rfl⟩ | ⟨_, rfl⟩
    · show (Db.serve q w.1).2.lookup .authRequest key = none
      cases q with
      | get | list => exact habsent
      | txn k key' cond v =>
        cases hh : Db.holds w.1 k key' cond with
        | false => exact Db.serve_txn_not hh v ▸ habsent
        | true =>
          by_cases hk : (Kind.authRequest, key) = (k, key')
          · -- the key is written: by a creation, or under the revision of an absent key
            cases hk
            cases cond with
            | createRevisionZero =>
              rw [Db.serve_txn hh v] at hc
              simp [requestCreated] at hc
            | modRevision n =>
              have hn : 0 = n := by simpa [Db.holds, Db.modRevision, habsent] using hh
              exact absurd (by rw [← hn]) (hrev v)
          · rw [Db.serve_txn hh v]
            exact (Versioned.lookup_write_ne v hk).trans habsent
      | delete k key' =>
        cases hl : w.1.lookup k key' with
        | none => exact Db.serve_delete_none hl ▸ habsent
        | some kv =>
          rw [Db.serve_delete hl]
          by_cases hk : (Kind.authRequest, key) = (k, key')
          · cases hk
            exact Versioned.lookup_remove_self
          · exact (Versioned.lookup_remove_ne hk).trans habsent
    · exact habsent

theorem revision_ne_zero {Init} {s : Sys (server S u)} (h : Reach Init s)
    (hC : Along FindsRequest s.hist) {tid : Nat} {job key v cont} :
    s.threads[tid]? ≠ some ⟨job, .act (.db (.txn .authRequest key (.modRevision 0) v)) cont⟩ := by
  intro hth
  obtain ⟨l1, l2, pre, before, hs, hpast, hzero⟩ := read_revision h hth
  rw [hs] at hC
  have hfound := hC.at.1 (tid, key, pre.1) rfl (by simp [entered, hpast])
  obtain ⟨kv, hkv⟩ := Option.isSome_iff_exists.mp hfound
  have hpos := (pre.1.numbered .authRequest key kv.1 kv.2 hkv).1
  simp only [Db.modRevision, hkv, Option.map_some, Option.getD] at hzero
  omega

theorem gone_absent {Init} {s : Sys (server S u)} (h : Reach Init s) (hC : Along FindsRequest s.hist) :
    ∀ key ∈ gone s.hist, s.world.1.lookup .authRequest key = none := by
  refine Reach.induct (C := FindsRequest)
    (I := fun s => ∀ key ∈ gone s.hist, s.world.1.lookup .authRequest key = none) ?_ ?_ ?_ ?_ h hC
  · intro w _ key hk
    cases hk
  · intro s req _ _ ih key hk
    exact ih key (by simpa [gone, Sys.spawn, requestDeleted, requestCreated] using hk)
  · intro s tid job o cont ans r w hr hC ih hth hx key hk
    rcases mem_ongoing_cons.mp hk with hd | ⟨hk, hc⟩
    · exact absent_of_deleted hx hd
    · refine absent_step hx (ih key hk) hc fun v ho => ?_
      subst ho
      exact revision_ne_zero hr hC.2 hth
  · intro s m w _ _ ih hm key hk
    cases hm
    exact ih key (by simpa [gone, Sys.moved, requestDeleted, requestCreated] using hk)

end

/-- An etcd update of an object that is there, and no other, does what the memory
storage does. In runs of servers and other processes in which the updates find the
auth requests they read, no deleted request is there again before it is created. -/
theorem missing_updates (S : Setup) (u : CaseTable) :
    (∀ (c : Call) (k : Kind) (key : String) (f : Obj k → Outcome (Obj k)) (db : Db),
      Updates u c k key f → (AsInMemory u c k key f db ↔ (db.lookup k key).isSome)) ∧
    (∀ s : Sys (server S u), Reach (fun _ => True) s → Along FindsRequest s.hist →
      ∀ key ∈ gone s.hist, s.world.1.lookup .authRequest key = none) :=
  ⟨fun _ _ _ _ db h => asInMemory_iff h db, fun _ h hC => gone_absent h hC⟩

/-! ## A login that comes too late

Alice has logged in once; she submits the login form again and approves meanwhile. -/

def loggedIn : Dex.AuthRequest where
  id := "r"
  clientID := "app"
  responseTypes := ["code"]
  scopes := ["openid"]
  redirectURI := "http://app/cb"
  nonce := ""
  state := ""
  forceApprovalPrompt := false
  expiry := 1000
  loggedIn := true
  claims := Dex.alice.claims
  connectorID := "a"

def loginDb : Db :=
  (Versioned.empty.write .connector (keyID connectorPrefix "a")
    (fromStorage .connector ⟨"a", "ldap", "A", "1", []⟩)).write .authRequest
      (keyID authRequestPrefix "r") (fromStorage .authRequest loggedIn)

abbrev DemoLabel := Label (server Dex.demo asciiCase)

def login (tid : Nat) : List DemoLabel :=
  .start (.request ⟨0, .connectorLogin ⟨"a", .post, "r", "alice", "pw"⟩⟩) ::
    [.done, .other .plain, .other (.opened { password := true }), .other .plain, .done, .other .plain,
      .other (.identity (some Dex.alice))].map (Label.act tid)

/-- The update at the end of a login. -/
def finalize (tid : Nat) : List DemoLabel := (List.replicate 4 .done).map (Label.act tid)

def approve (tid : Nat) : List DemoLabel :=
  .start (.request ⟨0, .approval ⟨.post, "r", "approve"⟩⟩) ::
    [.done, .other .plain, .done].map (Label.act tid)

@[irreducible] def punctualLogin : Sys (server Dex.demo asciiCase) :=
  .after (loginDb, Dex.demoWorld) (login 0 ++ finalize 0 ++ approve 1)

@[irreducible] def lateLogin : Sys (server Dex.demo asciiCase) :=
  .after (loginDb, Dex.demoWorld) (login 0 ++ approve 1 ++ finalize 0)

/-- A request that is there is updated as in memory, and a request approved after the
second login is gone for good. -/
theorem punctual_update : AsInMemory asciiCase (.updateAuthRequest "r" (Dex.setIdentity Dex.alice)) .authRequest
      "auth_req/r" (Dex.setIdentity Dex.alice) loginDb ∧ gone punctualLogin.hist = ["auth_req/r"] ∧
    punctualLogin.world.1.lookup .authRequest "auth_req/r" = none := by
  obtain ⟨hone, hrun⟩ := missing_updates Dex.demo asciiCase
  have hfacts : Along FindsRequest punctualLogin.hist ∧ gone punctualLogin.hist = ["auth_req/r"] := by
    decide +kernel
  have hreach : Reach (fun _ => True) punctualLogin := by
    unfold punctualLogin
    exact .after trivial _
  refine ⟨(hone _ _ _ _ _ (.authRequest "r" _)).mpr (by decide +kernel), hfacts.2, ?_⟩
  exact hrun _ hreach hfacts.1 _ (by simp [hfacts.2])

/-- An update of a request that is not there creates it: alone, and at the end of a
login during which the request was approved. -/
theorem revived_request : (((run asciiCase (.updateAuthRequest "r" (Dex.setIdentity Dex.alice))).alone respond
        ((Versioned.empty : Db), [])).2.1.lookup .authRequest "auth_req/r").isSome ∧
    ¬ AsInMemory asciiCase (.updateAuthRequest "r" (Dex.setIdentity Dex.alice)) .authRequest
      "auth_req/r" (Dex.setIdentity Dex.alice) .empty ∧
    Reach (fun _ => True) lateLogin ∧ "auth_req/r" ∈ gone lateLogin.hist ∧
    (lateLogin.world.1.lookup .authRequest "auth_req/r").isSome := by
  refine ⟨by decide +kernel, ?_, ?_, by decide +kernel⟩
  · exact (asInMemory_iff (.authRequest "r" _) _).not.mpr (by decide)
  · unfold lateLogin
    exact .after trivial _

end Etcd

end KubeYamls.Store
