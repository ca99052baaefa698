import KubeYamls.Dex.System
import KubeYamls.Store.EtcdCommits

/-! # Dex servers over etcd

The handlers of the server with their storage calls carried out on etcd, request
by request. A handler is the same program as over the memory storage; what was
one storage call there are here the requests of an etcd method, and other threads
may run between them. -/
namespace KubeYamls.Store.Etcd
open Data Conc Prog
open Dex (Error Outcome CaseTable GCResult Setup)

/-- `UpdateKeys` with the updater of the rotation, which reads the clock twice. -/
def rotateKeys (updater : Dex.Time → Dex.Time → Dex.Keys → Outcome Dex.Keys) :
    Conn Dex.sig (Outcome Dex.Keys) := do
  note (.update .keys keysName)
  let r ← txnUpdate .keys keysName fun currentValue => do
    note (.updater .keys keysName)
    let t ← op (S := sig Dex.sig) (.other .now)
    let t' ← op (S := sig Dex.sig) (.other .now)
    return updater t t' (currentValue.getD (zero .keys))
  return r.map fun current => current.getD (zero .keys)

/-- The result of `GarbageCollect`, or its error. -/
def collected (r : GCResult × Option Error) : Except Error GCResult :=
  match r.2 with
  | none => .ok r.1
  | some e => .error e

/-- The calls of a handler: the storage methods on etcd, the others as they are. -/
def implement (u : CaseTable) : (o : Dex.Op) → Conn Dex.sig (Dex.Res o)
  | .getClient id => getClient id
  | .getConnector id => getConnector id
  | .listConnectors => listConnectors
  | .createAuthRequest a => createAuthRequest a
  | .getAuthRequest id => getAuthRequest id
  | .updateAuthRequest id f => updateAuthRequest id f
  | .deleteAuthRequest id => deleteAuthRequest id
  | .createAuthCode c => createAuthCode c
  | .getAuthCode id => getAuthCode id
  | .deleteAuthCode id => deleteAuthCode id
  | .createRefresh r => createRefresh r
  | .getRefresh id => getRefresh id
  | .updateRefreshToken id f => updateRefreshToken id f
  | .deleteRefresh id => deleteRefresh id
  | .createOfflineSessions o => createOfflineSessions u o
  | .getOfflineSessions userID connID => getOfflineSessions u userID connID
  | .updateOfflineSessions userID connID f => updateOfflineSessions u userID connID f
  | .getKeys => getKeys
  | .updateKeys f => rotateKeys f
  | .garbageCollect now => do return collected (← garbageCollect now)
  | o => op (S := sig Dex.sig) (.other o)

/-- A request to a server, or a storage call of some other process. -/
inductive Job where
  | request (req : Dex.Request)
  | call (c : Call)

def Job.inst : Job → Nat
  | .request req => req.inst
  | .call _ => 0

def serve (S : Setup) (u : CaseTable) : Job → Conn Dex.sig Unit
  | .request req => (Dex.serve S req).subst (implement u)
  | .call c => do
    let _ ← run u c
    return ()

/-- Servers and other processes on one etcd. The store of the memory storage is not
used. -/
abbrev server (S : Setup) (u : CaseTable) : Machine (sig Dex.sig) where
  World := Db × Dex.World
  Req := Job
  Ans := Ans Dex.Ans
  Move := Nat
  main := serve S u
  exec := fun job => exec (Dex.exec S.codec job.inst)
  move := fun d w => some (w.1, { w.2 with clock := w.2.clock + d })

/-! ## Where the revision of an update comes from -/

section
variable {S : Sig}

/-- A transaction with a revision comes after the get of an `Update` method, and the
revision is the one this get returned. -/
def updates : Contract (sig S) where
  duty past
    | .db (.txn k key (.modRevision n) _) => ∃ later current before,
      past = later ++ ⟨.db (.get k key), .ok current⟩ :: ⟨.note (.update k key), ()⟩ :: before ∧
        n = (current.map Prod.snd).getD 0
    | _ => True
  grant _ _ _ := True

/-- Whatever was called before. -/
def Updating {α : Type} (p : Conn S α) : Prop := ∀ past, p.wp updates (fun _ _ => True) past

variable {α β : Type}

theorem updating_ret (a : α) : Updating (pure a : Conn S α) := fun _ => trivial

theorem updating_bind {p} {f : α → Conn S β} (hp : Updating p)
    (hf : ∀ a, Updating (f a)) : Updating (p >>= f) := fun past =>
  wp_seq (hp past) fun past a _ => hf a past

theorem updating_op {o} (h : ∀ past, (updates (S := S)).duty past o) : Updating (op (S := sig S) o) := fun past =>
  wp_op (S := sig S) (h past) fun _ _ => trivial

theorem updating_getKey (k : Kind) (key : String) : Updating (getKey (S := S) k key) := by
  refine updating_bind (updating_op fun _ => trivial) fun r => ?_
  match r with
  | .error _ | .ok none | .ok (some _) => exact updating_ret _

theorem updating_listKeys (k : Kind) : Updating (listKeys (S := S) k) := by
  refine updating_bind (updating_op fun _ => trivial) fun r => ?_
  match r with
  | .error _ | .ok _ => exact updating_ret _

theorem updating_txnCreate (k : Kind) (key : String) (v : Doc k) : Updating (txnCreate (S := S) k key v) := by
  refine updating_bind (updating_op fun _ => trivial) fun r => ?_
  match r with
  | .error _ | .ok false | .ok true => exact updating_ret _

theorem updating_deleteKey (k : Kind) (key : String) : Updating (deleteKey (S := S) k key) := by
  refine updating_bind (updating_op fun _ => trivial) fun r => ?_
  match r with
  | .error _ | .ok 0 | .ok (_ + 1) => exact updating_ret _

theorem updating_deleteKeys (k : Kind) (what : String) (keys : List String) (delErr : Option Error) :
    Updating (deleteKeys (S := S) k what keys delErr) := by
  induction keys generalizing delErr with
  | nil => exact updating_ret _
  | cons key keys ih =>
    refine updating_bind (updating_deleteKey k key) fun r => ?_
    match r with
    | .error _ | .ok () => exact ih _

theorem updating_garbageCollect (now : Dex.Time) : Updating (garbageCollect (S := S) now) := by
  refine updating_bind (updating_op fun _ => trivial) fun r => ?_
  match r with
  | .error e => exact updating_ret _
  | .ok authRequests =>
    refine updating_bind (updating_deleteKeys _ _ _ _) fun delErr => ?_
    match delErr with
    | some e => exact updating_ret _
    | none =>
      refine updating_bind (updating_op fun _ => trivial) fun r => ?_
      match r with
      | .error e => exact updating_ret _
      | .ok authCodes => exact updating_bind (updating_deleteKeys _ _ _ _) fun _ => updating_ret _

theorem updating_txnUpdate (k : Kind) (key : String) {update} (hu : ∀ current, Updating (update current))
    {f : Outcome (Option (Doc k)) → Conn S β} (hf : ∀ r, Updating (f r)) :
    Updating (note (.update k key) >>= fun _ => txnUpdate k key update >>= f) := by
  intro past
  refine wp_step trivial fun _ _ => wp_seq (R := fun _ _ => True) ?_ fun past r _ => hf r past
  refine wp_step trivial fun r _ => ?_
  match r with
  | .error e => exact updating_ret _ _
  | .ok current =>
    refine wp_seq (wp_extends (hu _ _)) fun past' res hpast => ?_
    obtain ⟨_, l, rfl⟩ := hpast
    match res with
    | .error _ | .panic => exact updating_ret _ _
    | .ok v =>
      refine wp_step ⟨l, current, past, rfl, rfl⟩ fun r _ => ?_
      match r with
      | .error _ | .ok false | .ok true => exact updating_ret _ _

theorem updating_updateKey (k : Kind) (key : String) (f : Obj k → Outcome (Obj k)) :
    Updating (updateKey (S := S) k key f) :=
  updating_txnUpdate k key (fun _ => updating_bind
    (updating_op (o := .note (.updater k key)) fun _ => trivial) fun _ => updating_ret _)
    fun _ => updating_ret _

theorem updating_run (u : CaseTable) (c : Call) : Updating (run (S := S) u c) := by
  have hc := form_run (S := S) u c
  generalize action u c = a, run u c = p at hc ⊢
  cases hc with
  | create k key o => exact updating_bind (updating_txnCreate k key _) fun _ => updating_ret _
  | update k key f => exact updating_bind (updating_updateKey k key f) fun _ => updating_ret _
  | delete k key => exact updating_bind (updating_deleteKey k key) fun _ => updating_ret _

end

theorem updating_rotateKeys (f : Dex.Time → Dex.Time → Dex.Keys → Outcome Dex.Keys) :
    Updating (rotateKeys f) := by
  have hnow : Updating (op (S := sig Dex.sig) (.other .now)) := updating_op fun _ => trivial
  refine updating_txnUpdate .keys keysName (fun _ => updating_bind
    (updating_op (o := .note (.updater .keys keysName)) fun _ => trivial) fun _ => ?_)
    fun _ => updating_ret _
  exact updating_bind hnow fun _ => updating_bind hnow fun _ => updating_ret _

theorem updating_implement (u : CaseTable) (o : Dex.Op) : Updating (implement u o) := by
  cases o with
  | getClient | getConnector | getAuthRequest | getAuthCode | getRefresh | getOfflineSessions =>
    exact updating_getKey _ _
  | createAuthRequest | createAuthCode | createRefresh | createOfflineSessions =>
    exact updating_txnCreate _ _ _
  | updateAuthRequest | updateRefreshToken | updateOfflineSessions => exact updating_updateKey _ _ _
  | deleteAuthRequest | deleteAuthCode | deleteRefresh => exact updating_deleteKey _ _
  | listConnectors => exact updating_listKeys _
  | getKeys =>
    refine updating_bind (updating_op (o := .db (.get .keys keysName)) fun _ => trivial) fun r => ?_
    match r with
    | .error _ | .ok none | .ok (some _) => exact updating_ret _
  | updateKeys f => exact updating_rotateKeys f
  | garbageCollect now => exact updating_bind (updating_garbageCollect now) fun _ => updating_ret _
  | _ => exact updating_op fun _ => trivial

variable {S : Setup} {u : CaseTable}

theorem updating_serve (job : Job) : Updating (serve S u job) := by
  cases job with
  | request req => exact fun past => wp_subst (updating_implement u) _ past
  | call c => exact updating_bind (updating_run u c) fun _ => updating_ret _

/-- In a run, the transaction of an update carries the revision that the update's
get returned, or 0 if it found nothing. -/
theorem read_revision {Init s} (h : Reach Init s) {tid job k key n v cont}
    (hth : s.threads[tid]? = some ⟨job, .act (.db (.txn k key (.modRevision n) v)) cont⟩) :
    ∃ (l1 l2 : List (Entry (server S u))) (pre : Db × Dex.World) (before : List (Ev (sig Dex.sig))),
      s.hist = l1 ++ .act tid job (.db (.get k key)) (.ok (pre.1.lookup k key)) pre pre :: l2 ∧
      past tid l2 = ⟨.note (.update k key), ()⟩ :: before ∧ n = Db.modRevision pre.1 k key := by
  obtain ⟨later, current, before, hpast, hn⟩ := (h.contract (C := fun _ => updates)
    (Q := fun _ _ _ => True) (fun job => updating_serve job [])
    (fun _ _ _ _ _ _ _ _ _ _ _ => trivial) tid _ hth).1
  obtain ⟨l1, job', pre, post, l2, hs, _, hl2⟩ := past_split hpast
  obtain ⟨p, hth'⟩ := h.thread_of_mem (hs ▸ List.mem_append_right _ List.mem_cons_self)
  cases (congrArg Thread.req (Option.some.inj (hth.symm.trans hth')))
  obtain ⟨s0, _, _, _, _, rfl, _, hx⟩ := h.split_act hs
  rcases exec_db hx with ⟨hr, rfl⟩ | ⟨hr, _⟩
  · obtain rfl : current = s0.world.1.lookup k key := Except.ok.inj hr
    exact ⟨l1, l2, s0.world, before, hs, hl2, hn⟩
  · cases hr

end KubeYamls.Store.Etcd
