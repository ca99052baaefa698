import KubeYamls.Store.Etcd

/-! # Concurrent calls on etcd

Any number of connections to one etcd, each making one call at a time, with their
requests interleaved in any way. An update reads a value with its revision and
writes under the condition that the revision is still the same; a revision stands
for one value, so the write takes effect on the value the updater saw. -/
namespace KubeYamls.Store.Etcd
open Data Conc Prog List Option
open Dex (Error Outcome CaseTable)

/-! ## Calls as threads -/

section
variable (u : CaseTable) {S : Sig}

/-- What a call does, on the keys of etcd. An updater is called on the zero value
where there is no object. -/
def action : Call → Action
  | .createAuthRequest a => .create .authRequest (keyID authRequestPrefix a.id) a
  | .createClient c => .create .client (keyID clientPrefix c.id) c
  | .createAuthCode c => .create .authCode (keyID authCodePrefix c.id) c
  | .createRefresh r => .create .refreshToken (keyID refreshTokenPrefix r.id) r
  | .createPassword p => .create .password (keyEmail u passwordPrefix p.email) p
  | .createOfflineSessions s =>
    .create .offlineSessions (keySession u offlineSessionPrefix s.userID s.connID) s
  | .createConnector c => .create .connector (keyID connectorPrefix c.id) c
  | .updateClient id f => orZero .client (keyID clientPrefix id) f
  | .updateKeys f => orZero .keys keysName f
  | .updateAuthRequest id f => orZero .authRequest (keyID authRequestPrefix id) f
  | .updateRefreshToken id f => orZero .refreshToken (keyID refreshTokenPrefix id) f
  | .updatePassword email f => orZero .password (keyEmail u passwordPrefix email) f
  | .updateOfflineSessions userID connID f =>
    orZero .offlineSessions (keySession u offlineSessionPrefix userID connID) f
  | .updateConnector id f => orZero .connector (keyID connectorPrefix id) f
  | .deleteAuthRequest id => .delete .authRequest (keyID authRequestPrefix id)
  | .deleteAuthCode code => .delete .authCode (keyID authCodePrefix code)
  | .deleteClient id => .delete .client (keyID clientPrefix id)
  | .deleteRefresh id => .delete .refreshToken (keyID refreshTokenPrefix id)
  | .deletePassword email => .delete .password (keyEmail u passwordPrefix email)
  | .deleteOfflineSessions userID connID =>
    .delete .offlineSessions (keySession u offlineSessionPrefix userID connID)
  | .deleteConnector id => .delete .connector (keyID connectorPrefix id)
where
  orZero (k : Kind) (key : String) (f : Obj k → Outcome (Obj k)) : Action :=
    .update k key fun current => f (current.getD (toStorage k (zero k)))

/-- The method behind a call, and what it returns. -/
def run : Call → Conn S (Outcome Unit)
  | .createAuthRequest a => do return .ofExcept (← createAuthRequest a)
  | .createClient c => do return .ofExcept (← createClient c)
  | .createAuthCode c => do return .ofExcept (← createAuthCode c)
  | .createRefresh r => do return .ofExcept (← createRefresh r)
  | .createPassword p => do return .ofExcept (← createPassword u p)
  | .createOfflineSessions s => do return .ofExcept (← createOfflineSessions u s)
  | .createConnector c => do return .ofExcept (← createConnector c)
  | .updateClient id f => do return (← updateClient id f).map fun _ => ()
  | .updateKeys f => do return (← updateKeys f).map fun _ => ()
  | .updateAuthRequest id f => do return (← updateAuthRequest id f).map fun _ => ()
  | .updateRefreshToken id f => do return (← updateRefreshToken id f).map fun _ => ()
  | .updatePassword email f => do return (← updatePassword u email f).map fun _ => ()
  | .updateOfflineSessions userID connID f => do
    return (← updateOfflineSessions u userID connID f).map fun _ => ()
  | .updateConnector id f => do return (← updateConnector id f).map fun _ => ()
  | .deleteAuthRequest id => do return .ofExcept (← deleteAuthRequest id)
  | .deleteAuthCode code => do return .ofExcept (← deleteAuthCode code)
  | .deleteClient id => do return .ofExcept (← deleteClient id)
  | .deleteRefresh id => do return .ofExcept (← deleteRefresh id)
  | .deletePassword email => do return .ofExcept (← deletePassword u email)
  | .deleteOfflineSessions userID connID => do
    return .ofExcept (← deleteOfflineSessions u userID connID)
  | .deleteConnector id => do return .ofExcept (← deleteConnector id)

def perform (c : Call) : Conn returns Unit := do
  let r ← run u c
  op (S := sig returns) (.other r)

end

/-- Connections that make calls on one etcd, in any interleaving of their requests. -/
abbrev etcd (u : CaseTable) : Machine (sig returns) where
  World := Db × Unit
  Req := Call
  Ans := Ans Unit
  Move := Empty
  main := perform u
  exec := fun _ => exec fun _ _ w => some ((), w)
  move := fun m _ => m.elim

variable {u : CaseTable} {S : Sig}

inductive Form : Action → Conn S (Outcome Unit) → Prop
  | create (k : Kind) (key : String) (o : Obj k) :
    Form (.create k key o) (do return .ofExcept (← txnCreate k key (fromStorage k o)))
  | update (k : Kind) (key : String) (f : Obj k → Outcome (Obj k)) :
    Form (action.orZero k key f) (do return (← updateKey k key f).map fun _ => ())
  | delete (k : Kind) (key : String) :
    Form (.delete k key) (do return .ofExcept (← deleteKey k key))

theorem form_run (u : CaseTable) (c : Call) : Form (action u c) (run (S := S) u c) := by
  cases c with
  | createAuthRequest | createAuthCode | createRefresh | createOfflineSessions => exact .create _ _ _
  | createClient => exact .create .client _ _
  | createPassword => exact .create .password _ _
  | createConnector => exact .create .connector _ _
  | updateClient | updateKeys | updateAuthRequest | updateRefreshToken | updatePassword
  | updateOfflineSessions | updateConnector => exact .update _ _ _
  | deleteAuthRequest | deleteAuthCode | deleteClient | deleteRefresh | deletePassword
  | deleteOfflineSessions | deleteConnector => exact .delete _ _

theorem exec_advance {A W : Type} {outer} {o : Op S}
    {ans : Ans A} {s s' r} (h : exec outer o ans s = some (r, s')) :
    Advance (fun w : Db × W => w.1.cell) (fun w => w.1.revision) s s' := by
  have hdb : Advance Versioned.cell Versioned.revision s.1 s'.1 := by
    cases o with
    | db q =>
      rcases exec_db h with ⟨_, rfl⟩ | ⟨_, rfl⟩
      · exact Db.serve_advance q
      · exact .refl _
    | note n => exact exec_note h ▸ .refl _
    | other o => exact exec_other h ▸ .refl _
  exact ⟨hdb.rev_le, hdb.cell⟩

def cells (u : CaseTable) : Cells (etcd u) (Kind × String) (fun k => Doc k.1) where
  cell := fun w => w.1.cell
  rev := fun w => w.1.revision
  exec_advance := exec_advance
  move_advance := fun {m} => m.elim

/-- A transaction that succeeded, or a deletion that deleted something. -/
def commits : Ev (sig S) → Bool
  | ⟨.db (.txn _ _ _ _), .ok succeeded⟩ => succeeded
  | ⟨.db (.delete _ _), .ok deleted⟩ => deleted != 0
  | _ => false

theorem serve_quiet {db q} (h : commits (⟨.db q, .ok (Db.serve q db).1⟩ : Ev (sig S)) = false) :
    (Db.serve q db).2 = db := by
  cases q with
  | get | list => rfl
  | txn k key cond v =>
    cases hh : Db.holds db k key cond with
    | true =>
      rw [Db.serve_txn hh v] at h
      cases h
    | false => rw [Db.serve_txn_not hh v]
  | delete k key =>
    cases hl : db.lookup k key with
    | some kv =>
      rw [Db.serve_delete hl] at h
      cases h
    | none => rw [Db.serve_delete_none hl]

/-- A call takes effect there, and reports to its caller. -/
def reporting : Reporting (sig returns) (Outcome Unit) where
  commits := commits
  report r := .other r
  nil := .ok ()
  report_inj _ _ := Op.other.inj
  report_quiet _ _ := rfl

def ledger (u : CaseTable) : Ledger (etcd u) Objects where
  view := fun w => objects toStorage w.1
  means := fun c => (action u c).apply
  commits := commits

/-- What a call with action `a` keeps to: before it has taken effect, a transaction
puts what the action makes of the value that was read under the revision the
transaction names, and a deletion is the action itself. -/
def Duty (a : Action) (past : List (Ev (sig returns))) : Op returns → Prop
  | .db (.txn k key .createRevisionZero v) =>
    reporting.Clean past ∧ ∃ o, a = .create k key o ∧ v = fromStorage k o
  | .db (.txn k key (.modRevision n) v) =>
    reporting.Clean past ∧ ∃ f current new, a = .update k key f ∧
      (⟨.db (.get k key), .ok current⟩ : Ev (sig returns)) ∈ past ∧
      n = (current.map Prod.snd).getD 0 ∧
      f (current.map fun kv => toStorage k kv.1) = .ok new ∧ v = fromStorage k new
  | .db (.delete k key) => reporting.Clean past ∧ a = .delete k key
  | _ => True

abbrev obligations (a : Action) : Contract (sig returns) :=
  reporting.contract (Duty a) fun _ _ => True

/-! ## Every method meets its obligations -/

section
variable {a : Action} {past : List (Ev (sig returns))} {k : Kind} {key : String}

theorem duty_db (h : reporting.Open past) {q} (hd : Duty a past (.db q)) :
    (obligations a).duty past (.db q) := ⟨h, fun _ => nofun, hd⟩

section
variable (h : reporting.Pending past)
include h

theorem pending_db {q x} (hx : commits (⟨.db q, x⟩ : Ev (sig returns)) = false) :
    reporting.Pending ((⟨.db q, x⟩ : Ev (sig returns)) :: past) :=
  Reporting.Pending.quiet (S := sig returns) (o := .db q) h (fun _ => nofun) hx

theorem pending_note (n : Note) : reporting.Pending ((⟨.note n, ()⟩ : Ev (sig returns)) :: past) :=
  Reporting.Pending.quiet (S := sig returns) (o := .note n) h (fun _ => nofun) rfl

theorem settled_db {q x} (hx : commits (⟨.db q, x⟩ : Ev (sig returns)) = true) :
    reporting.Settled ((⟨.db q, x⟩ : Ev (sig returns)) :: past) (.ok ()) :=
  Reporting.Pending.committed (S := sig returns) (o := .db q) h (fun _ => nofun) hx

theorem wp_txnCreate {o} (ha : a = .create k key o) : (txnCreate k key (fromStorage k o)).wp (obligations a)
      (fun past r => reporting.Settled past (.ofExcept r)) past := by
  refine wp_step (duty_db h.opened ⟨h.clean, o, ha, rfl⟩) fun r _ => ?_
  match r with
  | .error _ | .ok false => exact wp_ret ((pending_db h rfl).settled nofun)
  | .ok true => exact wp_ret (settled_db h rfl)

theorem wp_deleteKey (ha : a = .delete k key) : (deleteKey k key).wp (obligations a)
      (fun past r => reporting.Settled past (.ofExcept r)) past := by
  refine wp_step (duty_db h.opened ⟨h.clean, ha⟩) fun r _ => ?_
  match r with
  | .error _ | .ok 0 => exact wp_ret ((pending_db h rfl).settled nofun)
  | .ok (n + 1) => exact wp_ret (settled_db h rfl)

theorem wp_updateKey {f} (ha : a = action.orZero k key f) : (updateKey k key f).wp (obligations a)
      (fun past r => reporting.Settled past (r.map fun _ => ())) past := by
  refine wp_step ⟨h.opened, fun _ => nofun, trivial⟩ fun _ _ => ?_
  have h1 := pending_note h (.update k key)
  refine wp_seq (R := fun past r => reporting.Settled past (r.map fun _ => ())) ?_
    fun past r hr => ?_
  · refine wp_step (duty_db h1.opened trivial) fun r _ => ?_
    have h2 := pending_db h1 (q := .get k key) (x := r) rfl
    match r with
    | .error e => exact wp_ret (h2.settled nofun)
    | .ok current =>
      refine (wp_bind _ _).mpr (wp_step ⟨h2.opened, fun _ => nofun, trivial⟩ fun _ _ => ?_)
      have h3 := pending_note h2 (.updater k key)
      have hget : (current.map fun kv => toStorage k kv.1).getD (toStorage k (zero k)) =
          toStorage k ((current.map Prod.fst).getD (zero k)) := by
        cases current <;> rfl
      refine wp_ret ?_
      cases hf : f (toStorage k ((current.map Prod.fst).getD (zero k))) with
      | error | panic => exact wp_ret (h3.settled nofun)
      | ok new =>
        refine wp_step (duty_db h3.opened ⟨h3.clean, _, current, new, ha, ?_, rfl, ?_, rfl⟩)
          fun r _ => ?_
        · exact mem_cons_of_mem _ mem_cons_self
        · rw [hget, hf]
        · match r with
          | .error _ | .ok false => exact wp_ret ((pending_db h3 rfl).settled nofun)
          | .ok true => exact wp_ret (settled_db h3 rfl)
  · refine wp_ret ?_
    cases r <;> exact hr

end

end

theorem wp_run (u : CaseTable) (c : Call) : (run u c).wp (obligations (action u c)) reporting.Settled [] := by
  have h := reporting.pending_nil
  have hc := form_run (S := returns) u c
  generalize action u c = a, run u c = p at hc ⊢
  cases hc with
  | create k key o => exact wp_seq (wp_txnCreate h rfl) fun _ _ hr => hr
  | update k key f => exact wp_seq (wp_updateKey h rfl) fun _ _ hr => hr
  | delete k key => exact wp_seq (wp_deleteKey h rfl) fun _ _ hr => hr

theorem wp_perform (u : CaseTable) (c : Call) :
    (perform u c).wp (obligations (action u c)) (fun past _ => reporting.Reported past) [] :=
  wp_seq (wp_run u c) fun past r hr => wp_op (S := sig returns) (o := .other r)
    ⟨hr.opened, fun _ he => Op.other.inj he ▸ hr, trivial⟩ fun x _ => ⟨r, x, past, rfl, hr⟩

/-! ## Runs -/

section
variable {Init : Db × Unit → Prop} {s : Sys (etcd u)}

theorem Reach.duty (h : Reach Init s) {tid c o k} (hth : s.threads[tid]? = some ⟨c, .act o k⟩) :
    Duty (action u c) (past tid s.hist) o :=
  (h.contract (C := fun c => obligations (action u c)) (wp_perform u)
    (fun _ _ _ _ _ _ _ _ _ _ _ => trivial) tid _ hth).1.2.2

theorem numbered (w : Db × Unit) : Numbered (cells u).cell (cells u).rev w :=
  fun k => w.1.numbered k.1 k.2

theorem current_value (h : Reach Init s) {tid k key current}
    (hget : (⟨.db (.get k key), .ok current⟩ : Ev (sig returns)) ∈ past tid s.hist)
    (hrev : Db.modRevision s.world.1 k key = (current.map Prod.snd).getD 0) :
    objects toStorage s.world.1 k key = current.map fun kv => toStorage k kv.1 := by
  obtain ⟨c, pre, post, hm⟩ := mem_past.mp hget
  obtain ⟨l1, l2, hs⟩ := append_of_mem hm
  obtain ⟨s0, _, _, h0, _, rfl, _, hx⟩ := h.split_act hs
  obtain rfl : current = s0.world.1.lookup k key := by
    rcases exec_db hx with ⟨hr, _⟩ | ⟨hr, _⟩
    · exact Except.ok.inj hr
    · cases hr
  have hsame := (cells u).same_value (fun w _ => numbered w) h (.pre hm)
  cases hnow : s.world.1.lookup k key with
  | none =>
    cases hthen : s0.world.1.lookup k key with
    | none => simp [objects, hnow]
    | some kv =>
      have hpos := (s0.world.1.numbered k key kv.1 kv.2 hthen).1
      simp only [Db.modRevision, hnow, hthen, map_none, map_some, Option.getD] at hrev
      omega
  | some kv =>
    have hpos := (s.world.1.numbered k key kv.1 kv.2 hnow).1
    cases hthen : s0.world.1.lookup k key with
    | none =>
      simp only [Db.modRevision, hnow, hthen, map_none, map_some, Option.getD] at hrev
      omega
    | some kv' =>
      simp only [Db.modRevision, hnow, hthen, map_some, Option.getD] at hrev
      have hv : kv.1 = kv'.1 := (hsame (k, key) kv'.1 kv'.2 hthen).2 kv.1 (hrev ▸ hnow)
      simp [objects, hnow, hv]

theorem commit_txn (h : Reach Init s) {tid c k key cond v}
    (hd : Duty (action u c) (past tid s.hist) (.db (.txn k key cond v)))
    (hh : Db.holds s.world.1 k key cond = true) : (action u c).apply (objects toStorage s.world.1) =
        some (objects toStorage (s.world.1.write k key v)) ∧ reporting.Clean (past tid s.hist) := by
  rw [objects_write]
  cases cond with
  | createRevisionZero =>
    obtain ⟨hc, o, ha, rfl⟩ := hd
    have hnone : objects toStorage s.world.1 k key = none := by
      simpa [objects, Db.holds] using hh
    rw [ha, Action.apply_create hnone, toStorage_fromStorage]
    exact ⟨rfl, hc⟩
  | modRevision n =>
    obtain ⟨hc, f, current, new, ha, hget, rfl, hf, rfl⟩ := hd
    have hcur := current_value h hget (by simpa [Db.holds] using hh)
    rw [ha, Action.apply_update (hcur ▸ hf), toStorage_fromStorage]
    exact ⟨rfl, hc⟩

theorem commit_delete {tid c k key} (hd : Duty (action u c) (past tid s.hist) (.db (.delete k key))) {kv}
    (hl : s.world.1.lookup k key = some kv) : (action u c).apply (objects toStorage s.world.1) =
        some (objects toStorage (s.world.1.remove k key)) ∧ reporting.Clean (past tid s.hist) := by
  obtain ⟨hc, ha⟩ := hd
  refine ⟨?_, hc⟩
  rw [ha, objects_remove]
  exact Action.apply_delete (o := toStorage k kv.1) (by simp [objects, hl])

theorem ledger_kept : (ledger u).Kept Init where
  commit := by
    intro s tid c o cont ans r w h hth hx hcommit
    have hd := Reach.duty h hth
    cases o with
    | note | other => cases hcommit
    | db q =>
      cases q with
      | get | list => cases hcommit
      | txn k key cond v =>
        rcases exec_db hx with ⟨rfl, rfl⟩ | ⟨rfl, _⟩
        · cases hh : Db.holds s.world.1 k key cond with
          | true => exact Db.serve_txn hh v ▸ commit_txn h hd hh
          | false =>
            rw [Db.serve_txn_not hh v] at hcommit
            cases hcommit
        · cases hcommit
      | delete k key =>
        rcases exec_db hx with ⟨rfl, rfl⟩ | ⟨rfl, _⟩
        · cases hl : s.world.1.lookup k key with
          | some kv => exact Db.serve_delete hl ▸ commit_delete hd hl
          | none =>
            rw [Db.serve_delete_none hl] at hcommit
            cases hcommit
        · cases hcommit
  quiet := by
    intro c o ans w r w' hx hcommit
    cases o with
    | note n => exact congrArg (fun w => objects toStorage w.1) (exec_note hx)
    | other o => exact congrArg (objects toStorage) (exec_other hx)
    | db q =>
      rcases exec_db hx with ⟨rfl, rfl⟩ | ⟨rfl, rfl⟩
      · exact congrArg (objects toStorage) (serve_quiet hcommit)
      · rfl
  move := fun {m} => m.elim

end

theorem serialized {db s} (h : Reach (· = (db, ())) s) : Serialized (ledger u) reporting.report (db, ()) s :=
  .of_kept ledger_kept h fun _ _ _ hr =>
    reporting.nil_iff (D := fun c => Duty (action u c)) (wp_perform u)
      (fun _ _ _ _ _ _ _ => trivial) h hr

end KubeYamls.Store.Etcd
