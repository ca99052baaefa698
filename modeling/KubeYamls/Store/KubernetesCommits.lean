import KubeYamls.Store.Kubernetes

/-! # Concurrent calls on the API server

As with etcd, calls of any number of connections with their requests interleaved.
An update carries the metadata of the object it read into the object it puts, and
with it the resource version. -/
namespace KubeYamls.Store.Kubernetes
open Data Conc Prog Api
open Dex (Error Outcome CaseTable)

section
variable (u : CaseTable) {S : Sig}

/-- What a call does, on the names of the API server. An update needs an object, and
the one that is meant; the fields that name it are kept. -/
def action : Call → Action
  | .createAuthRequest a => .create .authRequest a.id a
  | .createClient c => .create .client (idToName c.id) c
  | .createAuthCode c => .create .authCode c.id c
  | .createRefresh r => .create .refreshToken r.id r
  | .createPassword p =>
    .create .password (idToName (u.lower p.email)) { p with email := u.lower p.email }
  | .createOfflineSessions s => .create .offlineSessions (offlineTokenName s.userID s.connID) s
  | .createConnector c => .create .connector c.id c
  | .updateClient id f => found .client (idToName id) (fun old => decide (old.id = id))
      (fun old new => { new with id := old.id }) f
  | .updateKeys f => .update .keys keysName fun current => f (current.getD {})
  | .updateAuthRequest id f => found .authRequest id (fun _ => true)
      (fun _ new => { new with id := id }) f
  | .updateRefreshToken id f => found .refreshToken id (fun _ => true)
      (fun _ new => { new with id := id }) f
  | .updatePassword email f =>
    found .password (idToName (u.lower email)) (fun old => decide (u.lower email = old.email))
      (fun old new => { new with email := old.email }) f
  | .updateOfflineSessions userID connID f =>
    found .offlineSessions (offlineTokenName userID connID)
      (fun old => decide (userID = old.userID ∧ connID = old.connID)) (fun _ new => new) f
  | .updateConnector id f => found .connector id (fun _ => true) (fun _ new => new) f
  | .deleteAuthRequest id => .delete .authRequest id
  | .deleteAuthCode code => .delete .authCode code
  | .deleteClient id => .delete .client (idToName id)
  | .deleteRefresh id => .delete .refreshToken id
  | .deletePassword email => .delete .password (idToName (u.lower email))
  | .deleteOfflineSessions userID connID => .delete .offlineSessions (offlineTokenName userID connID)
  | .deleteConnector id => .delete .connector id
where
  found (k : Kind) (name : String) (meant : Obj k → Bool) (fix : Obj k → Obj k → Obj k)
      (f : Obj k → Outcome (Obj k)) : Action :=
    .update k name fun current => match current with
      | none => .error .notFound
      | some old => if meant old then (f old).map (fix old) else .error failure

/-- The method behind a call, and what it returns. -/
def run : Call → Conn S (Outcome Unit)
  | .createAuthRequest a => do return .ofExcept (← createAuthRequest a)
  | .createClient c => do return .ofExcept (← createClient c)
  | .createAuthCode c => do return .ofExcept (← createAuthCode c)
  | .createRefresh r => do return .ofExcept (← createRefresh r)
  | .createPassword p => do return .ofExcept (← createPassword u p)
  | .createOfflineSessions s => do return .ofExcept (← createOfflineSessions s)
  | .createConnector c => do return .ofExcept (← createConnector c)
  | .updateClient id f => do return (← updateClient u id f).map fun _ => ()
  | .updateKeys f => do return (← updateKeys f).map fun _ => ()
  | .updateAuthRequest id f => do return (← updateAuthRequest u id f).map fun _ => ()
  | .updateRefreshToken id f => do return (← updateRefreshToken u id f).map fun _ => ()
  | .updatePassword email f => do return (← updatePassword u email f).map fun _ => ()
  | .updateOfflineSessions userID connID f => do
    return (← updateOfflineSessions u userID connID f).map fun _ => ()
  | .updateConnector id f => do return (← updateConnector u id f).map fun _ => ()
  | .deleteAuthRequest id => do return .ofExcept (← deleteAuthRequest id)
  | .deleteAuthCode code => do return .ofExcept (← deleteAuthCode code)
  | .deleteClient id => do return .ofExcept (← deleteClient id)
  | .deleteRefresh id => do return .ofExcept (← deleteRefresh id)
  | .deletePassword email => do return .ofExcept (← deletePassword u email)
  | .deleteOfflineSessions userID connID => do
    return .ofExcept (← deleteOfflineSessions userID connID)
  | .deleteConnector id => do return .ofExcept (← deleteConnector id)

def perform (c : Call) : Conn returns Unit := do
  let r ← run u c
  op (S := sig returns) (.other r)

end

/-- Connections that make calls on one API server, in any interleaving of their
requests. -/
abbrev kubernetes (u : CaseTable) : Machine (sig returns) where
  World := Api × Unit
  Req := Call
  Ans := Ans Unit
  Move := Empty
  main := perform u
  exec := fun _ => exec fun _ _ w => some ((), w)
  move := fun m _ => m.elim

variable {u : CaseTable} {S : Sig}

theorem exec_advance {A W : Type} {outer} {o : Op S}
    {ans : Ans A} {s s' r} (h : exec outer o ans s = some (r, s')) :
    Advance (fun w : Api × W => w.1.store.cell) (fun w => w.1.store.revision) s s' := by
  have hapi : Advance (fun a : Api => a.store.cell) (fun a => a.store.revision) s.1 s'.1 := by
    cases o with
    | api q =>
      rcases exec_api h with ⟨_, rfl⟩ | ⟨_, rfl⟩
      · exact serve_advance q
      · exact .refl _
    | other o => exact exec_other h ▸ .refl _
  exact ⟨hapi.rev_le, hapi.cell⟩

/-- The objects of the server as versioned cells. -/
def cells (u : CaseTable) : Cells (kubernetes u) (Kind × String) (fun k => Doc k.1) where
  cell := fun w => w.1.store.cell
  rev := fun w => w.1.store.revision
  exec_advance := exec_advance
  move_advance := fun {m} => m.elim

/-- A post, put or deletion that succeeded. -/
def commits : Ev (sig S) → Bool
  | ⟨.api (.post _ _), .ok _⟩ => true
  | ⟨.api (.put _ _ _), .ok _⟩ => true
  | ⟨.api (.delete _ _), .ok _⟩ => true
  | _ => false

theorem serve_quiet {a : Api} {q} (h : commits (⟨.api q, (a.serve q).1⟩ : Ev (sig S)) = false) :
    (a.serve q).2.store = a.store := by
  cases q with
  | get k name => rw [serve_get_same]
  | list k => rfl
  | post k v =>
    rcases serve_post (a := a) v with ⟨_, hs⟩ | hs
    · rw [hs] at h
      cases h
    · rw [hs]
  | put k name v =>
    rcases serve_put (a := a) name v with ⟨_, _, _, _, hs⟩ | ⟨_, hs⟩
    · rw [hs] at h
      cases h
    · rw [hs]
  | delete k name =>
    rcases serve_delete (a := a) name with ⟨_, _, hs⟩ | hs
    · rw [hs] at h
      cases h
    · rw [hs]

/-- A call takes effect there, and reports to its caller. -/
def reporting : Reporting (sig returns) (Outcome Unit) where
  commits := commits
  report r := .other r
  nil := .ok ()
  report_inj _ _ := Op.other.inj
  report_quiet _ _ := rfl

def ledger (u : CaseTable) : Ledger (kubernetes u) Objects where
  view := fun w => objects toStorage w.1.store
  means := fun c => (action u c).apply
  commits := commits

/-- What a call with action `a` keeps to, before it has taken effect: it posts what
the action makes of no object, and puts, with the metadata of the object that was
read, what the action makes of that object. -/
def Duty (a : Action) (past : List (Ev (sig returns))) : Op returns → Prop
  | .api (.post k v) => reporting.Clean past ∧ (a = .create k (objectMeta k v).name (toStorage k v) ∨
      ∃ f, a = .update k (objectMeta k v).name f ∧ f none = .ok (toStorage k v))
  | .api (.put k name v) => reporting.Clean past ∧ ∃ f old, a = .update k name f ∧
      (⟨.api (.get k name), .ok old⟩ : Ev (sig returns)) ∈ past ∧ objectMeta k v = objectMeta k old ∧
      f (some (toStorage k old)) = .ok (toStorage k v)
  | .api (.delete k name) => reporting.Clean past ∧ a = .delete k name
  | _ => True

def Granted : (o : Op returns) → Res o → Prop
  | .api (.get k name), .ok v => (objectMeta k v).name = name
  | _, _ => True

abbrev obligations (a : Action) : Contract (sig returns) := reporting.contract (Duty a) Granted

/-! ## Every method meets its obligations -/

section
variable {a : Action} {past : List (Ev (sig returns))} {k : Kind} {name : String}

theorem duty_api (h : reporting.Open past) {q} (hd : Duty a past (.api q)) :
    (obligations a).duty past (.api q) := ⟨h, fun _ => nofun, hd⟩

theorem pending_api (h : reporting.Pending past) {q x} (hx : commits (⟨.api q, x⟩ : Ev (sig returns)) = false) :
    reporting.Pending ((⟨.api q, x⟩ : Ev (sig returns)) :: past) :=
  Reporting.Pending.quiet (S := sig returns) (o := .api q) h (fun _ => nofun) hx

theorem settled_api (h : reporting.Pending past) {q x} (hx : commits (⟨.api q, x⟩ : Ev (sig returns)) = true) :
    reporting.Settled ((⟨.api q, x⟩ : Ev (sig returns)) :: past) (.ok ()) :=
  Reporting.Pending.committed (S := sig returns) (o := .api q) h (fun _ => nofun) hx

theorem wp_post (h : reporting.Pending past) {v} (ha : a = .create k (objectMeta k v).name (toStorage k v)) :
    (request (.post k v)).wp (obligations a) (fun past r => reporting.Settled past (.ofExcept r)) past := by
  refine wp_op (S := sig returns) (duty_api h.opened ⟨h.clean, .inl ha⟩) fun r _ => ?_
  match r with
  | .error e => exact (pending_api h rfl).settled nofun
  | .ok () => exact settled_api h rfl

theorem wp_delete (h : reporting.Pending past) (ha : a = .delete k name) :
    (request (.delete k name)).wp (obligations a) (fun past r => reporting.Settled past (.ofExcept r)) past := by
  refine wp_op (S := sig returns) (duty_api h.opened ⟨h.clean, ha⟩) fun r _ => ?_
  match r with
  | .error e => exact (pending_api h rfl).settled nofun
  | .ok () => exact settled_api h rfl

/-- After a get, if it gave an object: the object was read under the name, has it,
and is the one that is meant. -/
def Fetched (k : Kind) (name : String) (meant : Obj k → Bool) (past : List (Ev (sig returns)))
    (r : Except Error (Doc k)) : Prop :=
  reporting.Pending past ∧ ∀ v, r = .ok v →
    (⟨.api (.get k name), .ok v⟩ : Ev (sig returns)) ∈ past ∧ (objectMeta k v).name = name ∧
      meant (toStorage k v) = true

theorem wp_get (h : reporting.Pending past) :
    (request (.get k name)).wp (obligations a) (Fetched k name fun _ => true) past := by
  refine wp_op (S := sig returns) (duty_api h.opened trivial) fun r hr => ?_
  refine ⟨pending_api h rfl, fun v hv => ?_⟩
  subst hv
  exact ⟨List.mem_cons_self, hr, rfl⟩

theorem wp_fetch (h : reporting.Pending past) {wrong meant}
    (hw : ∀ v, wrong v = none → meant (toStorage k v) = true) :
    (fetch k name wrong).wp (obligations a) (Fetched k name meant) past := by
  refine wp_seq (wp_get h) fun past r hr => ?_
  match r with
  | .error e => exact wp_ret ⟨hr.1, fun _ => nofun⟩
  | .ok v =>
    obtain ⟨hm, hname, _⟩ := hr.2 v rfl
    dsimp only
    cases hwrong : wrong v with
    | some e => exact wp_ret ⟨hr.1, fun _ => nofun⟩
    | none =>
      refine wp_ret ⟨hr.1, fun v' hv' => ?_⟩
      cases hv'
      exact ⟨hm, hname, hw v hwrong⟩

theorem wp_any (h : reporting.Pending past) {wrong} :
    (fetch k name wrong).wp (obligations a) (Fetched k name fun _ => true) past :=
  wp_fetch h fun _ _ => rfl

theorem wp_deleteFetched {get meant}
    (hget : get.wp (obligations a) (Fetched k name meant) past) (ha : a = .delete k name) :
    (deleteFetched k get).wp (obligations a) (fun past r => reporting.Settled past (.ofExcept r)) past := by
  refine wp_seq hget fun past r hr => ?_
  match r with
  | .error e => exact wp_ret (hr.1.settled nofun)
  | .ok v => exact wp_delete hr.1 ((hr.2 v rfl).2.1.symm ▸ ha)

theorem wp_updateObject {get meant target fixDoc fix f} (hget : get.wp (obligations a) (Fetched k name meant) past)
    (ha : a = action.found k name meant fix f) (htarget : ∀ v, (objectMeta k v).name = name → target v = name)
    (hfix : ∀ v new, (objectMeta k v).name = name → meant (toStorage k v) = true →
      toStorage k (setObjectMeta (objectMeta k v) k (fromStorage u k (fixDoc v new))) =
        fix (toStorage k v) new) : (updateObject u k get target fixDoc f).wp (obligations a)
      (fun past r => reporting.Settled past (r.map fun _ => ())) past := by
  refine wp_seq hget fun past r hr => ?_
  have h := hr.1
  match r with
  | .error e => exact wp_ret (h.settled nofun)
  | .ok old =>
    obtain ⟨hm, hname, hmeant⟩ := hr.2 old rfl
    dsimp only
    cases hf : f (toStorage k old) with
    | error | panic => exact wp_ret (h.settled nofun)
    | ok new =>
      refine wp_step (duty_api h.opened ⟨h.clean, _, old, htarget old hname ▸ ha, ?_, ?_, ?_⟩)
        fun r _ => ?_
      · exact (htarget old hname).symm ▸ hm
      · exact objectMeta_set _ k _
      · simp [hmeant, hf, hfix old new hname hmeant, Outcome.map]
      · match r with
        | .error e => exact wp_ret ((pending_api h rfl).settled nofun)
        | .ok () => exact wp_ret (settled_api h rfl)

theorem wp_updateKeys (h : reporting.Pending past) {f}
    (ha : a = .update .keys keysName fun current => f (current.getD {})) : (updateKeys f).wp (obligations a)
      (fun past r => reporting.Settled past (r.map fun _ => ())) past := by
  refine wp_seq (wp_get h) fun past r hr => ?_
  have h := hr.1
  match r with
  | .ok keys =>
    obtain ⟨hm, _, _⟩ := hr.2 keys rfl
    dsimp only
    cases hf : f (toStorageKeys keys) with
    | error | panic => exact wp_ret (h.settled nofun)
    | ok new =>
      refine wp_step (duty_api h.opened ⟨h.clean, _, keys, ha, hm, rfl, hf⟩) fun r _ => ?_
      match r with
      | .error e => exact wp_ret ((pending_api h rfl).settled nofun)
      | .ok () => exact wp_ret (settled_api h rfl)
  | .error e =>
    by_cases he : e ≠ .notFound
    · simp only [if_pos he]
      exact wp_ret (h.settled nofun)
    · simp only [if_neg he]
      cases hf : f {} with
      | error | panic => exact wp_ret (h.settled nofun)
      | ok new =>
        refine wp_step (duty_api h.opened ⟨h.clean, .inr ⟨_, ha, hf⟩⟩) fun r _ => ?_
        match r with
        | .error e => exact wp_ret ((pending_api h rfl).settled nofun)
        | .ok () => exact wp_ret (settled_api h rfl)

end

theorem wp_run (u : CaseTable) (c : Call) : (run u c).wp (obligations (action u c)) reporting.Settled [] := by
  have h := reporting.pending_nil
  cases c with
  | createAuthRequest a => exact wp_seq (wp_post (k := .authRequest) h rfl) fun _ _ hr => hr
  | createClient c => exact wp_seq (wp_post (k := .client) h rfl) fun _ _ hr => hr
  | createAuthCode c => exact wp_seq (wp_post (k := .authCode) h rfl) fun _ _ hr => hr
  | createRefresh r => exact wp_seq (wp_post (k := .refreshToken) h rfl) fun _ _ hr => hr
  | createPassword p => exact wp_seq (wp_post (k := .password) h rfl) fun _ _ hr => hr
  | createOfflineSessions s =>
    exact wp_seq (wp_post (k := .offlineSessions) h rfl) fun _ _ hr => hr
  | createConnector c => exact wp_seq (wp_post (k := .connector) h rfl) fun _ _ hr => hr
  | updateClient id f =>
    refine wp_seq (wp_updateObject (k := .client) (wp_fetch h ?_) rfl (fun _ hv => hv)
      fun _ _ _ _ => rfl) fun _ _ hr => hr
    intro v hv
    exact decide_eq_true (show v.id = id by simpa using hv)
  | updateKeys f => exact wp_seq (wp_updateKeys h rfl) fun _ _ hr => hr
  | updateAuthRequest id f =>
    refine wp_seq (wp_updateObject (k := .authRequest) (wp_get h) rfl (fun _ _ => rfl) ?_)
      fun _ _ hr => hr
    intro v new hv _
    exact hv ▸ rfl
  | updateRefreshToken id f =>
    refine wp_seq (wp_updateObject (k := .refreshToken) (wp_fetch h fun _ _ => rfl) rfl
      (fun _ hv => hv) ?_) fun _ _ hr => hr
    intro v new hv _
    exact hv ▸ rfl
  | updatePassword email f =>
    refine wp_seq (wp_updateObject (k := .password) (wp_fetch h ?_) rfl (fun _ hv => hv) ?_)
      fun _ _ hr => hr
    · intro v hv
      exact decide_eq_true (show u.lower email = v.email by simpa using hv)
    · intro v new _ hmeant
      have hlower : u.lower v.email = v.email := by
        rw [← show u.lower email = v.email from of_decide_eq_true hmeant, u.lower_lower]
      show Dex.Password.mk (u.lower v.email) new.hash new.username new.userID = _
      rw [hlower]
      rfl
  | updateOfflineSessions userID connID f =>
    refine wp_seq (wp_updateObject (k := .offlineSessions) (wp_fetch h ?_) rfl (fun _ hv => hv)
      fun _ _ _ _ => rfl) fun _ _ hr => hr
    intro v hv
    exact decide_eq_true (show userID = v.userID ∧ connID = v.connID by simpa using hv)
  | updateConnector id f =>
    exact wp_seq (wp_updateObject (k := .connector) (wp_get h) rfl (fun _ _ => rfl)
      fun _ _ _ _ => rfl) fun _ _ hr => hr
  | deleteAuthRequest | deleteAuthCode | deleteRefresh | deleteConnector =>
    exact wp_seq (wp_delete h rfl) fun _ _ hr => hr
  | deleteClient | deletePassword | deleteOfflineSessions =>
    exact wp_seq (wp_deleteFetched (wp_any h) rfl) fun _ _ hr => hr

theorem wp_perform (u : CaseTable) (c : Call) :
    (perform u c).wp (obligations (action u c)) (fun past _ => reporting.Reported past) [] :=
  wp_seq (wp_run u c) fun past r hr => wp_op (S := sig returns) (o := .other r)
    ⟨hr.opened, fun _ he => Op.other.inj he ▸ hr, trivial⟩ fun x _ => ⟨r, x, past, rfl, hr⟩

/-! ## Runs -/

theorem granted {c o ans w w' r} (h : (kubernetes u).exec c o ans w = some (r, w')) : Granted o r := by
  cases o with
  | other o => trivial
  | api q =>
    cases q with
    | get k name =>
      cases r with
      | error e => trivial
      | ok v =>
        rcases exec_api h with ⟨hr, _⟩ | ⟨hr, _⟩
        · obtain ⟨old, hl, rfl⟩ := serve_get_ok hr.symm
          exact (stamp_name k old).trans (w.1.named k name old.1 old.2 hl)
        · cases hr
    | list | post | put | delete => trivial

section
variable {Init : Api × Unit → Prop} {s : Sys (kubernetes u)}

theorem Reach.duty (h : Reach Init s) {tid c o k} (hth : s.threads[tid]? = some ⟨c, .act o k⟩) :
    Duty (action u c) (past tid s.hist) o :=
  (h.contract (C := fun c => obligations (action u c)) (wp_perform u)
    (fun _ _ _ _ _ _ _ _ _ _ hx => granted hx) tid _ hth).1.2.2

theorem current_value (h : Reach Init s) {tid k name old now}
    (hget : (⟨.api (.get k name), .ok old⟩ : Ev (sig returns)) ∈ past tid s.hist)
    (hnow : s.world.1.store.lookup k name = some now)
    (hrev : (objectMeta k old).resourceVersion = some now.2) : toStorage k now.1 = toStorage k old := by
  obtain ⟨c, pre, post, hm⟩ := mem_past.mp hget
  obtain ⟨l1, l2, hs⟩ := List.append_of_mem hm
  obtain ⟨s0, _, _, _, _, rfl, _, hx⟩ := h.split_act hs
  obtain ⟨v, hv, rfl⟩ : ∃ v, s0.world.1.store.lookup k name = some v ∧ old = stamp k v := by
    rcases exec_api hx with ⟨hr, _⟩ | ⟨hr, _⟩
    · exact serve_get_ok hr.symm
    · cases hr
  have hn : v.2 = now.2 := by simpa [stamp] using hrev
  have hsame := (cells u).same_value (fun w _ k => w.1.store.numbered k.1 k.2) h (.pre hm)
  have hval : now.1 = v.1 := (hsame (k, name) v.1 v.2 hv).2 now.1 (hn ▸ hnow)
  rw [toStorage_stamp, hval]

section
variable {tid : Nat} {c : Call} {k : Kind} {name : String} {v : Doc k}

theorem commit_post (hd : Duty (action u c) (past tid s.hist) (.api (.post k v)))
    (hnone : s.world.1.store.lookup k (objectMeta k v).name = none) :
    (action u c).apply (objects toStorage s.world.1.store) =
        some (objects toStorage (s.world.1.write k v).store) ∧ reporting.Clean (past tid s.hist) := by
  obtain ⟨hc, ha⟩ := hd
  refine ⟨?_, hc⟩
  have hobj : objects toStorage s.world.1.store k (objectMeta k v).name = none := by
    simp [objects, hnone]
  show _ = some (objects toStorage (s.world.1.store.write k _ v))
  rw [objects_write]
  rcases ha with ha | ⟨f, ha, hf⟩
  · rw [ha, Action.apply_create hobj]
  · rw [ha, Action.apply_update (hobj ▸ hf)]

theorem commit_put (h : Reach Init s) (hd : Duty (action u c) (past tid s.hist) (.api (.put k name v))) {now}
    (hnow : s.world.1.store.lookup k name = some now) (hname : (objectMeta k v).name = name)
    (hrev : (objectMeta k v).resourceVersion = some now.2) :
    (action u c).apply (objects toStorage s.world.1.store) =
        some (objects toStorage (s.world.1.write k v).store) ∧ reporting.Clean (past tid s.hist) := by
  obtain ⟨hc, f, old, ha, hget, hmeta, hf⟩ := hd
  refine ⟨?_, hc⟩
  have hold := current_value h hget hnow (hmeta ▸ hrev)
  have hobj : objects toStorage s.world.1.store k name = some (toStorage k old) := by
    simp [objects, hnow, hold]
  rw [ha, Action.apply_update (hobj ▸ hf)]
  show _ = some (objects toStorage (s.world.1.store.write k _ v))
  rw [objects_write, hname]

theorem commit_delete (hd : Duty (action u c) (past tid s.hist) (.api (.delete k name)))
    {old} (hl : s.world.1.store.lookup k name = some old) :
    (action u c).apply (objects toStorage s.world.1.store) =
        some (objects toStorage (s.world.1.remove k name).store) ∧ reporting.Clean (past tid s.hist) := by
  obtain ⟨hc, ha⟩ := hd
  refine ⟨?_, hc⟩
  show _ = some (objects toStorage (s.world.1.store.remove k name))
  rw [ha, objects_remove]
  exact Action.apply_delete (o := toStorage k old.1) (by simp [objects, hl])

end

theorem ledger_kept : (ledger u).Kept Init where
  commit := by
    intro s tid c o cont ans r w h hth hx hcommit
    have hd := Reach.duty h hth
    cases o with
    | other o => cases hcommit
    | api q =>
      have hr : r = (s.world.1.serve q).1 ∧ w = ((s.world.1.serve q).2, s.world.2) := by
        rcases exec_api hx with hr | ⟨rfl, _⟩
        · exact hr
        · cases q <;> cases hcommit
      obtain ⟨rfl, rfl⟩ := hr
      cases q with
      | get k name => cases hg : (s.world.1.serve (.get k name)).1 <;> cases hg ▸ hcommit
      | list k => cases hcommit
      | post k v =>
        rcases serve_post (a := s.world.1) v with ⟨hnone, hs⟩ | hs
        · exact hs ▸ commit_post hd hnone
        · rw [hs] at hcommit
          cases hcommit
      | put k name v =>
        rcases serve_put (a := s.world.1) name v with ⟨now, hnow, hname, hrev, hs⟩ | ⟨e, hs⟩
        · exact hs ▸ commit_put h hd hnow hname.symm hrev
        · rw [hs] at hcommit
          cases hcommit
      | delete k name =>
        rcases serve_delete (a := s.world.1) name with ⟨old, hl, hs⟩ | hs
        · exact hs ▸ commit_delete hd hl
        · rw [hs] at hcommit
          cases hcommit
  quiet := by
    intro c o ans w r w' hx hcommit
    cases o with
    | other o => exact congrArg (fun a => objects toStorage a.store) (exec_other hx)
    | api q =>
      rcases exec_api hx with ⟨rfl, rfl⟩ | ⟨rfl, rfl⟩
      · exact congrArg (objects toStorage) (serve_quiet hcommit)
      · rfl
  move := fun {m} => m.elim

end

/-- Calls on the API server are serialized in the order of their commits. -/
theorem serialized {a s} (h : Reach (· = (a, ())) s) : Serialized (ledger u) reporting.report (a, ()) s :=
  .of_kept ledger_kept h fun _ _ _ hr =>
    reporting.nil_iff (D := fun c => Duty (action u c)) (wp_perform u)
      (fun _ _ _ _ _ _ hx => granted hx) h hr

end KubeYamls.Store.Kubernetes
