import KubeYamls.Dex.AuthRequests

/-! # Which connector vouches for a login

`handleConnectorLogin` writes the `ConnectorID` of a request whenever a login
page of another connector is opened for it; `finalizeLogin` writes the identity.
Nothing ties the two writes together. What holds is that they agree as long as
nobody opens another connector's page for a request that is logged in, or whose
login through another connector is under way. -/
namespace KubeYamls.Dex
open Data Conc List

section
variable {S : Setup}

/-- The connector's answer in a step: connector, request and identity. -/
def answer : Step S → Option (String × String × Identity)
  | .act _ _ (.login connID id _ _ _) (.ok (some i)) _ _ => some (connID, id, i)
  | .act _ _ (.handleCallback connID id _) (.ok i) _ _ => some (connID, id, i)
  | .act _ _ (.handlePOST connID id _ _) (.ok i) _ _ => some (connID, id, i)
  | _ => none

/-- Connector `connID` itself returned an identity with these claims and this
data for the request `id`. -/
def Vouched (hist : List (Step S)) (connID id : String) (claims : Claims) (data : List UInt8) : Prop :=
  ∃ i, (connID, id, i) ∈ hist.filterMap answer ∧ i.claims = claims ∧ i.connectorData = data

/-- A login that is under way: its thread, the request and the connector that
was asked about the user. -/
structure LoginRun where
  tid : Nat
  authReqID : String
  connID : String
  deriving DecidableEq

def begun : Step S → Option LoginRun
  | .act tid req (.getAuthRequest _) (.ok a) _ _ =>
    match req.kind with
    | .connectorLogin r =>
      if r.method = .post ∧ a.connectorID = r.connector then some ⟨tid, a.id, r.connector⟩ else none
    | .connectorCallback _ => some ⟨tid, a.id, a.connectorID⟩
    | _ => none
  | .act tid req (.updateAuthRequest id _) (.ok _) _ _ =>
    match req.kind with
    | .connectorLogin r => if r.method = .post then some ⟨tid, id, r.connector⟩ else none
    | _ => none
  | _ => none

/-- The thread that answers its client in a step. -/
def answered : Step S → Option Nat
  | .act tid _ (.write _) _ _ _ => some tid
  | _ => none

def logins : List (Step S) → List LoginRun :=
  ongoing begun fun e l => answered e = some l.tid

/-- A stored request before and after a step that changes its connector. -/
def switched : Step S → Option (AuthRequest × AuthRequest)
  | .act _ _ (.updateAuthRequest id _) (.ok old) _ w =>
    match w.store.authReqs.lookup id with
    | some new => if new.connectorID = old.connectorID then none else some (old, new)
    | none => none
  | _ => none

/-- A step that changes the connector of a request finds the request not logged
in, and no login of it through another connector under way. -/
def Undisturbed (hist : List (Step S)) (e : Step S) : Prop :=
  ∀ p ∈ switched e, p.1.loggedIn = false ∧
    ∀ l ∈ logins hist, l.authReqID = p.2.id → l.connID = p.2.connectorID

instance (hist : List (Step S)) (e : Step S) : Decidable (Undisturbed hist e) :=
  inferInstanceAs (Decidable (∀ p ∈ switched e, _))

theorem begun_cases {tid req o r pre w l} (h : begun (.act tid req o r pre w : Step S) = some l) :
    (∃ id a, (⟨o, r⟩ : Ev sig) = ⟨.getAuthRequest id, .ok a⟩ ∧ l = ⟨tid, a.id, a.connectorID⟩) ∨
    ∃ id f old q, (⟨o, r⟩ : Ev sig) = ⟨.updateAuthRequest id f, .ok old⟩ ∧
      req.kind = .connectorLogin q ∧ l = ⟨tid, id, q.connector⟩ := by
  unfold begun at h
  split at h
  · rename_i a _ _ heq
    cases heq
    split at h
    · split at h
      · rename_i hc
        cases h
        exact .inl ⟨_, a, rfl, by rw [hc.2]⟩
      · cases h
    · cases h
      exact .inl ⟨_, a, rfl, rfl⟩
    · cases h
  · rename_i heq
    cases heq
    split at h
    · rename_i q hk
      split at h
      · cases h
        exact .inr ⟨_, _, _, q, rfl, hk, rfl⟩
      · cases h
    · cases h
  · cases h

variable {hist : List (Step S)}

theorem mem_logins_cons {e l} :
    l ∈ logins (e :: hist) ↔ begun e = some l ∨ (l ∈ logins hist ∧ answered e ≠ some l.tid) := by
  simp [logins]

theorem begun_mem {e l} (he : e ∈ hist) (hb : begun e = some l)
    (hw : Unwritten (past l.tid hist)) : l ∈ logins hist := by
  refine mem_ongoing he hb fun e' he' => ?_
  by_contra ha
  simp only [Bool.not_eq_false, decide_eq_true_eq] at ha
  unfold answered at ha
  split at ha
  · cases ha
    exact hw _ (mem_past.mpr ⟨_, _, _, he'⟩)
  · cases ha

theorem Answered.mem {tid connID id i}
    (h : Answered (past tid hist) connID id i) : (connID, id, i) ∈ hist.filterMap answer := by
  rcases h with ⟨_, _, _, hd⟩ | ⟨_, hd⟩ | ⟨_, _, hd⟩ <;>
  · obtain ⟨_, _, _, he⟩ := mem_past.mp hd
    exact mem_filterMap.mpr ⟨_, he, rfl⟩

theorem Vouched.cons {connID id claims data} (h : Vouched hist connID id claims data) (e : Step S) :
    Vouched (e :: hist) connID id claims data := by
  obtain ⟨i, hi, hc⟩ := h
  obtain ⟨e', he', ha⟩ := mem_filterMap.mp hi
  exact ⟨i, mem_filterMap.mpr ⟨e', mem_cons_of_mem _ he', ha⟩, hc⟩

theorem Vouched.append {connID id claims data} (h : Vouched hist connID id claims data) (l : List (Step S)) :
    Vouched (l ++ hist) connID id claims data := by
  induction l with
  | nil => exact h
  | cons e l ih => exact ih.cons e

variable {s : Sys (dex S)} {tid : Nat} {req : Request}

theorem LoginVia.mem (h : Reach Initial s) {p} (hth : s.threads[tid]? = some ⟨req, p⟩) {a connID}
    (hv : LoginVia req (past tid s.hist) a connID) (hw : Unwritten (past tid s.hist)) :
    ⟨tid, a.id, connID⟩ ∈ logins s.hist := by
  have hreq : ∀ {req' : Request} {o : Op} {r : Res o} {pre post : World},
      (.act tid req' o r pre post : Step S) ∈ s.hist → req' = req := by
    intro req' o r pre post he
    obtain ⟨p', hp'⟩ := h.thread_of_mem he
    rw [hth] at hp'
    cases hp'
    rfl
  cases hv with
  | same hk hm hg hc =>
    obtain ⟨req', pre, post, he⟩ := mem_past.mp hg
    obtain rfl := hreq he
    exact begun_mem he (by simp [begun, hk, hm, hc]) hw
  | set hk hm hg hu =>
    obtain ⟨req', pre, post, he⟩ := mem_past.mp hu
    obtain rfl := hreq he
    rw [read_authRequest_id h hg]
    exact begun_mem he (by simp [begun, hk, hm]) hw
  | callback hk hg =>
    obtain ⟨req', pre, post, he⟩ := mem_past.mp hg
    obtain rfl := hreq he
    exact begun_mem he (by simp [begun, hk]) hw

/-- What the two writes have in common, whatever their order. -/
structure Bindings (w : World) (hist : List (Step S)) : Prop where
  vouched : ∀ id a, w.store.authReqs.lookup id = some a → a.loggedIn = true →
    Vouched hist a.connectorID a.id a.claims a.connectorData
  running : ∀ l ∈ logins hist, ∀ a, w.store.authReqs.lookup l.authReqID = some a → a.connectorID = l.connID
  seen : ∀ l ∈ logins hist, ∃ w0, Saw hist w0 ∧ (requestNames S).present w0 l.authReqID

theorem LoginVia.connID {past a connID r}
    (hv : LoginVia req past a connID) (hk : req.kind = .connectorLogin r) : connID = r.connector := by
  cases hv with
  | same hk' _ _ _ | set hk' _ _ _ =>
    rw [hk] at hk'
    cases hk'
    rfl
  | callback hk' _ =>
    rw [hk] at hk'
    cases hk'

section
variable {o : Op} {k : Res o → Handler Unit} {ans : Ans} {r : Res o} {w' : World}
  (h : Reach Initial s) (hth : s.threads[tid]? = some ⟨req, .act o k⟩)
  (hx : exec S.codec req.inst o ans s.world = some (r, w'))
  (hC : Undisturbed s.hist (.act tid req o r s.world w')) (ih : Bindings s.world s.hist)
include h hth hx hC ih

theorem Bindings.update {id f old new} (he : (⟨o, r⟩ : Ev sig) = ⟨.updateAuthRequest id f, .ok old⟩)
    (ho : s.world.store.authReqs.lookup id = some old) (hf : f old = .ok new)
    (hn : w'.store.authReqs.lookup id = some new) :
    (new.loggedIn = true → Vouched (.act tid req o r s.world w' :: s.hist) new.connectorID new.id
      new.claims new.connectorData) ∧ ∀ l ∈ logins s.hist, l.authReqID = id → new.connectorID = l.connID := by
  cases he
  have hd : AuthRequestUpdate req (past tid s.hist) id f := Reach.duty h hth
  have hid : old.id = id := authRequest_id h ho
  rcases hd.cases hf with ⟨q, _, _, rfl⟩ | ⟨a, connID, identity, hv, ha, hw, rfl, rfl⟩
  · by_cases hc : q.connector = old.connectorID
    · have heq : { old with connectorID := q.connector } = old := by rw [hc]
      rw [heq]
      exact ⟨fun hl => (ih.vouched id old ho hl).cons _, fun l hl hlid => ih.running l hl old (hlid ▸ ho)⟩
    · obtain ⟨hl, hothers⟩ := hC (old, { old with connectorID := q.connector })
        (by simp [switched, hn, hc])
      refine ⟨fun hl' => ?_, fun l hl hlid => (hothers l hl (hlid.trans hid.symm)).symm⟩
      rw [show old.loggedIn = true from hl'] at hl
      cases hl
  · have hmem := hv.mem h hth hw
    have hconn : old.connectorID = connID := ih.running _ hmem old ho
    refine ⟨fun _ => ?_, fun l hl hlid => ih.running l hl old (hlid ▸ ho)⟩
    subst hconn
    exact Vouched.cons ⟨identity, hid ▸ ha.mem, rfl, rfl⟩ _

theorem Bindings.act : Bindings w' (.act tid req o r s.world w' :: s.hist) := by
  have heff := exec_effect hx
  refine ⟨?_, ?_, ?_⟩
  · intro id a ha hl
    rcases heff.authReqs ha with ha | ⟨he, _⟩ | ⟨f, old, he, ho, hf⟩
    · exact (ih.vouched id a ha hl).cons _
    · cases he
      obtain ⟨a0, t, ⟨q, client, uri, _, ha0, _⟩, _, rfl, _⟩ := Reach.duty h hth
      rw [show a0.loggedIn = false by rw [ha0]; rfl] at hl
      cases hl
    · exact (Bindings.update h hth hx hC ih he ho hf ha).1 hl
  · intro l hl a ha
    rcases mem_logins_cons.mp hl with hb | ⟨hl, _⟩
    · rcases begun_cases hb with ⟨id, a', he, rfl⟩ | ⟨id, f, old, q, he, hk, rfl⟩
      · cases he
        have ha' := exec_getAuthRequest hx
        rw [← authRequest_id h ha'] at ha'
        cases heff
        rw [ha'] at ha
        cases ha
        rfl
      · cases he
        cases heff with
        | none h => cases h
        | updateAuthRequest ho hf =>
          rw [AList.lookup_insert] at ha
          cases ha
          have hd : AuthRequestUpdate req (past tid s.hist) id f := Reach.duty h hth
          rcases hd.cases hf with ⟨q', hk', _, rfl⟩ | ⟨a, connID, identity, hv, _, hw, rfl, rfl⟩
          · rw [hk] at hk'
            cases hk'
            rfl
          · exact (ih.running _ (hv.mem h hth hw) old ho).trans (hv.connID hk)
    · rcases heff.authReqs ha with ha | ⟨he, hid⟩ | ⟨f, old, he, ho, hf⟩
      · exact ih.running l hl a ha
      · -- the ID of a request whose login is under way is not drawn again
        obtain ⟨_, hsaw, hp⟩ := ih.seen l hl
        exact absurd (Names.known_of_saw requestNames_lawful h hsaw hp)
          (Names.not_known_of_make requestNames_lawful h hth hx ⟨a, he, hid.symm⟩)
      · exact (Bindings.update h hth hx hC ih he ho hf ha).2 l hl rfl
  · intro l hl
    rcases mem_logins_cons.mp hl with hb | ⟨hl, _⟩
    · refine ⟨s.world, .pre mem_cons_self, ?_⟩
      rcases begun_cases hb with ⟨id, a, he, rfl⟩ | ⟨id, f, old, q, he, _, rfl⟩
      · cases he
        have ha := exec_getAuthRequest hx
        exact ⟨a, by rw [authRequest_id h ha]; exact ha⟩
      · cases he
        cases heff with
        | none h => cases h
        | updateAuthRequest ho _ => exact ⟨old, ho⟩
    · obtain ⟨w0, hsaw, hp⟩ := ih.seen l hl
      exact ⟨w0, hsaw.mono fun _ => mem_cons_of_mem _, hp⟩

end

theorem Bindings.skip {w w'} (ih : Bindings w hist) {e} (he : begun e = none)
    (hw : w'.store.authReqs = w.store.authReqs) : Bindings w' (e :: hist) := by
  have hl : ∀ {l}, l ∈ logins (e :: hist) → l ∈ logins hist := by
    intro l hl
    rcases mem_logins_cons.mp hl with hb | ⟨hl, _⟩
    · rw [he] at hb
      cases hb
    · exact hl
  refine ⟨fun id a ha hlog => (ih.vouched id a (hw ▸ ha) hlog).cons _,
    fun l hm a ha => ih.running l (hl hm) a (hw ▸ ha), fun l hm => ?_⟩
  obtain ⟨w0, hsaw, hp⟩ := ih.seen l (hl hm)
  exact ⟨w0, hsaw.mono fun _ => mem_cons_of_mem _, hp⟩

theorem Bindings.reach (h : Reach Blank s) (hC : Along Undisturbed s.hist) : Bindings s.world s.hist := by
  refine Reach.invariant (C := Undisturbed) (I := Bindings) ?_ ?_ ?_ ?_ h hC
  · intro w hw
    refine ⟨fun id a ha => ?_, by simp [logins], by simp [logins]⟩
    rw [hw.noAuthReqs] at ha
    cases ha
  · intro w hist tid req ih
    exact ih.skip rfl rfl
  · intro s tid req o k ans r w' hr hC ih hth hx
    exact Bindings.act (hr.mono fun _ hw => hw.toInitial) hth hx hC.1 ih
  · intro s m w' clients connectors _ ih _ hs _ _ _
    exact ih.skip rfl (by rw [hs])

theorem Sends.vouched (h : Reach Blank s) (hC : Along Undisturbed s.hist) {r a} (hs : Sends S req (past tid s.hist) r a) :
    Vouched s.hist a.connectorID a.id a.claims a.connectorData := by
  obtain ⟨_, s0, w', hm⟩ := Reach.did_made h hs.read
  obtain ⟨_, hx⟩ := hm.exec
  obtain ⟨l, hl⟩ := hm.hist
  rw [hl] at hC ⊢
  have hb := Bindings.reach hm.reach hC.at.2
  exact ((hb.vouched _ a (exec_getAuthRequest hx) hs.loggedIn).cons _).append l

end

/-- In a run in which no step disturbs a login, every request that is logged in
carries what its connector returned for it, and so does every code and every ID
token of a code response. -/
theorem login_vouched (S : Setup) (s : Sys (dex S)) (h : Reach Blank s) (hC : Along Undisturbed s.hist) :
    (∀ id a, s.world.store.authReqs.lookup id = some a → a.loggedIn = true →
      Vouched s.hist a.connectorID a.id a.claims a.connectorData) ∧
    (∀ tid c res, did (past tid s.hist) (.createAuthCode c) res → ∃ id,
      did (past tid s.hist) (.deleteAuthRequest id) (.ok ()) ∧
      Vouched s.hist c.connectorID id c.claims c.connectorData) ∧
    ∀ tid inst r prog clientID claims scopes nonce accessToken connID,
      s.threads[tid]? = some ⟨⟨inst, .approval r⟩, prog⟩ →
      did (past tid s.hist) (.note (.newIDToken clientID claims scopes nonce accessToken connID)) () →
      ∃ id data, did (past tid s.hist) (.deleteAuthRequest id) (.ok ()) ∧
        Vouched s.hist connID id claims data := by
  refine ⟨(Bindings.reach h hC).vouched, ?_, ?_⟩
  · intro tid c res hd
    obtain ⟨req, s0, w', hm⟩ := Reach.did_made h hd
    obtain ⟨r, a, t, hs, hc, _⟩ := hm.duty
    have hs := hs.mono hm.sublist
    refine ⟨a.id, hs.deleted, ?_⟩
    rw [hc]
    exact hs.vouched h hC
  · intro tid inst r prog clientID claims scopes nonce accessToken connID hth hd
    obtain ⟨req, s0, w', hm⟩ := Reach.did_made h hd
    obtain ⟨p, hp⟩ := hm.thread
    rw [hth] at hp
    cases hp
    cases hm.duty with
    | approval hs =>
      rename_i r' a
      have hs := hs.mono hm.sublist
      exact ⟨a.id, a.connectorData, hs.deleted, hs.vouched h hC⟩
    | code hc => cases hc.kind
    | refresh hc => cases hc.kind

/-- Alice logs in with connector `a`, the page of connector `b` is opened for the
same request, and the request is approved. -/
@[irreducible] def switchedRun : Sys (dex demo) := .after demoWorld <|
  authorize 0 "r" "openid" "" ++ loginA 1 "r" [{ password := true }] ++
  serving 2 (.connectorLogin ⟨"b", .get, "r", "", ""⟩)
    (plains 2 ++ .opened { callback := true } :: plains 4 ++ [.text "u", .plain]) ++
  approve 3 "r" "c"

/-- The code then names connector `b`, which has returned no identity at all. -/
theorem switched_code_not_vouched : Reach Blank switchedRun ∧
    ∃ c, switchedRun.world.store.authCodes.lookup "c" = some c ∧ c.connectorID = "b" ∧
      ∀ id, ¬ Vouched switchedRun.hist c.connectorID id c.claims c.connectorData := by
  obtain ⟨hc, hans⟩ :
      (switchedRun.world.store.authCodes.lookup "c").map (·.connectorID) = some "b" ∧
      switchedRun.hist.filterMap answer = [("a", "r", alice)] := by
    decide +kernel
  obtain ⟨c, hc, hb⟩ := Option.map_eq_some_iff.mp hc
  refine ⟨by unfold switchedRun; exact .after demo_blank _, c, hc, hb, ?_⟩
  rintro id ⟨i, hi, _⟩
  simp [hans, hb] at hi

/-- The same login and approval without the second page. -/
@[irreducible] def undisturbedRun : Sys (dex demo) := .after demoWorld <|
  authorize 0 "r" "openid" "" ++ loginA 1 "r" [{ password := true }] ++ approve 2 "r" "c"

theorem undisturbed_login_vouched : Along Undisturbed undisturbedRun.hist ∧
    (undisturbedRun.world.store.authCodes.lookup "c").isSome ∧
    ∀ tid c res, did (past tid undisturbedRun.hist) (.createAuthCode c) res → ∃ id,
      did (past tid undisturbedRun.hist) (.deleteAuthRequest id) (.ok ()) ∧
      Vouched undisturbedRun.hist c.connectorID id c.claims c.connectorData := by
  obtain ⟨hC, hsome⟩ : Along Undisturbed undisturbedRun.hist ∧
      (undisturbedRun.world.store.authCodes.lookup "c").isSome := by
    decide +kernel
  have h : Reach Blank undisturbedRun := by
    unfold undisturbedRun
    exact .after demo_blank _
  exact ⟨hC, hsome, (login_vouched demo undisturbedRun h hC).2.1⟩

end KubeYamls.Dex
