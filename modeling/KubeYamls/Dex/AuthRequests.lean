import KubeYamls.Dex.Runs

/-! # Stored authorization requests

Where a stored request comes from and what its updates leave alone. -/
namespace KubeYamls.Dex
open Data Conc

/-- The request as `parseAuthorizationRequest` returned it. -/
def AuthRequest.asked (a : AuthRequest) : AuthRequest :=
  { a with expiry := 0, loggedIn := false, claims := {}, connectorID := "", connectorData := [] }

variable {req : Request} {a : AuthRequest} {id : String}

theorem Parsed.asked {past} (h : Parsed req past a) : a.asked = a := by
  obtain ⟨q, client, uri, _, ha, _⟩ := h
  rw [ha]
  rfl

theorem AuthRequestUpdate.cases {past f} (h : AuthRequestUpdate req past id f) {old new} (hf : f old = .ok new) :
    (∃ r, req.kind = .connectorLogin r ∧ id = r.req ∧ new = { old with connectorID := r.connector }) ∨
    ∃ a connID identity, LoginVia req past a connID ∧ Answered past connID a.id identity ∧
      Unwritten past ∧ id = a.id ∧ new = { old with
        loggedIn := true, claims := identity.claims, connectorData := identity.connectorData } := by
  rcases h with ⟨r, hk, hid, rfl, _⟩ | ⟨a, connID, identity, hv, ha, hw, hid, rfl⟩
  · cases hf
    exact .inl ⟨r, hk, hid, rfl⟩
  · cases hf
    exact .inr ⟨a, connID, identity, hv, ha, hw, hid, rfl⟩

theorem AuthRequestUpdate.keeps {past f} (h : AuthRequestUpdate req past id f) {old new} (hf : f old = .ok new) :
    new.id = old.id ∧ new.expiry = old.expiry ∧ new.asked = old.asked := by
  rcases h.cases hf with ⟨r, _, _, rfl⟩ | ⟨a, connID, identity, _, _, _, _, rfl⟩ <;>
    exact ⟨rfl, rfl, rfl⟩

theorem Approves.read {S past r} (h : Approves S req past r a) : did past (.getAuthRequest r.req) (.ok a) := by
  obtain ⟨_, _, hthen⟩ := h.inTime
  exact hthen.subset (by simp)

section
variable {S : Setup} {s : Sys (dex S)}

def requestNames (S : Setup) : Names (dex S) String where
  toSupply := idSupply S
  present w id := ∃ a, w.store.authReqs.lookup id = some a
  make e id := ∃ a, e = ⟨.createAuthRequest a, .ok ()⟩ ∧ a.id = id

theorem requestNames_lawful : (requestNames S).Lawful Initial where
  init := by
    rintro w id hw ⟨a, ha⟩
    exact (hw.authReqs id a ha).2
  enter := by
    rintro s tid req o k ans r w' id _ _ hx ⟨a, ha⟩
    rcases (exec_effect hx).authReqs ha with ha | ⟨he, hid⟩ | ⟨_, old, _, ho, _⟩
    · exact .inl ⟨a, ha⟩
    · exact .inr ⟨a, he, hid.symm⟩
    · exact .inl ⟨old, ho⟩
  enter_move := by
    rintro m w w' id hm ⟨a, ha⟩
    obtain ⟨_, _, hs, _⟩ := move_store hm
    rw [hs] at ha
    exact ⟨a, ha⟩
  make := by
    rintro s tid req o k ans r w id h hth hx ⟨a, he, rfl⟩
    cases he
    obtain ⟨a0, t, ⟨_, _, _, _, _, hdraw⟩, _, rfl, hfirst⟩ := Reach.duty h hth
    refine ⟨drawn_iff.mpr hdraw, ?_⟩
    rintro ⟨e, he, a', rfl, _⟩
    exact hfirst a' _ he

theorem authRequest_id (h : Reach Initial s) (ha : s.world.store.authReqs.lookup id = some a) : a.id = id := by
  refine Reach.stored (P := fun w => ∀ id a, w.store.authReqs.lookup id = some a → a.id = id)
    ?_ ?_ ?_ h id a ha
  · intro w hw id a ha
    exact (hw.authReqs id a ha).1
  · intro s tid req o k ans r w' hr ih hth hx id a ha
    rcases (exec_effect hx).authReqs ha with ha | ⟨_, hid⟩ | ⟨f, old, he, ho, hf⟩
    · exact ih id a ha
    · exact hid.symm
    · cases he
      exact ((Reach.duty hr hth).keeps hf).1.trans (ih id old ho)
  · intro m w w' ih hm id a ha
    obtain ⟨_, _, hs, _⟩ := move_store hm
    rw [hs] at ha
    exact ih id a ha

theorem read_authRequest_id (h : Reach Initial s) {tid}
    (hd : did (past tid s.hist) (.getAuthRequest id) (.ok a)) : a.id = id := by
  obtain ⟨_, s0, _, hm⟩ := Reach.did_made h hd
  obtain ⟨_, hx⟩ := hm.exec
  exact authRequest_id hm.reach (exec_getAuthRequest hx)

theorem deleteAuthRequest_once (h : Reach Initial s) {t1 t2}
    (h1 : did (past t1 s.hist) (.deleteAuthRequest id) (.ok ()))
    (h2 : did (past t2 s.hist) (.deleteAuthRequest id) (.ok ())) : t1 = t2 := by
  refine Names.leave_thread requestNames_lawful (n := id) h h1 h2 fun he => ?_
  obtain ⟨ha, hnone⟩ := (Reach.effect h he).of_deleteAuthRequest
  refine ⟨ha, ?_⟩
  rintro ⟨a, ha⟩
  rw [hnone] at ha
  cases ha

theorem authRequest_accepted (h : Reach Blank s) (ha : s.world.store.authReqs.lookup id = some a) :
    ∃ tid, did (past tid s.hist) (.note (.accepted a.asked)) () := by
  refine Reach.invariant (C := fun _ _ => True) (I := fun w hist => ∀ id a,
    w.store.authReqs.lookup id = some a → ∃ tid, did (past tid hist) (.note (.accepted a.asked)) ())
    ?_ ?_ ?_ ?_ h (along_true _) id a ha
  · intro w hw id a ha
    rw [hw.noAuthReqs] at ha
    cases ha
  · intro w hist tid req ih
    exact ih
  · intro s tid req o k ans r w' hr _ ih hth hx id a ha
    rcases (exec_effect hx).authReqs ha with ha | ⟨he, _⟩ | ⟨f, old, he, ho, hf⟩
    · obtain ⟨t, hd⟩ := ih id a ha
      exact ⟨t, hd.later _⟩
    · cases he
      obtain ⟨a0, t, hp, hd, rfl, _⟩ := Reach.duty hr hth
      rw [show AuthRequest.asked { a0 with expiry := t } = a0 from hp.asked]
      exact ⟨tid, hd.later _⟩
    · cases he
      obtain ⟨t, hd⟩ := ih id old ho
      rw [((Reach.duty hr hth).keeps hf).2.2]
      exact ⟨t, hd.later _⟩
  · intro s m w' clients connectors _ ih _ hs _ _ _ id a ha
    rw [hs] at ha
    exact ih id a ha

theorem read_accepted (h : Reach Blank s) {tid} (hd : did (past tid s.hist) (.getAuthRequest id) (.ok a)) :
    ∃ t, did (past t s.hist) (.note (.accepted a.asked)) () := by
  obtain ⟨_, s0, w', hm⟩ := Reach.did_made h hd
  obtain ⟨_, hx⟩ := hm.exec
  obtain ⟨t, hd⟩ := authRequest_accepted hm.reach (exec_getAuthRequest hx)
  obtain ⟨l, hl⟩ := hm.hist
  exact ⟨t, hd.mono (past_sublist_of_eq hl)⟩

theorem accepted_form {Init} (h : Reach Init s) {tid}
    (hd : did (past tid s.hist) (.note (.accepted a)) ()) : ∃ inst q client p,
      s.threads[tid]? = some ⟨⟨inst, .authorization q⟩, p⟩ ∧
      Vetted ⟨inst, .authorization q⟩ (past tid s.hist) a q client ∧
      a.forceApprovalPrompt = decide (q.approvalPrompt = "force") := by
  obtain ⟨⟨inst, kind⟩, s0, w', hm⟩ := Reach.did_made h hd
  obtain ⟨⟨q, _, _, hk, ha, _⟩, q', client, hv⟩ := hm.duty
  obtain rfl : kind = .authorization q := hk
  cases hv.kind
  obtain ⟨p, hth⟩ := hm.thread
  exact ⟨inst, q, client, p, hth, hv.mono hm.sublist, congrArg AuthRequest.forceApprovalPrompt ha⟩

end

end KubeYamls.Dex
