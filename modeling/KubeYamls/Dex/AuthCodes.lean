import KubeYamls.Dex.Runs

/-! # Authorization codes are single-use

A code is deleted by the execution that redeems it, before anything is issued
for it, and the storage lets only one deletion of an ID succeed: an ID that is
gone is never created again. -/
namespace KubeYamls.Dex
open Data Conc

section
variable {S : Setup} {s : Sys (dex S)} {tid : Nat} {req : Request}

def codeNames (S : Setup) : Names (dex S) String where
  toSupply := idSupply S
  present w id := ∃ c, w.store.authCodes.lookup id = some c
  make e id := ∃ c, e = ⟨.createAuthCode c, .ok ()⟩ ∧ c.id = id

theorem codeNames_lawful : (codeNames S).Lawful Initial where
  init := by
    rintro w id hw ⟨c, hc⟩
    exact (hw.authCodes id c hc).2
  enter := by
    rintro s tid req o k ans r w' id _ _ hx ⟨c, hc⟩
    rcases (exec_effect hx).authCodes hc with hc | ⟨he, hid⟩
    · exact .inl ⟨c, hc⟩
    · exact .inr ⟨c, he, hid.symm⟩
  enter_move := by
    rintro m w w' id hm ⟨c, hc⟩
    obtain ⟨_, _, hs, _⟩ := move_store hm
    rw [hs] at hc
    exact ⟨c, hc⟩
  make := by
    rintro s tid req o k ans r w id h hth hx ⟨c, he, rfl⟩
    cases he
    obtain ⟨_, _, _, _, _, hdraw, hfirst, _⟩ := Reach.duty h hth
    refine ⟨drawn_iff.mpr hdraw, ?_⟩
    rintro ⟨e, he, c', rfl, hid⟩
    exact hfirst c' _ he hid

theorem client_id (h : Reach Initial s) {id c} (hc : s.world.store.clients.lookup id = some c) : c.id = id := by
  refine Reach.stored (P := fun w => ∀ id c, w.store.clients.lookup id = some c → c.id = id)
    ?_ ?_ ?_ h id c hc
  · intro w hw
    exact hw.clients
  · intro s tid req o k ans r w' _ ih _ hx
    rw [(exec_effect hx).clients]
    exact ih
  · intro m w w' ih hm id c hc
    cases m with
    | tick d =>
      cases hm
      exact ih id c hc
    | configure clients connectors =>
      simp only [move] at hm
      split at hm
      · rename_i hkeyed
        cases hm
        simp only [Bool.and_eq_true, List.all_eq_true, beq_iff_eq] at hkeyed
        exact (hkeyed.1 _ (AList.mem_lookup_iff.mp hc)).symm
      · cases hm

theorem authCode_id (h : Reach Initial s) {id c}
    (hc : s.world.store.authCodes.lookup id = some c) : c.id = id := by
  refine Reach.stored (P := fun w => ∀ id c, w.store.authCodes.lookup id = some c → c.id = id)
    ?_ ?_ ?_ h id c hc
  · intro w hw id c hc
    exact (hw.authCodes id c hc).1
  · intro s tid req o k ans r w' _ ih _ hx id c hc
    rcases (exec_effect hx).authCodes hc with hc | ⟨_, hid⟩
    · exact ih id c hc
    · exact hid.symm
  · intro m w w' ih hm id c hc
    obtain ⟨_, _, hs, _⟩ := move_store hm
    rw [hs] at hc
    exact ih id c hc

theorem deleteAuthCode_once (h : Reach Initial s) {id t1 t2}
    (h1 : did (past t1 s.hist) (.deleteAuthCode id) (.ok ()))
    (h2 : did (past t2 s.hist) (.deleteAuthCode id) (.ok ())) : t1 = t2 := by
  refine Names.leave_thread codeNames_lawful (n := id) h h1 h2 fun he => ?_
  obtain ⟨hc, hnone⟩ := (Reach.effect h he).of_deleteAuthCode
  refine ⟨hc, ?_⟩
  rintro ⟨c, hc⟩
  rw [hnone] at hc
  cases hc

theorem CodeChecked.read {req past r client c} (h : CodeChecked req past r client c) : did past (.getAuthCode r.code) (.ok c) := by
  obtain ⟨_, _, hthen⟩ := h.inTime
  exact hthen.subset (by simp)

def codeLabels (S : Setup) : Labels (codeNames S) Initial AuthCode where
  label w id c := w.store.authCodes.lookup id = some c
  present := fun h => ⟨_, h⟩
  init := fun _ h h' => Option.some.inj (h.symm.trans h')
  enter := by
    intro s tid req o k ans r w id c _ _ hx hc
    exact ((exec_effect hx).authCodes hc).imp_right fun ⟨he, hid⟩ => ⟨c, he, hid.symm⟩
  make := fun _ _ _ _ h h' => Option.some.inj (h.symm.trans h')
  enter_move := by
    intro m w w' id c hm hc
    obtain ⟨_, _, hs, _⟩ := move_store hm
    rw [hs] at hc
    exact hc

theorem read_authCode (h : Reach Initial s) {id t c c'} (hd : did (past tid s.hist) (.getAuthCode id) (.ok c))
    (hd' : did (past t s.hist) (.getAuthCode id) (.ok c')) : c = c' := by
  obtain ⟨_, _, _, hm⟩ := Reach.did_made h hd
  obtain ⟨_, hx⟩ := hm.exec
  obtain ⟨_, _, _, hm'⟩ := Reach.did_made h hd'
  obtain ⟨_, hx'⟩ := hm'.exec
  exact (codeLabels S).same_saw codeNames_lawful h (.pre hm.mem) (.pre hm'.mem)
    (exec_getAuthCode hx) (exec_getAuthCode hx')

structure Exchanges (s : Sys (dex S)) (tid : Nat) (r : TokenRequest) : Prop where
  request : tokenRequest s tid = some r
  grantType : r.grantType = grantTypeAuthorizationCode

/-- The calls that issue a refresh token, and `writeAccessToken`. -/
def issues : Ev sig → Bool
  | ⟨.createRefresh _, _⟩ | ⟨.note (.writeAccessToken _ _ _), _⟩ => true
  | _ => false

def Issued (s : Sys (dex S)) (tid : Nat) : Prop := ∃ e ∈ past tid s.hist, issues e = true

theorem Issued.claimed (h : Reach Initial s) {r} (hx : Exchanges s tid r) (hi : Issued s tid) :
    ∃ req client c, CodeClaimed req (past tid s.hist) r client c := by
  obtain ⟨inst, prog, hth⟩ := thread_of_tokenRequest hx.request
  obtain ⟨⟨o, res⟩, hd, hi⟩ := hi
  obtain ⟨req, s0, w', hm⟩ := Reach.did_made h hd
  obtain rfl := hm.req_eq hth
  cases o with
  | createRefresh x =>
    obtain ⟨⟨r', client, c, hc⟩, _⟩ := hm.duty
    cases hc.kind
    exact ⟨_, client, c, hc.toCodeClaimed.mono hm.sublist⟩
  | note n =>
    cases n with
    | writeAccessToken idToken accessToken refreshToken =>
      cases hm.duty with
      | code hc =>
        cases hc.kind
        exact ⟨_, _, _, hc.mono hm.sublist⟩
      | offline hc _ _ =>
        cases hc.kind
        exact ⟨_, _, _, hc.toCodeClaimed.mono hm.sublist⟩
      | refresh hc _ _ _ =>
        cases hc.kind
        exact absurd hx.grantType (refresh_ne_code hc.grantType)
    | _ => cases hi
  | _ => cases hi

end

/-- Each code ID leads to at most one execution that issues anything, and that
one authenticated as the client of the code, presented its redirect URI and read
the clock in time. -/
theorem authCode_single_use (S : Setup) (s : Sys (dex S)) (h : Reach Initial s) :
    (∀ t1 t2 r1 r2, Exchanges s t1 r1 → Exchanges s t2 r2 → r1.code = r2.code →
      Issued s t1 → Issued s t2 → t1 = t2) ∧ ∀ tid r, Exchanges s tid r → Issued s tid → ∃ c client t,
      c.id = r.code ∧ did (past tid s.hist) (.getAuthCode r.code) (.ok c) ∧
      credentials r = .ok (c.clientID, client.secret) ∧
      did (past tid s.hist) (.getClient c.clientID) (.ok client) ∧ client.id = c.clientID ∧
      r.redirectURI = c.redirectURI ∧
      didThen (past tid s.hist) (.getAuthCode r.code) (.ok c) .now t ∧ t ≤ c.expiry := by
  refine ⟨?_, ?_⟩
  · intro t1 t2 r1 r2 hx1 hx2 hcode hi1 hi2
    obtain ⟨_, _, _, hc1⟩ := hi1.claimed h hx1
    obtain ⟨_, _, _, hc2⟩ := hi2.claimed h hx2
    exact deleteAuthCode_once h hc1.deleted (hcode ▸ hc2.deleted)
  · intro tid r hx hi
    obtain ⟨_, client, c, hc⟩ := hi.claimed h hx
    obtain ⟨t, ht, hthen⟩ := hc.inTime
    obtain ⟨id, hcred, hget⟩ := hc.secret
    have hread := hc.read
    -- both objects were read under the ID they carry
    have hid : client.id = id := by
      obtain ⟨_, s0, w', hm⟩ := Reach.did_made h hget
      obtain ⟨_, hx⟩ := hm.exec
      exact client_id hm.reach (exec_getClient hx)
    have hcid : c.id = r.code := by
      obtain ⟨_, s0, w', hm⟩ := Reach.did_made h hread
      obtain ⟨_, hx⟩ := hm.exec
      exact authCode_id hm.reach (exec_getAuthCode hx)
    have hcl : id = c.clientID := hid.symm.trans hc.clientID.symm
    subst hcl
    exact ⟨c, client, t, hcid, hread, hcred, hget, hid, hc.redirectURI.symm, hthen, ht⟩

/-- Two requests present the same code, and both have an ID token before the
first deletes the code. -/
@[irreducible] def racedRun : Sys (dex demo) := .after demoWorld <|
  obtainCode 0 "c" "openid" [{ password := true }] ++ exchangeCode 3 "c" "at" ++
  exchangeCode 4 "c" "at'" ++ going 3 (plains 6) ++ going 4 (plains 2)

theorem raced_authCode : (Issued racedRun 3 ∧ ¬ Issued racedRun 4) ∧ ∃ c client t,
    c.id = "c" ∧ did (past 3 racedRun.hist) (.getAuthCode "c") (.ok c) ∧
    credentials (codeRequest "c") = .ok (c.clientID, client.secret) ∧
    did (past 3 racedRun.hist) (.getClient c.clientID) (.ok client) ∧ client.id = c.clientID ∧
    "http://app/cb" = c.redirectURI ∧
    didThen (past 3 racedRun.hist) (.getAuthCode "c") (.ok c) .now t ∧ t ≤ c.expiry := by
  obtain ⟨hi, hreq⟩ : (Issued racedRun 3 ∧ ¬ Issued racedRun 4) ∧
      tokenRequest racedRun 3 = some (codeRequest "c") := by
    unfold Issued
    decide +kernel
  have hx : Exchanges racedRun 3 (codeRequest "c") := ⟨hreq, rfl⟩
  have h : Reach Initial racedRun := by
    unfold racedRun
    exact .after demo_blank.toInitial _
  exact ⟨hi, (authCode_single_use demo racedRun h).2 3 (codeRequest "c") hx hi.1⟩

end KubeYamls.Dex
