import KubeYamls.Dex.Runs

/-! # Refresh tokens are claimed at most once

The updater that rotates a refresh token compares its current value with the one
the client presented. A value that was rotated away never comes back, so of all
executions that present it one gets through. -/
namespace KubeYamls.Dex
open Data Conc

variable {newToken : String}

theorem claimUpdater_ok {x old new ident lastUsed} (h : claimUpdater x newToken ident lastUsed old = .ok new) :
    old.token = x.token ∧ new.token = newToken ∧ new.id = old.id ∧
      new.claims.userID = old.claims.userID ∧ new.connectorID = old.connectorID ∧
      new.clientID = old.clientID ∧ new.scopes = old.scopes ∧ new.nonce = old.nonce := by
  unfold claimUpdater at h
  split at h
  · cases h
  · rename_i ht
    cases h
    exact ⟨not_not.mp ht, rfl, rfl, rfl, rfl, rfl, rfl, rfl⟩

section
variable {S : Setup} {s : Sys (dex S)} {tid : Nat} {req : Request}

def refreshNames (S : Setup) : Names (dex S) String where
  toSupply := idSupply S
  present w id := ∃ x, w.store.refreshTokens.lookup id = some x
  make e id := ∃ x, e = ⟨.createRefresh x, .ok ()⟩ ∧ x.id = id

theorem refreshNames_lawful : (refreshNames S).Lawful Initial where
  init := by
    rintro w id hw ⟨x, hl⟩
    exact (hw.refreshTokens id x hl).2.1
  enter := by
    rintro s tid req o k ans r w' id _ _ hx ⟨x, hl⟩
    rcases (exec_effect hx).refreshTokens hl with hl | ⟨he, hid⟩ | ⟨_, old, _, ho, _⟩
    · exact .inl ⟨x, hl⟩
    · exact .inr ⟨x, he, hid.symm⟩
    · exact .inl ⟨old, ho⟩
  enter_move := by
    rintro m w w' id hm ⟨x, hl⟩
    obtain ⟨_, _, hs, _⟩ := move_store hm
    rw [hs] at hl
    exact ⟨x, hl⟩
  make := by
    rintro s tid req o k ans r w id h hth hx ⟨x, he, rfl⟩
    cases he
    obtain ⟨⟨_, _, _, hmade⟩, huntouched⟩ := Reach.duty h hth
    refine ⟨drawn_iff.mpr hmade.id, ?_⟩
    rintro ⟨e, he, x', rfl, _⟩
    exact huntouched _ _ rfl he

def pairNames (S : Setup) : Names (dex S) (String × String) where
  toSupply := (idSupply S).comap Prod.snd
  present w p := ∃ x, w.store.refreshTokens.lookup p.1 = some x ∧ x.token = p.2
  make e p := (∃ x, e = ⟨.createRefresh x, .ok ()⟩ ∧ (x.id, x.token) = p) ∨
    ∃ f old new, e = ⟨.updateRefreshToken p.1 f, .ok old⟩ ∧ f old = .ok new ∧ new.token = p.2

theorem pairNames_lawful : (pairNames S).Lawful Initial where
  init := by
    rintro w p hw ⟨x, hl, ht⟩
    have htaken := (hw.refreshTokens _ x hl).2.2
    rw [ht] at htaken
    exact htaken
  enter := by
    rintro s tid req o k ans r w' p _ _ hx ⟨x, hl, ht⟩
    rcases (exec_effect hx).refreshTokens hl with hl | ⟨he, hid⟩ | ⟨f, old, he, _, hf⟩
    · exact .inl ⟨x, hl, ht⟩
    · exact .inr (.inl ⟨x, he, Prod.ext hid.symm ht⟩)
    · exact .inr (.inr ⟨f, old, x, he, hf, ht⟩)
  enter_move := by
    rintro m w w' p hm ⟨x, hl, ht⟩
    obtain ⟨_, _, hs, _⟩ := move_store hm
    rw [hs] at hl
    exact ⟨x, hl, ht⟩
  make := by
    rintro s tid req o k ans r w p h hth hx (⟨x, he, rfl⟩ | ⟨f, old, new, he, hf, ht⟩)
    · cases he
      obtain ⟨⟨_, _, _, hmade⟩, huntouched⟩ := Reach.duty h hth
      refine ⟨drawn_iff.mpr hmade.token, ?_⟩
      rintro ⟨e, he, ⟨x', rfl, _⟩ | ⟨f, old, new, rfl, _⟩⟩
      · exact huntouched _ _ rfl he
      · exact huntouched _ _ rfl he
    · cases he
      obtain ⟨_, _, x, newToken, _, _, _, _, _, rfl, hdraw, hcreate, hupdate⟩ := Reach.duty h hth
      refine ⟨drawn_iff.mpr ?_, ?_⟩
      · rw [← ht, (claimUpdater_ok hf).2.1]
        exact hdraw
      · rintro ⟨e, he, ⟨x', rfl, _⟩ | ⟨f', old', _, rfl, _⟩⟩
        · exact hcreate _ _ he
        · exact hupdate _ _ _ he

theorem refreshToken_id (h : Reach Initial s) {id x}
    (hl : s.world.store.refreshTokens.lookup id = some x) : x.id = id := by
  refine Reach.stored (P := fun w => ∀ id x, w.store.refreshTokens.lookup id = some x → x.id = id)
    ?_ ?_ ?_ h id x hl
  · intro w hw id x hl
    exact (hw.refreshTokens id x hl).1
  · intro s tid req o k ans r w' hr ih hth hx id x hl
    rcases (exec_effect hx).refreshTokens hl with hl | ⟨_, hid⟩ | ⟨f, old, he, ho, hf⟩
    · exact ih id x hl
    · exact hid.symm
    · cases he
      obtain ⟨_, _, _, _, _, _, _, _, _, rfl, _⟩ := Reach.duty hr hth
      exact (claimUpdater_ok hf).2.2.1.trans (ih id old ho)
  · intro m w w' ih hm id x hl
    obtain ⟨_, _, hs, _⟩ := move_store hm
    rw [hs] at hl
    exact ih id x hl

variable {id token : String}

theorem read_refresh_id (h : Reach Initial s) {x}
    (hd : did (past tid s.hist) (.getRefresh id) (.ok x)) : x.id = id := by
  obtain ⟨_, s0, _, hm⟩ := Reach.did_made h hd
  obtain ⟨_, hx⟩ := hm.exec
  exact refreshToken_id hm.reach (exec_getRefresh hx)

/-- Thread `tid` claims the pair (`id`, `token`) and puts `newToken` in its place. -/
def Rotates (hist : List (Step S)) (tid : Nat) (id token newToken : String) : Prop :=
  ∃ f old new, did (past tid hist) (.updateRefreshToken id f) (.ok old) ∧ f old = .ok new ∧
    old.token = token ∧ new.token = newToken

theorem Rotates.step (h : Reach Initial s) (hc : Rotates s.hist tid id token newToken) : ∃ req f old pre post,
      (.act tid req (.updateRefreshToken id f) (.ok old) pre post : Step S) ∈ s.hist ∧
      (pairNames S).present pre (id, token) ∧ ¬ (pairNames S).present post (id, token) ∧
      (pairNames S).present post (id, newToken) := by
  obtain ⟨f, old, new, hd, hf, rfl, rfl⟩ := hc
  obtain ⟨req, s0, w', hm⟩ := Reach.did_made h hd
  obtain ⟨_, hth⟩ := hm.ready
  obtain ⟨_, hx⟩ := hm.exec
  have hnew := Names.not_present_of_make pairNames_lawful hm.reach hth hx
    (n := (id, new.token)) (.inr ⟨f, old, new, rfl, hf, rfl⟩)
  cases hm.effect with
  | none hn => cases hn
  | updateRefreshToken hl hf' =>
    cases hf.symm.trans hf'
    have hpre : (pairNames S).present s0.world (id, old.token) := ⟨old, hl, rfl⟩
    refine ⟨req, f, old, _, _, hm.mem, hpre, ?_, new, AList.lookup_insert _, rfl⟩
    rintro ⟨x, hx, ht⟩
    rcases Table.lookup_insert_iff.mp hx with ⟨_, rfl⟩ | ⟨hne, _⟩
    · rw [ht] at hnew
      exact hnew hpre
    · exact hne rfl

theorem Rotates.once {n1 n2 t1 t2} (h : Reach Initial s)
    (h1 : Rotates s.hist t1 id token n1) (h2 : Rotates s.hist t2 id token n2) : t1 = t2 := by
  obtain ⟨_, _, _, _, _, he1, hp1, hn1, _⟩ := h1.step h
  obtain ⟨_, _, _, _, _, he2, hp2, hn2, _⟩ := h2.step h
  cases Names.leave_once pairNames_lawful h he1 he2 hp1 hn1 hp2 hn2
  rfl

theorem Rotates.cons {hist} (hc : Rotates hist tid id token newToken) (e : Step S) :
    Rotates (e :: hist) tid id token newToken := by
  obtain ⟨f, old, new, hd, h⟩ := hc
  exact ⟨f, old, new, hd.later e, h⟩

theorem Rotates.kept (h : Reach Initial s) (hc : Rotates s.hist tid id token newToken)
    {y} (hy : s.world.store.refreshTokens.lookup id = some y) :
    y.token = newToken ∨ ∃ t n, t ≠ tid ∧ Rotates s.hist t id newToken n := by
  refine Reach.invariant (C := fun _ _ => True) (I := fun w hist =>
    Rotates hist tid id token newToken → ∀ y, w.store.refreshTokens.lookup id = some y →
      y.token = newToken ∨ ∃ t n, t ≠ tid ∧ Rotates hist t id newToken n)
    ?_ ?_ ?_ ?_ h (along_true _) hc y hy
  · rintro w _ ⟨_, _, _, hd, _⟩
    cases hd
  · intro w hist tid req ih hc
    exact ih hc
  · intro s t req o k ans r w' hr _ ih hth hx hc y hy
    have hlater : ∀ {x : RefreshToken}, x.token = newToken ∨
        (∃ t n, t ≠ tid ∧ Rotates s.hist t id newToken n) → x.token = newToken ∨
        ∃ t' n, t' ≠ tid ∧ Rotates (.act t req o r s.world w' :: s.hist) t' id newToken n := by
      rintro x (hx | ⟨t', n, hne, hrot⟩)
      · exact .inl hx
      · exact .inr ⟨t', n, hne, hrot.cons _⟩
    obtain ⟨f, old, new, hd, hf, hold, hnew⟩ := hc
    rcases did_act.mp hd with ⟨rfl, he⟩ | hd'
    · -- this step is the claim
      cases he
      cases exec_effect hx with
      | none hn => cases hn
      | updateRefreshToken _ hf' =>
        cases hf.symm.trans hf'
        rw [AList.lookup_insert] at hy
        cases hy
        exact .inl hnew
    · have hc : Rotates s.hist tid id token newToken := ⟨f, old, new, hd', hf, hold, hnew⟩
      rcases (exec_effect hx).refreshTokens hy with hy | ⟨he, rfl⟩ | ⟨f', old', he, hl, hf'⟩
      · exact hlater (ih hc y hy)
      · -- an ID that was stored is not created again
        obtain ⟨_, _, _, _, _, hmem, ⟨x, hx1, _⟩, _⟩ := hc.step hr
        cases he
        exact absurd (Names.known_of_saw refreshNames_lawful hr (.pre hmem) ⟨x, hx1⟩)
          (Names.not_known_of_make refreshNames_lawful hr hth hx ⟨y, rfl, rfl⟩)
      · rcases ih hc old' hl with htok | ⟨t', n, hne, hrot⟩
        · refine .inr ⟨t, y.token, ?_, f', old', y, did_act.mpr (.inl ⟨rfl, he⟩), hf', htok, rfl⟩
          rintro rfl
          cases he
          obtain ⟨_, _, _, _, _, _, _, _, _, _, _, _, hfirst⟩ := Reach.duty hr hth
          exact hfirst _ _ _ hd'
        · exact .inr ⟨t', n, hne, hrot.cons _⟩
  · intro s m w' clients connectors _ ih _ hs _ _ _ hc y hy
    rw [hs] at hy
    exact ih hc y hy

/-- The refresh tokens thread `tid` has passed to `writeAccessToken`. -/
def handedOut (hist : List (Step S)) (tid : Nat) : List String :=
  (past tid hist).filterMap fun e => match e with
    | ⟨.note (.writeAccessToken _ _ refreshToken), _⟩ => some refreshToken
    | _ => none

theorem mem_handedOut {hist : List (Step S)} {raw} : raw ∈ handedOut hist tid ↔ ∃ idToken accessToken,
      did (past tid hist) (.note (.writeAccessToken idToken accessToken raw)) () := by
  simp only [handedOut, List.mem_filterMap]
  constructor
  · rintro ⟨e, he, hm⟩
    split at hm
    · cases hm
      exact ⟨_, _, he⟩
    · cases hm
  · rintro ⟨idToken, accessToken, hd⟩
    exact ⟨_, hd, rfl⟩

/-- Thread `tid` serves the refresh request `r`. -/
structure Refreshes (s : Sys (dex S)) (tid : Nat) (r : TokenRequest) : Prop where
  request : tokenRequest s tid = some r
  grantType : r.grantType = grantTypeRefreshToken

theorem Refreshes.hands {Init : World → Prop} (h : Reach Init s) {r raw}
    (hx : Refreshes s tid r) (hraw : raw ∈ handedOut s.hist tid) :
    ∃ req client x newToken ident lastUsed old, RefreshChecked S req (past tid s.hist) r client x ∧
      Touched (past tid s.hist) x lastUsed ∧ S.codec.marshal x.id newToken = some raw ∧
      did (past tid s.hist) (.updateRefreshToken x.id (claimUpdater x newToken ident lastUsed)) (.ok old) := by
  obtain ⟨inst, prog, hth⟩ := thread_of_tokenRequest hx.request
  obtain ⟨_, _, hd⟩ := mem_handedOut.mp hraw
  obtain ⟨req, s0, w', hm⟩ := Reach.did_made h hd
  obtain rfl := hm.req_eq hth
  have hcode : ∀ {client c}, ¬ CodeClaimed ⟨inst, .token r⟩ (past tid s0.hist) r client c := by
    intro client c hc
    exact absurd hc.grantType (refresh_ne_code hx.grantType)
  cases hm.duty with
  | code hc => cases hc.kind; exact absurd hc hcode
  | offline hc _ _ => cases hc.kind; exact absurd hc.toCodeClaimed hcode
  | refresh hc ht hu hraw =>
    cases hc.kind
    exact ⟨_, _, _, _, _, _, _, hc.mono hm.sublist, ht.mono hm.sublist, hraw, hu.mono hm.sublist⟩

theorem Refreshes.rotates (h : Reach Initial s) {r raw}
    (hx : Refreshes s tid r) (hraw : raw ∈ handedOut s.hist tid) :
    ∃ id newToken, id = (decodeRefresh S.codec r.refreshToken).1 ∧ S.codec.marshal id newToken = some raw ∧
      Rotates s.hist tid id (decodeRefresh S.codec r.refreshToken).2 newToken := by
  obtain ⟨_, _, x, newToken, _, _, old, hc, _, hm, hu⟩ := hx.hands h hraw
  refine ⟨x.id, newToken, read_refresh_id h hc.read, hm, ?_⟩
  obtain ⟨_, s1, w1, hm1⟩ := Reach.did_made h hu
  cases hm1.effect with
  | none hn => cases hn
  | updateRefreshToken hl hf =>
    exact ⟨_, old, _, hu, hf, (claimUpdater_ok hf).1.trans hc.token, (claimUpdater_ok hf).2.1⟩

end

/-- Of all refresh requests that present one pair of ID and token at most one is
answered with tokens. It leaves the value it returns in the storage, where only
the claim of that value replaces it. -/
theorem refresh_claimed_once (S : Setup) (s : Sys (dex S)) (h : Reach Initial s) :
    (∀ t1 t2 r1 r2 raw1 raw2, Refreshes s t1 r1 → Refreshes s t2 r2 →
      decodeRefresh S.codec r1.refreshToken = decodeRefresh S.codec r2.refreshToken →
      raw1 ∈ handedOut s.hist t1 → raw2 ∈ handedOut s.hist t2 → t1 = t2) ∧
    ∀ tid r raw, Refreshes s tid r → raw ∈ handedOut s.hist tid → ∃ id newToken,
      id = (decodeRefresh S.codec r.refreshToken).1 ∧ S.codec.unmarshal raw = some (id, newToken) ∧
      (∃ req f old pre post y, (.act tid req (.updateRefreshToken id f) (.ok old) pre post : Step S) ∈ s.hist ∧
        post.store.refreshTokens.lookup id = some y ∧ y.token = newToken) ∧
      ∀ y, s.world.store.refreshTokens.lookup id = some y →
        y.token = newToken ∨ ∃ t n, t ≠ tid ∧ Rotates s.hist t id newToken n := by
  refine ⟨?_, ?_⟩
  · intro t1 t2 r1 r2 raw1 raw2 hx1 hx2 hpair hraw1 hraw2
    obtain ⟨_, n1, hid1, _, hrot1⟩ := hx1.rotates h hraw1
    obtain ⟨_, n2, hid2, _, hrot2⟩ := hx2.rotates h hraw2
    rw [hid1, hpair, ← hid2] at hrot1
    exact hrot1.once h hrot2
  · intro tid r raw hx hraw
    obtain ⟨id, newToken, hid, hm, hrot⟩ := hx.rotates h hraw
    obtain ⟨req, f, old, pre, post, hmem, _, _, y, hy, ht⟩ := hrot.step h
    exact ⟨id, newToken, hid, S.codec.unmarshal_marshal hm,
      ⟨req, f, old, pre, post, y, hmem, hy, ht⟩, fun y hy => hrot.kept h hy⟩

/-- Two requests present the same token, and both have touched the session
before the first updates the token. -/
@[irreducible] def claimedRun : Sys (dex demo) := .after demoWorld <|
  obtainRefresh ++ refreshing 4 "x" "x1" "at4" "x2" ++ refreshing 5 "x" "x1" "at5" "x3" ++
  going 4 (plains 2) ++ going 5 (plains 6) ++ going 4 (plains 2)

theorem claimed_refresh : handedOut claimedRun.hist 4 = [] ∧
    ∃ raw, handedOut claimedRun.hist 5 = [raw] ∧ ∃ id newToken,
      id = (decodeRefresh codec (refreshRequest "x" "x1").refreshToken).1 ∧
      codec.unmarshal raw = some (id, newToken) ∧ (∃ req f old pre post y,
        (.act 5 req (.updateRefreshToken id f) (.ok old) pre post : Step demo) ∈ claimedRun.hist ∧
        post.store.refreshTokens.lookup id = some y ∧ y.token = newToken) ∧
      ∀ y, claimedRun.world.store.refreshTokens.lookup id = some y →
        y.token = newToken ∨ ∃ t n, t ≠ 5 ∧ Rotates claimedRun.hist t id newToken n := by
  obtain ⟨hnone, hraw, hreq⟩ : handedOut claimedRun.hist 4 = [] ∧
      handedOut claimedRun.hist 5 = [(codec.marshal "x" "x3").getD ""] ∧
      tokenRequest claimedRun 5 = some (refreshRequest "x" "x1") := by
    decide +kernel
  have hx : Refreshes claimedRun 5 (refreshRequest "x" "x1") := ⟨hreq, rfl⟩
  have h : Reach Initial claimedRun := by
    unfold claimedRun
    exact .after demo_blank.toInitial _
  exact ⟨hnone, _, hraw,
    (refresh_claimed_once demo claimedRun h).2 5 _ _ hx (hraw ▸ List.mem_singleton_self _)⟩

end KubeYamls.Dex
