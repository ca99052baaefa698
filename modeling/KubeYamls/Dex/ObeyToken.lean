import KubeYamls.Dex.Obey

/-! # The token endpoint and the revocation meet the contract -/
namespace KubeYamls.Dex
open Conc Prog List

section
variable {S : Setup} {req : Request} {past past' : Past} {r : TokenRequest} {client : Client}
  {c : AuthCode} {x : RefreshToken}

namespace Untouched

theorem nil : Untouched [] := fun _ _ _ hd => by simp at hd

theorem cons (h : Untouched past) (e : Ev sig) (he : touches e.1 = false) : Untouched (e :: past) := by
  intro o r ho hd
  rcases (did_cons _ _ _ _).mp hd with rfl | hd
  · rw [he] at ho
    cases ho
  · exact h o r ho hd

theorem uninstalled (h : Untouched past) : Uninstalled past :=
  ⟨fun _ => h _ _ rfl, fun _ _ _ _ => h _ _ rfl, fun _ _ _ => h _ _ rfl⟩

theorem settled (h : Untouched past) : Settled past :=
  ⟨fun _ hd => (h _ _ rfl hd).elim, fun _ _ _ hd => (h _ _ rfl hd).elim⟩

theorem settled_of_error (h : Untouched past) (e : Error) : Settled (⟨.createRefresh x, .error e⟩ :: past) := by
  have hno : ∀ x', ¬ did (⟨.createRefresh x, .error e⟩ :: past) (.createRefresh x') (.ok ()) := by
    intro x' hd
    rcases (did_cons _ _ _ _).mp hd with heq | hd
    · cases heq
    · exact h _ _ rfl hd
  exact ⟨fun _ hd => (hno _ hd).elim, fun _ _ _ hd => (hno _ hd).elim⟩

end Untouched

/-- A call on something else leaves a settled execution settled. -/
theorem Settled.cons (h : Settled past) (e : Ev sig) (he : touches e.1 = false) : Settled (e :: past) := by
  have hback : ∀ o r, touches o = true → did (e :: past) o r → did past o r := by
    intro o r ho hd
    rcases (did_cons _ _ _ _).mp hd with rfl | hd
    · rw [he] at ho
      cases ho
    · exact hd
  have hs : past.Sublist (e :: past) := sublist_cons_self _ _
  refine ⟨fun x hd => ?_, fun x session ref hd hr hdel => ?_⟩
  · exact (h.created x (hback _ _ rfl hd)).imp (·.mono hs) fun ⟨e, he⟩ => ⟨e, he.mono hs⟩
  · exact (h.replaced x session ref (hback _ _ rfl hd) ⟨hback _ _ rfl hr.read, hr.lookup⟩
      (hback _ _ rfl hdel)).imp_right fun ⟨u, c, f, e, he⟩ => ⟨u, c, f, e, he.mono hs⟩

theorem post_token (hk : req.kind = .token r) (hs : Settled past) (hr : Replied S req past) :
    post S req past := by
  simp only [post, hk]
  exact ⟨hs, hr⟩

theorem wp_tokenErrHelper {typ description status} (hk : req.kind = .token r)
    (hs : Settled past) : (tokenErrHelper typ description status).wp (contract S req)
      (fun past _ => post S req past) past :=
  wp_op trivial fun _ _ => post_token hk (hs.cons _ rfl) (.inr (.inl ⟨_, _, _, mem_cons_self⟩))

theorem wp_writeAccessToken {idToken accessToken refreshToken expiry}
    (hk : req.kind = .token r) (hh : Hands S req past refreshToken) (hs : Settled past) :
    (writeAccessToken idToken accessToken refreshToken expiry).wp (contract S req)
      (fun past _ => post S req past) past := by
  unfold writeAccessToken
  refine wp_step hh fun _ _ => wp_step trivial fun t _ => wp_op trivial fun _ _ => ?_
  refine post_token hk (((hs.cons _ rfl).cons _ rfl).cons _ rfl) (.inl ⟨idToken, accessToken, refreshToken, ?_⟩)
  exact ⟨hh.mono (.cons _ (.cons _ (.cons _ (.refl _)))), by simp⟩

/-! ## The code exchange -/

/-- One refresh token was created, and nothing was installed for it. -/
structure Pending (req : Request) (past : Past) (r : TokenRequest) (client : Client) (c : AuthCode)
    (x : RefreshToken) : Prop extends RefreshStored req past r client c x, Uninstalled past where
  only : ∀ x', did past (.createRefresh x') (.ok ()) → x' = x

/-- Replies that create a token, install a reference or claim a token. -/
def installs : (o : Op) → Res o → Bool
  | .createRefresh _, .ok _ | .createOfflineSessions _, .ok _ | .updateOfflineSessions _ _ _, .ok _
  | .updateRefreshToken _ _, _ => true
  | _, _ => false

theorem Pending.cons (h : Pending req past r client c x) (e : Ev sig)
    (he : installs e.1 e.2 = false) : Pending req (e :: past) r client c x := by
  have hback : ∀ o r, installs o r = true → did (e :: past) o r → did past o r := by
    intro o r ho hd
    rcases (did_cons _ _ _ _).mp hd with rfl | hd
    · rw [he] at ho
      cases ho
    · exact hd
  refine ⟨h.toRefreshStored.mono (.cons _ (.refl _)), ⟨fun o' hd => ?_, fun _ _ _ _ hd => ?_,
    fun _ _ _ hd => ?_⟩, fun x' hd => ?_⟩
  · exact h.create o' (hback _ _ rfl hd)
  · exact h.update _ _ _ _ (hback _ _ rfl hd)
  · exact h.claim _ _ _ (hback _ _ rfl hd)
  · exact h.only x' (hback _ _ rfl hd)

theorem RefreshMade.pending (h : RefreshMade req past r client c x) (hu : Untouched past) :
    Pending req (⟨.createRefresh x, .ok ()⟩ :: past) r client c x := by
  refine ⟨{ h.mono (.cons _ (.refl _)) with created := mem_cons_self }, ⟨?_, ?_, ?_⟩, ?_⟩
  · simpa using hu.uninstalled.create
  · simpa using hu.uninstalled.update
  · simpa using hu.uninstalled.claim
  · intro x' hd
    rcases (did_cons _ _ _ _).mp hd with heq | hd
    · cases heq; rfl
    · exact (hu _ _ rfl hd).elim

theorem wp_discardRefresh (h : Pending req past r client c x)
    (hrep : ∀ session ref, OldRef past x session ref → did past (.deleteRefresh ref.id) (.ok ()) →
      ∃ u c f res, did past (.updateOfflineSessions u c f) res) :
    (discardRefresh x).wp (contract S req) (fun past _ => post S req past) past := by
  unfold discardRefresh tokenErrHelper
  refine wp_step trivial fun _ _ => ?_
  have h' := h.cons ⟨.write (.tokenErr errServerError "" 500), ()⟩ rfl
  refine wp_step (.own h'.toRefreshStored h'.toUninstalled) fun res _ => ?_
  have hset : Settled (⟨.deleteRefresh x.id, res⟩ ::
      ⟨.write (.tokenErr errServerError "" 500), ()⟩ :: past) := by
    refine ⟨fun x' hd => ?_, fun x' session ref hd hr hdel => ?_⟩
    · obtain rfl := h.only x' (by simpa using hd)
      exact .inr ⟨res, mem_cons_self⟩
    · obtain rfl := h.only x' (by simpa using hd)
      by_cases hid : ref.id = x'.id
      · exact .inl hid
      · obtain ⟨u, c, f, e, he⟩ := hrep session ref ⟨by simpa using hr.read, hr.lookup⟩
          (by simpa [hid] using hdel)
        exact .inr ⟨u, c, f, e, by simp [he]⟩
  have hrepl : Replied S req (⟨.deleteRefresh x.id, res⟩ ::
      ⟨.write (.tokenErr errServerError "" 500), ()⟩ :: past) :=
    .inr (.inl ⟨_, _, _, mem_cons_of_mem _ mem_cons_self⟩)
  rcases res with e | _
  · exact wp_tokenErrHelper h.kind hset
  · exact wp_ret (post_token h.kind hset hrepl)

/-- `finish` is how the handler ends once the reference is installed. -/
def Finishes (S : Setup) (req : Request) (x : RefreshToken) (finish : Handler Unit) : Prop :=
  ∀ past r client c, RefreshStored req past r client c x → Installed past x → Settled past →
    finish.wp (contract S req) (fun past _ => post S req past) past

theorem wp_replaceRef {session finish}
    (hfin : Finishes S req x finish) (h : Pending req past r client c x) (hk : Kept past x)
    (hs : did past (.getOfflineSessions x.claims.userID x.connectorID) (.ok session))
    (hold : ∀ ref, OldRef past x session ref → did past (.deleteRefresh ref.id) (.ok ())) :
    (replaceRef x session finish).wp (contract S req) (fun past _ => post S req past) past := by
  unfold replaceRef
  refine wp_step (.install h.toRefreshStored h.toUninstalled hk hs hold) fun res _ => ?_
  rcases res with old | e | _
  · have hi : Installed (⟨.updateOfflineSessions session.userID session.connID
        (setTokenRef x.ref), .ok old⟩ :: past) x := .inr ⟨_, _, old, mem_cons_self⟩
    refine hfin _ r client c (h.toRefreshStored.mono (.cons _ (.refl _))) hi
      ⟨fun x' hd => ?_, fun x' s' ref hd hr _ => .inr ⟨_, _, _, _, mem_cons_self⟩⟩
    obtain rfl := h.only x' (by simpa using hd)
    exact .inl hi
  · exact wp_discardRefresh (h.cons _ rfl) fun s' ref hr _ => ⟨_, _, _, _, mem_cons_self⟩
  · exact wp_discardRefresh (h.cons _ rfl) fun s' ref hr _ => ⟨_, _, _, _, mem_cons_self⟩

theorem wp_storeRef {finish} (hfin : Finishes S req x finish) (h : Pending req past r client c x)
    (hnodel : ∀ id res, ¬ did past (.deleteRefresh id) res) :
    (storeRef x finish).wp (contract S req) (fun past _ => post S req past) past := by
  unfold storeRef
  refine wp_step trivial fun res _ => ?_
  have h' := h.cons ⟨.getOfflineSessions x.claims.userID x.connectorID, res⟩ rfl
  have hdiscard : (discardRefresh x).wp (contract S req) (fun past _ => post S req past)
      (⟨.getOfflineSessions x.claims.userID x.connectorID, res⟩ :: past) :=
    wp_discardRefresh h' fun s' ref _ hd => by simp [hnodel] at hd
  rcases res with (_ | _ | _) | session
  · have hk : Kept (⟨.getOfflineSessions x.claims.userID x.connectorID, .error .notFound⟩ :: past) x :=
      fun res hd => by simp [hnodel] at hd
    refine wp_step ⟨r, client, c, x, h'.toRefreshStored, h'.toUninstalled, hk, rfl⟩ fun res _ => ?_
    rcases res with e | _
    · exact wp_discardRefresh (h'.cons _ rfl) fun s' ref _ hd => by simp [hnodel] at hd
    · have hi : Installed (⟨.createOfflineSessions (newOfflineSessions x), .ok ()⟩ ::
          ⟨.getOfflineSessions x.claims.userID x.connectorID, .error .notFound⟩ :: past) x :=
        .inl mem_cons_self
      refine hfin _ r client c (h'.toRefreshStored.mono (.cons _ (.refl _))) hi
        ⟨fun x' hd => ?_, fun x' s' ref hd _ hdel => by simp [hnodel] at hdel⟩
      obtain rfl := h.only x' (by simpa using hd)
      exact .inl hi
  · exact hdiscard
  · exact hdiscard
  · dsimp only
    split
    · rename_i old hlook
      have ho : OldRef (⟨.getOfflineSessions x.claims.userID x.connectorID, .ok session⟩ :: past)
        x session old := ⟨mem_cons_self, hlook⟩
      refine wp_step (.old h'.toRefreshStored h'.toUninstalled ho) fun res _ => ?_
      rcases res with e | _
      · refine wp_discardRefresh (h'.cons _ rfl) fun s' ref _ hd => ?_
        simp [hnodel] at hd
      · refine wp_replaceRef hfin (h'.cons _ rfl) (fun res hd => ?_) (by simp) fun ref hr => ?_
        · refine ⟨session, old, ho.mono (.cons _ (.refl _)), ?_⟩
          simp only [did_cons, Sigma.mk.injEq, Op.deleteRefresh.injEq, reduceCtorEq, false_and,
            hnodel, or_false] at hd
          exact hd.1.symm
        · have heq : ref = old := Option.some.inj (hr.lookup.symm.trans hlook)
          rw [heq]
          exact mem_cons_self
    · rename_i hlook
      refine wp_replaceRef hfin h' (fun res hd => by simp [hnodel] at hd) mem_cons_self
        fun ref hr => ?_
      have hsome := hr.lookup
      rw [show session.refresh.lookup x.clientID = none from hlook] at hsome
      cases hsome

theorem wp_reqRefresh (c : AuthCode) (hu : Untouched past) : (reqRefresh c).wp (contract S req)
      (fun past' _ => past.Sublist past' ∧ Untouched past') past := by
  unfold reqRefresh
  refine wp_seq (wp_getConnector _) fun p1 res hs => ?_
  have hu1 := hu.since hs
  rcases res with e | conn
  · exact wp_step trivial fun _ _ => wp_ret ⟨.cons _ hs.sublist, hu1.cons _ rfl⟩
  · dsimp only
    split <;> exact wp_ret ⟨hs.sublist, hu1⟩

theorem wp_redeem {idToken expiry accessToken} (h : CodeClaimed req past r client c) (hu : Untouched past) :
    (redeem c idToken expiry accessToken).wp (contract S req) (fun past _ => post S req past) past := by
  unfold redeem
  refine wp_seq (wp_reqRefresh c hu) fun p1 b hb => ?_
  obtain ⟨hs1, hu1⟩ := hb
  have h1 := h.mono hs1
  split
  · refine wp_step trivial fun id _ => wp_step trivial fun token _ => wp_step trivial fun t1 _ =>
      wp_step trivial fun t2 _ => wp_step trivial fun res hres => ?_
    have hu2 := ((((hu1.cons ⟨.newID, id⟩ rfl).cons ⟨.newID, token⟩ rfl).cons ⟨.now, t1⟩ rfl).cons
      ⟨.now, t2⟩ rfl).cons ⟨.marshal id token, res⟩ rfl
    rcases res with e | refreshToken
    · exact wp_tokenErrHelper h.kind hu2.settled
    have hm : RefreshMade req (⟨.marshal id token, .ok refreshToken⟩ :: ⟨.now, t2⟩ ::
        ⟨.now, t1⟩ :: ⟨.newID, token⟩ :: ⟨.newID, id⟩ :: p1) r client c (refreshOf c id token t1 t2) :=
      { h1.mono (.cons _ (.cons _ (.cons _ (.cons _ (.cons _ (.refl _)))))) with
        shape := ⟨t1, t2, rfl⟩
        id := by simp [refreshOf]
        token := by simp [refreshOf] }
    refine wp_step ⟨⟨r, client, c, hm⟩, hu2⟩ fun res _ => ?_
    rcases res with e | _
    · exact wp_tokenErrHelper h.kind (hu2.settled_of_error e)
    · refine wp_storeRef ?_ (hm.pending hu2) ?_
      · intro past r client c hst hi hset
        exact wp_writeAccessToken hst.kind (.offline hst hi hres) hset
      · intro id' res hd
        simp only [did_cons, Sigma.mk.injEq, reduceCtorEq, false_and, false_or] at hd
        exact hu1 _ _ rfl hd
  · exact wp_writeAccessToken h.kind (.code h1) hu1.settled

theorem wp_exchange (h : CodeChecked req past r client c) (hu : Untouched past) :
    (exchange (S.config req.inst) client r.code c).wp (contract S req) (fun past _ => post S req past) past := by
  unfold exchange
  refine wp_step trivial fun accessToken _ => ?_
  have h1 := h.mono (.cons ⟨.newID, accessToken⟩ (.refl _))
  refine wp_seq (wp_newIDToken (.code h1)) fun p1 res hq => ?_
  have hu1 := (hu.cons ⟨.newID, accessToken⟩ rfl).since hq
  rcases res with e | ⟨idToken, expiry⟩
  · exact wp_tokenErrHelper h.kind hu1.settled
  refine wp_step ⟨r, client, c, h1.mono hq.sublist, rfl⟩ fun res _ => ?_
  rcases res with e | _
  · exact wp_tokenErrHelper h.kind (hu1.settled.cons _ rfl)
  · have hclaim : CodeClaimed req (⟨.deleteAuthCode r.code, .ok ()⟩ :: p1) r client c :=
      { h1.mono (.cons _ hq.sublist) with deleted := mem_cons_self }
    exact wp_redeem hclaim (hu1.cons _ rfl)

theorem wp_handleAuthCode (h : Authenticated req past r client)
    (hg : r.grantType = grantTypeAuthorizationCode) (hu : Untouched past) :
    (handleAuthCode (S.config req.inst) r client).wp (contract S req) (fun past _ => post S req past) past := by
  unfold handleAuthCode
  refine wp_step trivial fun res _ => ?_
  have hu1 := hu.cons ⟨.getAuthCode r.code, res⟩ rfl
  rcases res with e | c
  · cases e <;> exact wp_tokenErrHelper h.kind hu1.settled
  refine wp_step trivial fun t _ => ?_
  have hu2 := hu1.cons ⟨.now, t⟩ rfl
  dsimp only
  split
  · exact wp_tokenErrHelper h.kind hu2.settled
  rename_i hcheck
  obtain ⟨ht, hclient⟩ := not_or.mp hcheck
  split
  · exact wp_tokenErrHelper h.kind hu2.settled
  rename_i huri
  refine wp_exchange ?_ hu2
  exact { h.mono (.cons _ (.cons _ (.refl _))) with
    grantType := hg
    clientID := not_not.mp hclient
    redirectURI := not_not.mp huri
    inTime := ⟨t, Int.not_lt.mp ht, .cons mem_cons_self⟩ }

/-! ## The refresh -/

theorem wp_claimRefresh {ident idToken expiry accessToken newToken raw} (h : RefreshChecked S req past r client x)
    (hu : Untouched past) (hw : Unwritten past) (hn : did past .newID newToken)
    (hm : S.codec.marshal x.id newToken = some raw) :
    (claimRefresh x ident idToken expiry accessToken newToken raw).wp
      (contract S req) (fun past _ => post S req past) past := by
  unfold claimRefresh
  refine wp_step trivial fun lastUsed _ => ?_
  have h1 := h.mono (.cons ⟨.now, lastUsed⟩ (.refl _))
  have hu1 := hu.cons ⟨.now, lastUsed⟩ rfl
  have hw1 : Unwritten (⟨.now, lastUsed⟩ :: past) := fun resp hd => hw resp (by simpa using hd)
  refine wp_step (.touch h1 hu1 hw1) fun res _ => ?_
  have hno : ∀ (es : Past), (∀ e ∈ es, ∀ x', e.1 ≠ .createRefresh x') →
      Settled (es ++ ⟨.now, lastUsed⟩ :: past) := by
    intro es hes
    have hnone : ∀ x', ¬ did (es ++ ⟨.now, lastUsed⟩ :: past) (.createRefresh x') (.ok ()) := by
      intro x' hd
      rcases mem_append.mp hd with hd | hd
      · exact hes _ hd x' rfl
      · exact hu1 _ _ rfl hd
    exact ⟨fun _ hd => (hnone _ hd).elim, fun _ _ _ hd => (hnone _ hd).elim⟩
  have hs1 := hno [⟨.updateOfflineSessions x.claims.userID x.connectorID
    (touchUpdater x lastUsed), res⟩] (by simp)
  rcases res with old | e | _
  · have h2 := h1.mono (.cons (⟨.updateOfflineSessions x.claims.userID x.connectorID
      (touchUpdater x lastUsed), .ok old⟩ : Ev sig) (.refl _))
    have ht : Touched (⟨.updateOfflineSessions x.claims.userID x.connectorID
      (touchUpdater x lastUsed), .ok old⟩ :: ⟨.now, lastUsed⟩ :: past) x lastUsed :=
      ⟨old, mem_cons_self⟩
    refine wp_step ⟨r, client, x, newToken, ident, lastUsed, h2, ht, rfl, rfl, ?_, ?_, ?_⟩
      fun res _ => ?_
    · simp [hn]
    · intro x' r' hd
      exact hu _ _ rfl (by simpa using hd)
    · intro id' f' r' hd
      exact hu _ _ rfl (by simpa using hd)
    · have hs2 := hno [⟨.updateRefreshToken x.id (claimUpdater x newToken ident lastUsed), res⟩,
        ⟨.updateOfflineSessions x.claims.userID x.connectorID (touchUpdater x lastUsed), .ok old⟩]
        (by simp)
      rcases res with old' | e | _
      · exact wp_writeAccessToken h.kind (.refresh (h2.mono (.cons _ (.refl _)))
          (ht.mono (.cons _ (.refl _))) mem_cons_self hm) hs2
      · exact wp_tokenErrHelper h.kind hs2
      · exact wp_tokenErrHelper h.kind hs2
  · exact wp_tokenErrHelper h.kind hs1
  · exact wp_ret (post_token h.kind hs1 (.inr (.inr ⟨_, _, _, mem_cons_self⟩)))

theorem wp_reissue {ident} (h : RefreshChecked S req past r client x)
    (hi : Refreshed past x ident) (hu : Untouched past) (hw : Unwritten past) :
    (reissue (S.config req.inst) client x (refreshScopes x r.scope) ident).wp (contract S req)
      (fun past _ => post S req past) past := by
  unfold reissue
  refine wp_step trivial fun accessToken _ => ?_
  have h1 := h.mono (.cons ⟨.newID, accessToken⟩ (.refl _))
  have hw1 : Unwritten (⟨.newID, accessToken⟩ :: past) := fun resp hd => hw resp (by simpa using hd)
  refine wp_seq (wp_newIDToken (.refresh h1 (hi.mono (.cons _ (.refl _))))) fun p1 res hq => ?_
  have hu1 := (hu.cons ⟨.newID, accessToken⟩ rfl).since hq
  rcases res with e | ⟨idToken, expiry⟩
  · exact wp_tokenErrHelper h.kind hu1.settled
  refine wp_step trivial fun newToken _ => wp_step trivial fun res hres => ?_
  have hu2 := (hu1.cons ⟨.newID, newToken⟩ rfl).cons ⟨.marshal x.id newToken, res⟩ rfl
  rcases res with e | raw
  · exact wp_tokenErrHelper h.kind hu2.settled
  · refine wp_claimRefresh (h1.mono (.cons _ (.cons _ hq.sublist))) hu2 ?_ (by simp) hres
    intro resp hd
    exact hw1.since hq resp (by simpa using hd)

theorem wp_refreshIdentity (h : RefreshChecked S req past r client x) (hu : Untouched past)
    (hw : Unwritten past) :
    (refreshIdentity (S.config req.inst) client x (refreshScopes x r.scope)).wp (contract S req)
      (fun past _ => post S req past) past := by
  unfold refreshIdentity
  refine wp_seq (wp_getConnector _) fun p1 res hq => ?_
  have h1 := h.mono hq.sublist
  have hu1 := hu.since hq
  have hw1 := hw.since hq
  rcases res with e | conn
  · exact wp_tokenErrHelper h.kind hu1.settled
  dsimp only
  split
  · refine wp_step trivial fun res _ => ?_
    have hu2 := hu1.cons (⟨.refreshIdentity x.connectorID (parseScopes (refreshScopes x r.scope))
      x.identity, res⟩ : Ev sig) rfl
    rcases res with e | ident
    · exact wp_tokenErrHelper h.kind hu2.settled
    · exact wp_reissue (h1.mono (.cons _ (.refl _))) (.inr ⟨_, mem_cons_self⟩) hu2
        fun resp hd => hw1 resp (by simpa using hd)
  · exact wp_reissue h1 (.inl rfl) hu1 hw1

theorem wp_handleRefreshToken (h : Authenticated req past r client)
    (hg : r.grantType = grantTypeRefreshToken) (hu : Untouched past) (hw : Unwritten past) :
    (handleRefreshToken (S.config req.inst) S.codec r client).wp (contract S req)
      (fun past _ => post S req past) past := by
  unfold handleRefreshToken
  split
  · exact wp_tokenErrHelper h.kind hu.settled
  rename_i hgiven
  refine wp_step trivial fun res _ => ?_
  have hu1 := hu.cons (⟨.getRefresh (decodeRefresh S.codec r.refreshToken).1, res⟩ : Ev sig) rfl
  rcases res with e | x
  · cases e <;> exact wp_tokenErrHelper h.kind hu1.settled
  dsimp only
  split
  · exact wp_tokenErrHelper h.kind hu1.settled
  rename_i hclient
  split
  · exact wp_tokenErrHelper h.kind hu1.settled
  rename_i htoken
  split
  · exact wp_tokenErrHelper h.kind hu1.settled
  rename_i hscope
  refine wp_refreshIdentity ?_ hu1 fun resp hd => hw resp (by simpa using hd)
  exact { h.mono (.cons _ (.refl _)) with
    grantType := hg
    given := hgiven
    read := mem_cons_self
    clientID := not_not.mp hclient
    token := not_not.mp htoken
    scope := by
      by_cases hs : r.scope = ""
      · exact .inl hs
      · exact .inr (by simpa [hs] using hscope) }

theorem wp_handleToken (hk : req.kind = .token r) :
    (handleToken (S.config req.inst) S.codec r).wp (contract S req) (fun past _ => post S req past) [] := by
  unfold handleToken
  split
  · exact wp_tokenErrHelper hk Untouched.nil.settled
  rename_i clientID clientSecret hcred
  refine wp_step trivial fun res _ => ?_
  have hu := Untouched.nil.cons ⟨.getClient clientID, res⟩ rfl
  rcases res with e | client
  · cases e <;> exact wp_tokenErrHelper hk hu.settled
  dsimp only
  split
  · exact wp_tokenErrHelper hk hu.settled
  rename_i hsecret
  have hauth : Authenticated req [⟨.getClient clientID, .ok client⟩] r client :=
    ⟨hk, clientID, by rw [hcred, not_not.mp hsecret], mem_cons_self⟩
  split
  · rename_i hg
    exact wp_handleAuthCode hauth hg hu
  split
  · rename_i hg
    exact wp_handleRefreshToken hauth hg hu fun resp hd => by simp at hd
  · exact wp_tokenErrHelper hk hu.settled

/-! ## RevokeRefresh and the background work -/

theorem wp_revokeRefresh {r} (hk : req.kind = .revokeRefresh r) :
    (revokeRefresh S.codec r).wp (contract S req) (fun past _ => post S req past) [] := by
  have hpost : ∀ p, (∀ u c old, did p (.updateOfflineSessions u c (revokeUpdater r.clientId)) (.ok old) →
      ∃ res, did p (.deleteRefresh (revokedID r.clientId old)) res) → post S req p := by
    intro p h
    simp only [post, hk]
    exact h
  unfold revokeRefresh
  split
  · exact wp_op trivial fun _ _ => hpost _ (by simp)
  rename_i u c hdec
  refine wp_step (.revoke hk hdec rfl) fun res _ => ?_
  rcases res with old | (_ | _ | _) | _
  · refine wp_step (.revoke hk rfl) fun res _ => ?_
    have hend : ∀ resp, post S req (⟨.write resp, ()⟩ :: ⟨.deleteRefresh (revokedID r.clientId old), res⟩ ::
        [⟨.updateOfflineSessions u c (revokeUpdater r.clientId), .ok old⟩]) := by
      intro resp
      refine hpost _ fun u' c' old' hd => ⟨res, ?_⟩
      simp only [did_cons, did_nil, Sigma.mk.injEq, reduceCtorEq, false_and, false_or, or_false] at hd
      obtain ⟨heq, hold⟩ := hd
      cases heq
      cases hold
      simp
    rcases res with e | _
    · exact wp_op trivial fun _ _ => hend _
    · exact wp_op ⟨r, u, c, old, hk, hdec, by simp⟩ fun _ _ => hend _
  · exact wp_op trivial fun _ _ => hpost _ (by simp)
  · exact wp_op trivial fun _ _ => hpost _ (by simp)
  · exact wp_op trivial fun _ _ => hpost _ (by simp)
  · exact wp_ret (hpost _ (by simp))

end

section
variable {S : Setup} {req : Request} {Q : Past → Unit → Prop} (hQ : ∀ past, Q past ())
include hQ

theorem wp_handlePublicKeys : handlePublicKeys.wp (contract S req) Q [] := by
  unfold handlePublicKeys
  refine wp_seq wp_getKeys fun p1 res _ => ?_
  rcases res with e | keys
  · exact wp_renderError hQ _ _
  dsimp only
  split
  · exact wp_renderError hQ _ _
  · exact wp_step trivial fun t _ => wp_write hQ _ trivial

theorem wp_collect : collect.wp (contract S req) Q [] := by
  unfold collect
  exact wp_step trivial fun t _ => wp_step trivial fun res _ => wp_ret (hQ _)

omit hQ in
theorem wp_rotateExpired {past R} (hR : ∀ past r, R past r) :
    (rotateExpired (S.config req.inst)).wp (contract S req) R past := by
  unfold rotateExpired
  refine wp_step trivial fun res _ => ?_
  rcases res with e | ⟨key, keyID⟩
  · exact wp_ret (hR _ _)
  refine wp_step ⟨key, keyID, rfl⟩ fun res _ => ?_
  rcases res with _ | _ | _ <;> exact wp_ret (hR _ _)

theorem wp_rotateOnce : (rotateOnce (S.config req.inst)).wp (contract S req) Q [] := by
  unfold rotateOnce rotate
  refine wp_seq (R := fun _ _ => True) (wp_seq wp_getKeys fun p1 res _ => ?_) fun p2 res _ =>
    wp_ret (hQ _)
  rcases res with (_ | _ | _) | keys
  · refine wp_step trivial fun t _ => ?_
    dsimp only
    split
    · exact wp_ret trivial
    · exact wp_rotateExpired fun _ _ => trivial
  · exact wp_ret trivial
  · exact wp_ret trivial
  · refine wp_step trivial fun t _ => ?_
    dsimp only
    split
    · exact wp_ret trivial
    · exact wp_rotateExpired fun _ _ => trivial

end

theorem serve_obeys (S : Setup) (req : Request) :
    (serve S req).wp (contract S req) (fun past _ => post S req past) [] := by
  obtain ⟨inst, kind⟩ := req
  cases kind with
  | authorization q => exact wp_handleAuthorization (fun _ => trivial) rfl
  | connectorLogin r => exact wp_handleConnectorLogin (fun _ => trivial) rfl
  | connectorCallback r => exact wp_handleConnectorCallback (fun _ => trivial) rfl
  | approval r => exact wp_handleApproval (fun _ => trivial) rfl
  | token r => exact wp_handleToken rfl
  | publicKeys => exact wp_handlePublicKeys fun _ => trivial
  | revokeRefresh r => exact wp_revokeRefresh rfl
  | rotate => exact wp_rotateOnce fun _ => trivial
  | garbageCollect => exact wp_collect fun _ => trivial

end KubeYamls.Dex
