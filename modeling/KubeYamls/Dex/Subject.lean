import KubeYamls.Dex.Provenance

/-! # Subjects along a chain of refreshes

The subject of an ID token is the user and the connector. A code exchange takes
the user from the code, and a refresh takes it from what the connector returns,
while the stored token keeps the user it was created with. So the subject stays
the same for as long as the connector returns the user it was asked about. -/
namespace KubeYamls.Dex
open Data Conc List

section
variable {S : Setup} {s : Sys (dex S)} {tid t0 : Nat} {req : Request} {r r0 : TokenRequest}

def refreshedUser : Step S → Option (String × String)
  | .act _ _ (.refreshIdentity _ _ ident) (.ok newIdent) _ _ => some (ident.userID, newIdent.userID)
  | _ => none

/-- The connector returns the user it was asked about. -/
def UserKept (_ : List (Step S)) (e : Step S) : Prop := ∀ u ∈ refreshedUser e, u.2 = u.1

instance (hist : List (Step S)) (e : Step S) : Decidable (UserKept hist e) :=
  inferInstanceAs (Decidable (∀ u ∈ refreshedUser e, u.2 = u.1))

def idTokens (hist : List (Step S)) (tid : Nat) : List IDToken :=
  (past tid hist).filterMap fun e => match e with
    | ⟨.signPayload _ _ _, .ok idToken⟩ => some idToken
    | _ => none

inductive Chain (s : Sys (dex S)) (t0 : Nat) : String → Prop where
  | exchange {raw} (h : raw ∈ handedOut s.hist t0) : Chain s t0 raw
  | refresh {tid r raw} (hr : Refreshes s tid r) (hc : Chain s t0 r.refreshToken)
    (h : raw ∈ handedOut s.hist tid) : Chain s t0 raw

variable {idToken : IDToken} {Init : World → Prop}

theorem mem_idTokens {hist : List (Step S)} (h : idToken ∈ idTokens hist tid) :
    ∃ key alg payload, did (past tid hist) (.signPayload key alg payload) (.ok idToken) := by
  obtain ⟨e, he, hm⟩ := mem_filterMap.mp h
  split at hm
  · cases hm
    exact ⟨_, _, _, he⟩
  · cases hm

theorem subject_minted (h : Reach Init s) (hi : idToken ∈ idTokens s.hist tid) :
    ∃ req p clientID claims scopes nonce connID, s.threads[tid]? = some ⟨req, p⟩ ∧
      Mints S req (past tid s.hist) clientID claims scopes nonce connID ∧
      S.codec.marshal claims.userID connID = some idToken.payload.subject := by
  obtain ⟨key, alg, payload, hd⟩ := mem_idTokens hi
  obtain ⟨_, s0, w', hm⟩ := Reach.did_made h hd
  obtain ⟨_, hx⟩ := hm.exec
  cases exec_signPayload hx
  obtain ⟨_, clientID, claims, scopes, accessToken, connID, ⟨es, rest, hpast, _⟩, hsub⟩ := hm.duty
  have hnote : did (past tid s0.hist) (.note (.newIDToken clientID claims scopes payload.nonce
      accessToken connID)) () := by
    rw [hpast]
    exact mem_append_right _ mem_cons_self
  obtain ⟨req, s1, w1, hm1⟩ := Reach.did_made h (hnote.mono hm.sublist)
  obtain ⟨p, hth⟩ := hm1.thread
  exact ⟨req, p, clientID, claims, scopes, payload.nonce, connID, hth, Mints.mono hm1.duty hm1.sublist, hsub⟩

theorem Exchanges.subject (h : Reach Init s) (hx : Exchanges s tid r)
    (hi : idToken ∈ idTokens s.hist tid) : ∃ c, did (past tid s.hist) (.getAuthCode r.code) (.ok c) ∧
      S.codec.marshal c.claims.userID c.connectorID = some idToken.payload.subject := by
  obtain ⟨inst, prog, hth⟩ := thread_of_tokenRequest hx.request
  obtain ⟨req, p, _, _, _, _, _, hth', hm, hsub⟩ := subject_minted h hi
  cases hth.symm.trans hth'
  cases hm with
  | approval hs => cases hs.kind
  | code hc =>
    cases hc.kind
    exact ⟨_, hc.read, hsub⟩
  | refresh hc _ =>
    cases hc.kind
    exact absurd hx.grantType (refresh_ne_code hc.grantType)

theorem Refreshes.subject (h : Reach Init s) (hx : Refreshes s tid r)
    (hi : idToken ∈ idTokens s.hist tid) : ∃ req client x ident,
      RefreshChecked S req (past tid s.hist) r client x ∧ Refreshed (past tid s.hist) x ident ∧
      S.codec.marshal ident.userID x.connectorID = some idToken.payload.subject := by
  obtain ⟨inst, prog, hth⟩ := thread_of_tokenRequest hx.request
  obtain ⟨req, p, _, _, _, _, _, hth', hm, hsub⟩ := subject_minted h hi
  cases hth.symm.trans hth'
  cases hm with
  | approval hs => cases hs.kind
  | code hc =>
    cases hc.kind
    exact absurd hc.grantType (refresh_ne_code hx.grantType)
  | refresh hc hr =>
    cases hc.kind
    exact ⟨_, _, _, _, hc, hr, hsub⟩

theorem Refreshed.user (h : Reach Init s) (hC : Along UserKept s.hist) {x ident} (hr : Refreshed (past tid s.hist) x ident) :
    ident.userID = x.claims.userID := by
  rcases hr with rfl | ⟨scopes, hd⟩
  · rfl
  · obtain ⟨_, _, _, hm⟩ := Reach.did_made h hd
    obtain ⟨l, hl⟩ := hm.hist
    rw [hl] at hC
    exact hC.at.1 _ rfl

theorem decodeRefresh_marshal {codec id token raw}
    (h : codec.marshal id token = some raw) : decodeRefresh codec raw = (id, token) := by
  rw [decodeRefresh, codec.unmarshal_marshal h]
  rfl

theorem Exchanges.hands (h : Reach Init s) (hx : Exchanges s tid r) {raw}
    (hraw : raw ∈ handedOut s.hist tid) (hne : raw ≠ "") : ∃ req client c x,
      RefreshStored req (past tid s.hist) r client c x ∧ S.codec.marshal x.id x.token = some raw := by
  obtain ⟨inst, prog, hth⟩ := thread_of_tokenRequest hx.request
  obtain ⟨_, _, hd⟩ := mem_handedOut.mp hraw
  obtain ⟨req, s0, w', hm⟩ := Reach.did_made h hd
  obtain rfl := hm.req_eq hth
  cases hm.duty with
  | code _ => exact absurd rfl hne
  | offline hc _ hraw =>
    cases hc.kind
    exact ⟨_, _, _, _, hc.mono hm.sublist, hraw⟩
  | refresh hc _ _ _ =>
    cases hc.kind
    exact absurd hx.grantType (refresh_ne_code hc.grantType)

theorem Chain.stored (h : Reach Initial s) (hx : Exchanges s t0 r0) {raw}
    (hc : Chain s t0 raw) (hne : raw ≠ "") : ∃ req client c x,
      RefreshStored req (past t0 s.hist) r0 client c x ∧ (decodeRefresh S.codec raw).1 = x.id := by
  induction hc with
  | exchange hraw =>
    obtain ⟨req, client, c, x, hst, hm⟩ := hx.hands h hraw hne
    exact ⟨req, client, c, x, hst, by rw [decodeRefresh_marshal hm]⟩
  | refresh hr _ hraw ih =>
    obtain ⟨_, _, _, _, _, _, _, hchk, _⟩ := hr.hands h hraw
    obtain ⟨req, client, c, x, hst, hid⟩ := ih hchk.given
    obtain ⟨id, newToken, hid', hm, _⟩ := hr.rotates h hraw
    refine ⟨req, client, c, x, hst, ?_⟩
    rw [decodeRefresh_marshal hm]
    exact hid'.trans hid

end

/-- Along every chain of refreshes all ID tokens have the subject of the token
issued at the code exchange. -/
theorem subject_stable (S : Setup) (s : Sys (dex S)) (h : Reach Initial s)
    (hC : Along UserKept s.hist) (t0 : Nat) (r0 : TokenRequest) (hx : Exchanges s t0 r0)
    (idToken0 : IDToken) (hi0 : idToken0 ∈ idTokens s.hist t0) (tid : Nat) (r : TokenRequest)
    (hr : Refreshes s tid r) (hc : Chain s t0 r.refreshToken)
    (idToken : IDToken) (hi : idToken ∈ idTokens s.hist tid) :
    idToken.payload.subject = idToken0.payload.subject := by
  obtain ⟨_, _, y, ident, hchk, href, hsub⟩ := hr.subject h hi
  obtain ⟨_, _, c, x, hst, hid⟩ := hc.stored h hx hchk.given
  obtain ⟨c', hread, hsub0⟩ := hx.subject h hi0
  obtain rfl := read_authCode h hread hst.read
  -- the stored token has the user and the connector of the code
  obtain ⟨_, _, hshape⟩ := hst.shape
  have hplace : y.place = x.place := created_place h hst.created (hid ▸ hchk.read)
  have huser : ident.userID = c'.claims.userID := by
    rw [href.user h hC]
    exact (congrArg Prod.fst hplace).trans (by rw [hshape]; rfl)
  have hconn : y.connectorID = c'.connectorID :=
    (congrArg (·.2.1) hplace).trans (by rw [hshape]; rfl)
  rw [huser, hconn, hsub0] at hsub
  exact (Option.some.inj hsub).symm

/-- The client refreshes twice; `ident` is what the connector returns. -/
def refreshTwice (ident : Identity) : List (Label (dex demo)) :=
  obtainRefresh ++
  serving 4 (.token (refreshRequest "x" "x1"))
    (plains 4 ++ .identity (some ident) :: .text "at4" :: plains 8 ++ .text "x2" :: plains 7) ++
  serving 5 (.token (refreshRequest "x" "x2"))
    (plains 4 ++ .identity (some ident) :: .text "at5" :: plains 8 ++ .text "x3" :: plains 7)

def subjects (s : Sys (dex demo)) (tid : Nat) : List String :=
  (idTokens s.hist tid).map (·.payload.subject)

theorem Chain.second {s : Sys (dex demo)} (hreq : tokenRequest s 4 = some (refreshRequest "x" "x1"))
    (h3 : (refreshRequest "x" "x1").refreshToken ∈ handedOut s.hist 3)
    (h4 : (refreshRequest "x" "x2").refreshToken ∈ handedOut s.hist 4) :
    Chain s 3 (refreshRequest "x" "x2").refreshToken :=
  .refresh ⟨hreq, rfl⟩ (.exchange h3) h4

/-- The connector returns alice as she was, but for her name. -/
@[irreducible] def renamedRun : Sys (dex demo) :=
  .after demoWorld (refreshTwice { alice with username := "Alice" })

theorem renamed_subject : Along UserKept renamedRun.hist ∧
    ∃ idToken0 ∈ idTokens renamedRun.hist 3, ∃ idToken ∈ idTokens renamedRun.hist 5,
      idToken.payload.subject = idToken0.payload.subject := by
  have h : Reach Initial renamedRun := by
    unfold renamedRun
    exact .after demo_blank.toInitial _
  obtain ⟨hC, hreq3, hreq4, hreq5, h3, h4, hsub3, hsub5⟩ : Along UserKept renamedRun.hist ∧
      tokenRequest renamedRun 3 = some (codeRequest "c") ∧
      tokenRequest renamedRun 4 = some (refreshRequest "x" "x1") ∧
      tokenRequest renamedRun 5 = some (refreshRequest "x" "x2") ∧
      (refreshRequest "x" "x1").refreshToken ∈ handedOut renamedRun.hist 3 ∧
      (refreshRequest "x" "x2").refreshToken ∈ handedOut renamedRun.hist 4 ∧
      subjects renamedRun 3 = ["CgExEgFh"] ∧ subjects renamedRun 5 = ["CgExEgFh"] := by
    decide +kernel
  obtain ⟨idToken0, hi0, _⟩ := mem_map.mp (hsub3 ▸ mem_singleton_self "CgExEgFh")
  obtain ⟨idToken, hi, _⟩ := mem_map.mp (hsub5 ▸ mem_singleton_self "CgExEgFh")
  exact ⟨hC, idToken0, hi0, idToken, hi, subject_stable demo renamedRun h hC 3 (codeRequest "c")
    ⟨hreq3, rfl⟩ idToken0 hi0 5 (refreshRequest "x" "x2") ⟨hreq5, rfl⟩
    (.second hreq4 h3 h4) idToken hi⟩

/-- The connector finds another user ID for alice. -/
@[irreducible] def movedRun : Sys (dex demo) :=
  .after demoWorld (refreshTwice { alice with userID := "2" })

theorem moved_subject : Reach Initial movedRun ∧ Exchanges movedRun 3 (codeRequest "c") ∧
    Refreshes movedRun 5 (refreshRequest "x" "x2") ∧
    Chain movedRun 3 (refreshRequest "x" "x2").refreshToken ∧ handedOut movedRun.hist 5 ≠ [] ∧
    ∃ idToken0 ∈ idTokens movedRun.hist 3, ∃ idToken ∈ idTokens movedRun.hist 5,
      idToken.payload.subject ≠ idToken0.payload.subject := by
  have h : Reach Initial movedRun := by
    unfold movedRun
    exact .after demo_blank.toInitial _
  obtain ⟨hreq3, hreq4, hreq5, h3, h4, h5, hsub3, hsub5⟩ :
      tokenRequest movedRun 3 = some (codeRequest "c") ∧
      tokenRequest movedRun 4 = some (refreshRequest "x" "x1") ∧
      tokenRequest movedRun 5 = some (refreshRequest "x" "x2") ∧
      (refreshRequest "x" "x1").refreshToken ∈ handedOut movedRun.hist 3 ∧
      (refreshRequest "x" "x2").refreshToken ∈ handedOut movedRun.hist 4 ∧
      handedOut movedRun.hist 5 ≠ [] ∧
      subjects movedRun 3 = ["CgExEgFh"] ∧ subjects movedRun 5 = ["CgEyEgFh"] := by
    decide +kernel
  obtain ⟨idToken0, hi0, hs0⟩ := mem_map.mp (hsub3 ▸ mem_singleton_self "CgExEgFh")
  obtain ⟨idToken, hi, hs⟩ := mem_map.mp (hsub5 ▸ mem_singleton_self "CgEyEgFh")
  refine ⟨h, ⟨hreq3, rfl⟩, ⟨hreq5, rfl⟩, .second hreq4 h3 h4, h5, idToken0, hi0, idToken, hi, ?_⟩
  rw [hs0, hs]
  decide

end KubeYamls.Dex
