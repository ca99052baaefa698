import KubeYamls.Dex.AuthCodes
import KubeYamls.Dex.AuthRequests
import KubeYamls.Dex.Keys
import KubeYamls.Dex.Sessions

/-! # Where the scopes of an ID token come from

Client, nonce and scopes are copied from the request to the code, from the code
to the refresh token, and from there into every ID token. The objects are read
and updated by many executions; each is traced back to the one that created it. So what is
stored, and what is handed out, goes back to requests that were granted. -/
namespace KubeYamls.Dex
open Data Conc List Option

/-- What a user has granted. -/
structure Terms where
  clientID : String
  nonce : String
  scopes : List String
  deriving DecidableEq

def AuthRequest.terms (a : AuthRequest) : Terms := ⟨a.clientID, a.nonce, a.scopes⟩
def AuthCode.terms (c : AuthCode) : Terms := ⟨c.clientID, c.nonce, c.scopes⟩
def RefreshToken.terms (x : RefreshToken) : Terms := ⟨x.clientID, x.nonce, x.scopes⟩

structure Terms.Within (t u : Terms) : Prop where
  clientID : t.clientID = u.clientID
  nonce : t.nonce = u.nonce
  scopes : ∀ scope ∈ t.scopes, scope ∈ u.scopes

theorem refreshScopes_within {x scope} (h : scope = "" ∨ unauthorizedScopes x scope = []) :
    ∀ y ∈ refreshScopes x scope, y ∈ x.scopes := by
  intro y hy
  unfold refreshScopes at hy
  split at hy
  · exact hy
  · rename_i hne
    have hall := filter_eq_nil_iff.mp (h.resolve_left hne) y hy
    simpa using hall

theorem claimUpdater_terms {x old new newToken ident lastUsed} (h : claimUpdater x newToken ident lastUsed old = .ok new) :
    new.terms = old.terms := by
  obtain ⟨_, _, _, _, _, hclient, hscopes, hnonce⟩ := claimUpdater_ok h
  simp only [RefreshToken.terms, hclient, hscopes, hnonce]

section
variable {S : Setup} {s : Sys (dex S)} {tid : Nat} {req : Request}

/-- The request was accepted, and a code response was sent for it while it was
logged in and not expired. -/
structure Granted (s : Sys (dex S)) (a : AuthRequest) : Prop where
  accepted : ∃ tid, did (past tid s.hist) (.note (.accepted a.asked)) ()
  sent : ∃ tid req p r, s.threads[tid]? = some ⟨req, p⟩ ∧ Sends S req (past tid s.hist) r a

/-- The terms `newIDToken` was called with by thread `tid`. -/
def minted (hist : List (Step S)) (tid : Nat) : List Terms :=
  (past tid hist).filterMap fun e => match e with
    | ⟨.note (.newIDToken clientID _ scopes nonce _ _), _⟩ => some ⟨clientID, nonce, scopes⟩
    | _ => none

theorem mem_minted {hist : List (Step S)} {t} : t ∈ minted hist tid ↔
    ∃ claims accessToken connID, did (past tid hist)
      (.note (.newIDToken t.clientID claims t.scopes t.nonce accessToken connID)) () := by
  simp only [minted, mem_filterMap]
  constructor
  · rintro ⟨e, he, hm⟩
    split at hm
    · cases hm
      exact ⟨_, _, _, he⟩
    · cases hm
  · rintro ⟨claims, accessToken, connID, hd⟩
    exact ⟨_, hd, rfl⟩

theorem Sends.granted (h : Reach Blank s) {p r a}
    (hth : s.threads[tid]? = some ⟨req, p⟩) (hs : Sends S req (past tid s.hist) r a) : Granted s a :=
  ⟨read_accepted h hs.read, tid, req, p, r, hth, hs⟩

/-- Thread `tid` acts on behalf of the request `a`: it sent its code response, or
was given a code or a refresh token that a thread acting for it created. -/
inductive Origin (s : Sys (dex S)) (a : AuthRequest) : Nat → Prop where
  | send {tid req p r} (hth : s.threads[tid]? = some ⟨req, p⟩)
    (h : Sends S req (past tid s.hist) r a) : Origin s a tid
  | code {tid t id c} (hg : did (past tid s.hist) (.getAuthCode id) (.ok c))
    (hc : did (past t s.hist) (.createAuthCode c) (.ok ())) (h : Origin s a t) : Origin s a tid
  | refresh {tid t id x x0} (hg : did (past tid s.hist) (.getRefresh id) (.ok x))
    (hc : did (past t s.hist) (.createRefresh x0) (.ok ())) (hid : x0.id = id) (h : Origin s a t) :
    Origin s a tid

theorem Origin.granted (h : Reach Blank s) {a} (ho : Origin s a tid) : Granted s a := by
  induction ho with
  | send hth hs => exact hs.granted h hth
  | code _ _ _ ih => exact ih
  | refresh _ _ _ _ ih => exact ih

/-! ## Codes -/

variable {Init : World → Prop} {r : TokenRequest} {x : RefreshToken}

theorem createAuthCode_origin (h : Reach Init s) {c res} (hd : did (past tid s.hist) (.createAuthCode c) res) :
    ∃ a t, Origin s a tid ∧ c = authCodeOf a c.id t := by
  obtain ⟨_, s0, w', hm⟩ := Reach.did_made h hd
  obtain ⟨r, a, t, hs, hc, _⟩ := hm.duty
  obtain ⟨p, hth⟩ := hm.thread
  exact ⟨a, t, .send hth (hs.mono hm.sublist), hc⟩

theorem authCode_created (h : Reach Blank s) {id c} (hc : s.world.store.authCodes.lookup id = some c) :
    ∃ tid, did (past tid s.hist) (.createAuthCode c) (.ok ()) := by
  refine Reach.invariant (C := fun _ _ => True) (I := fun w hist => ∀ id c,
    w.store.authCodes.lookup id = some c → ∃ tid, did (past tid hist) (.createAuthCode c) (.ok ()))
    ?_ ?_ ?_ ?_ h (along_true _) id c hc
  · intro w hw id c hc
    rw [hw.noAuthCodes] at hc
    cases hc
  · intro w hist tid req ih
    exact ih
  · intro s tid req o k ans r w' hr _ ih hth hx id c hc
    rcases (exec_effect hx).authCodes hc with hc | ⟨he, _⟩
    · obtain ⟨t, hd⟩ := ih id c hc
      exact ⟨t, hd.later _⟩
    · exact ⟨tid, did_act.mpr (.inl ⟨rfl, he⟩)⟩
  · intro s m w' clients connectors _ ih _ hs _ _ _ id c hc
    rw [hs] at hc
    exact ih id c hc

theorem CodeChecked.made (h : Reach Blank s) {client c} (hc : CodeChecked req (past tid s.hist) r client c) :
    ∃ t0 a t, did (past t0 s.hist) (.createAuthCode c) (.ok ()) ∧ Origin s a t0 ∧ c = authCodeOf a r.code t := by
  obtain ⟨_, s0, w', hm⟩ := Reach.did_made h hc.read
  obtain ⟨_, hx⟩ := hm.exec
  have hstored := exec_getAuthCode hx
  obtain ⟨t0, hd⟩ := authCode_created hm.reach hstored
  obtain ⟨l, hl⟩ := hm.hist
  have hd := hd.mono (past_sublist_of_eq hl)
  obtain ⟨a, t, ho, hcode⟩ := createAuthCode_origin h hd
  exact ⟨t0, a, t, hd, ho, authCode_id (hm.reach.mono fun _ hw => hw.toInitial) hstored ▸ hcode⟩

theorem CodeChecked.origin (h : Reach Blank s) {client c}
    (hc : CodeChecked req (past tid s.hist) r client c) : ∃ a, Origin s a tid ∧ a.terms = c.terms := by
  obtain ⟨_, a, _, hd, ho, hcode⟩ := hc.made h
  refine ⟨a, .code hc.read hd ho, ?_⟩
  rw [hcode]
  rfl

/-! ## Refresh tokens -/

theorem createRefresh_origin (h : Reach Blank s) {res} (hd : did (past tid s.hist) (.createRefresh x) res) :
    ∃ a, Origin s a tid ∧ a.terms = x.terms := by
  obtain ⟨_, s0, w', hm⟩ := Reach.did_made h hd
  obtain ⟨⟨r, client, c, hx⟩, _⟩ := hm.duty
  obtain ⟨a, ho, ha⟩ := (hx.toCodeChecked.mono hm.sublist).origin h
  obtain ⟨_, _, hshape⟩ := hx.shape
  refine ⟨a, ho, ?_⟩
  rw [ha, hshape]
  rfl

theorem refreshToken_created (h : Reach Blank s) {id} (hx : s.world.store.refreshTokens.lookup id = some x) :
    ∃ tid x0, did (past tid s.hist) (.createRefresh x0) (.ok ()) ∧ x0.id = id ∧ x0.terms = x.terms := by
  refine Reach.invariant (C := fun _ _ => True) (I := fun w hist => ∀ id x,
    w.store.refreshTokens.lookup id = some x → ∃ tid x0,
      did (past tid hist) (.createRefresh x0) (.ok ()) ∧ x0.id = id ∧ x0.terms = x.terms)
    ?_ ?_ ?_ ?_ h (along_true _) id x hx
  · intro w hw id x hx
    rw [hw.noRefreshTokens] at hx
    cases hx
  · intro w hist tid req ih
    exact ih
  · intro s tid req o k ans r w' hr _ ih hth hx id x hl
    rcases (exec_effect hx).refreshTokens hl with hl | ⟨he, hid⟩ | ⟨f, old, he, ho, hf⟩
    · obtain ⟨t, x0, hd, hid, ht⟩ := ih id x hl
      exact ⟨t, x0, hd.later _, hid, ht⟩
    · exact ⟨tid, x, did_act.mpr (.inl ⟨rfl, he⟩), hid.symm, rfl⟩
    · cases he
      obtain ⟨t, x0, hd, hid, ht⟩ := ih id old ho
      obtain ⟨_, _, _, _, _, _, _, _, _, rfl, _⟩ := Reach.duty hr hth
      exact ⟨t, x0, hd.later _, hid, ht.trans (claimUpdater_terms hf).symm⟩
  · intro s m w' clients connectors _ ih _ hs _ _ _ id x hx
    rw [hs] at hx
    exact ih id x hx

theorem RefreshChecked.created (h : Reach Blank s) {client}
    (hc : RefreshChecked S req (past tid s.hist) r client x) :
    ∃ t x0, did (past t s.hist) (.createRefresh x0) (.ok ()) ∧
      x0.id = (decodeRefresh S.codec r.refreshToken).1 ∧ x0.terms = x.terms := by
  obtain ⟨_, s0, w', hm⟩ := Reach.did_made h hc.read
  obtain ⟨_, hx⟩ := hm.exec
  obtain ⟨t, x0, hd, hid, ht⟩ := refreshToken_created hm.reach (exec_getRefresh hx)
  obtain ⟨l, hl⟩ := hm.hist
  exact ⟨t, x0, hd.mono (past_sublist_of_eq hl), hid, ht⟩

theorem created_once (h : Reach Init s) {t1 t2 x1 x2 r1 r2} (h1 : did (past t1 s.hist) (.createRefresh x1) r1)
    (h2 : did (past t2 s.hist) (.createRefresh x2) r2) (hid : x1.id = x2.id) : x1 = x2 := by
  obtain rfl := Supply.drawn_unique h (created_drawn h h1) (hid ▸ created_drawn h h2)
  exact created_unique h h1 h2

theorem RefreshChecked.within {past client} (hc : RefreshChecked S req past r client x) :
    Terms.Within ⟨client.id, x.nonce, refreshScopes x r.scope⟩ x.terms :=
  ⟨hc.clientID.symm, rfl, refreshScopes_within hc.scope⟩

/-! ## ID tokens -/

theorem Mints.mono {past past' clientID nonce connID claims scopes} (h : Mints S req past clientID claims scopes nonce connID)
    (hs : past.Sublist past') : Mints S req past' clientID claims scopes nonce connID := by
  cases h with
  | approval h => exact .approval (h.mono hs)
  | code h => exact .code (h.mono hs)
  | refresh h hi => exact .refresh (h.mono hs) (hi.mono hs)

theorem Mints.origin (h : Reach Blank s) {clientID nonce connID claims scopes p} (hth : s.threads[tid]? = some ⟨req, p⟩)
    (hm : Mints S req (past tid s.hist) clientID claims scopes nonce connID) :
    ∃ a, Origin s a tid ∧ Terms.Within ⟨clientID, nonce, scopes⟩ a.terms := by
  cases hm with
  | approval hs => exact ⟨_, .send hth hs, rfl, rfl, fun _ => id⟩
  | code hc =>
    obtain ⟨a, ho, ha⟩ := hc.origin h
    exact ⟨a, ho, ha ▸ ⟨hc.clientID.symm, rfl, fun _ => id⟩⟩
  | refresh hc _ =>
    obtain ⟨t, x0, hd, hid, hx0⟩ := hc.created h
    obtain ⟨a, ho, ha⟩ := createRefresh_origin h hd
    exact ⟨a, .refresh hc.read hd hid ho, ha ▸ hx0 ▸ hc.within⟩

theorem mints_of_minted (h : Reach Init s) {t : Terms} (ht : t ∈ minted s.hist tid) :
    ∃ req p claims connID, s.threads[tid]? = some ⟨req, p⟩ ∧
      Mints S req (past tid s.hist) t.clientID claims t.scopes t.nonce connID := by
  obtain ⟨claims, _, connID, hd⟩ := mem_minted.mp ht
  obtain ⟨req, s0, w', hm⟩ := Reach.did_made h hd
  obtain ⟨p, hp⟩ := hm.thread
  exact ⟨req, p, claims, connID, hp, Mints.mono hm.duty hm.sublist⟩

theorem Refreshes.minted (h : Reach Init s) (hx : Refreshes s tid r) {t} (ht : t ∈ minted s.hist tid) :
    ∃ req client x, RefreshChecked S req (past tid s.hist) r client x ∧ t.Within x.terms := by
  obtain ⟨inst, prog, hth⟩ := thread_of_tokenRequest hx.request
  obtain ⟨req, p, claims, connID, hth', hm⟩ := mints_of_minted h ht
  rw [hth] at hth'
  cases hth'
  obtain ⟨clientID, nonce, scopes⟩ := t
  cases hm with
  | approval hs => cases hs.kind
  | code hc =>
    cases hc.kind
    exact absurd hc.grantType (refresh_ne_code hx.grantType)
  | refresh hc _ =>
    cases hc.kind
    exact ⟨_, _, _, hc, hc.within⟩

end

/-- Every ID token is minted within the terms of the request it goes back to, and
that was granted. A refresh token has one such request for all its refreshes.
Every signature is made for the ID token that was last begun. -/
theorem scopes_from_request (S : Setup) (s : Sys (dex S)) (h : Reach Blank s) :
    (∀ tid t, t ∈ minted s.hist tid → ∃ a, Origin s a tid ∧ Granted s a ∧ t.Within a.terms) ∧
    (∀ tid0 x, did (past tid0 s.hist) (.createRefresh x) (.ok ()) →
      ∃ a, Origin s a tid0 ∧ Granted s a ∧ ∀ tid r t, Refreshes s tid r →
        (decodeRefresh S.codec r.refreshToken).1 = x.id → t ∈ minted s.hist tid → t.Within a.terms) ∧
    ∀ later e rest tid idToken, s.hist = later ++ e :: rest → signed e = some (tid, idToken) →
      ∃ clientID claims scopes accessToken connID,
        Minting (past tid rest) clientID claims scopes idToken.payload.nonce accessToken connID := by
  refine ⟨?_, ?_, ?_⟩
  · intro tid t ht
    obtain ⟨req, p, claims, connID, hth, hm⟩ := mints_of_minted h ht
    obtain ⟨a, ho, hw⟩ := hm.origin h hth
    exact ⟨a, ho, ho.granted h, hw⟩
  · intro tid0 x hd
    obtain ⟨a, ho, ha⟩ := createRefresh_origin h hd
    refine ⟨a, ho, ho.granted h, fun tid r t hx hid ht => ?_⟩
    obtain ⟨_, _, y, hc, hw⟩ := hx.minted h ht
    obtain ⟨t', x0, hd', hid', hx0⟩ := hc.created h
    cases created_once h hd hd' (hid.symm.trans hid'.symm)
    exact ha ▸ hx0 ▸ hw
  · intro later e rest tid idToken hs he
    obtain ⟨req, key, alg, payload, pre, post, rfl⟩ := signed_eq he
    obtain ⟨s0, hm, rfl, rfl⟩ := Reach.made h hs
    obtain ⟨_, hx⟩ := hm.exec
    cases exec_signPayload hx
    obtain ⟨_, _, _, _, _, _, hminting, _⟩ := hm.duty
    exact ⟨_, _, _, _, _, hminting⟩

/-- Alice's client first asks for a part of its scopes, and then for all. -/
@[irreducible] def narrowedRun : Sys (dex demo) := .after demoWorld <|
  obtainRefresh ++
  serving 4 (.token { refreshRequest "x" "x1" with scope := "openid" })
    (plains 4 ++ .identity (some alice) :: .text "at4" :: plains 8 ++ .text "x2" :: plains 7) ++
  refreshing 5 "x" "x2" "at5" "x3"

theorem narrowed_reach : Reach Blank narrowedRun := by
  unfold narrowedRun
  exact .after demo_blank _

theorem narrowed_scopes : ∃ a, Granted narrowedRun a ∧ minted narrowedRun.hist 4 = [⟨"app", "", ["openid"]⟩] ∧
    minted narrowedRun.hist 5 = [⟨"app", "", ["openid", "offline_access"]⟩] ∧
    ∀ t ∈ minted narrowedRun.hist 4 ++ minted narrowedRun.hist 5, t.Within a.terms := by
  have h := narrowed_reach
  obtain ⟨hstored, h4, h5, hid4, hid5, hm4, hm5⟩ :
      (narrowedRun.world.store.refreshTokens.lookup "x").isSome ∧
      tokenRequest narrowedRun 4 = some { refreshRequest "x" "x1" with scope := "openid" } ∧
      tokenRequest narrowedRun 5 = some (refreshRequest "x" "x2") ∧
      (decodeRefresh codec (refreshRequest "x" "x1").refreshToken).1 = "x" ∧
      (decodeRefresh codec (refreshRequest "x" "x2").refreshToken).1 = "x" ∧
      minted narrowedRun.hist 4 = [⟨"app", "", ["openid"]⟩] ∧
      minted narrowedRun.hist 5 = [⟨"app", "", ["openid", "offline_access"]⟩] := by
    decide +kernel
  obtain ⟨x, hx⟩ := isSome_iff_exists.mp hstored
  obtain ⟨tid, x0, hd, hid, _⟩ := refreshToken_created h hx
  obtain ⟨a, _, hg, hall⟩ := (scopes_from_request demo narrowedRun h).2.1 tid x0 hd
  refine ⟨a, hg, hm4, hm5, fun t ht => ?_⟩
  rcases mem_append.mp ht with ht | ht
  · exact hall 4 _ t ⟨h4, rfl⟩ (hid4.trans hid.symm) ht
  · exact hall 5 _ t ⟨h5, rfl⟩ (hid5.trans hid.symm) ht

section
variable {S : Setup} {s : Sys (dex S)} {tid : Nat} {req : Request} {r : TokenRequest} {client : Client}

/-- What a call has taken out of a table of named objects does not come back. -/
theorem gone_lookup {A : Names (dex S) String} (L : A.Lawful Initial) {V} {t : World → Table String V}
    (hA : ∀ w id, A.present w id ↔ ∃ x, (t w).lookup id = some x) (h : Reach Initial s) {o r w w' id}
    (he : .act tid req o r w w' ∈ s.hist) (hw : ∃ x, (t w).lookup id = some x)
    (hw' : (t w').lookup id = none) : (t s.world).lookup id = none := by
  obtain ⟨l1, l2, hl⟩ := append_of_mem he
  refine eq_none_iff_forall_ne_some.mpr fun x hx => ?_
  exact Names.gone L h hl (.pre mem_cons_self) ((hA _ _).mpr hw) (by simp [hA, hw']) ((hA _ _).mpr ⟨x, hx⟩)

theorem Granted.consumed (h : Reach Initial s) {a} (hg : Granted s a) :
    s.world.store.authReqs.lookup a.id = none := by
  obtain ⟨tid, req, p, r, _, hs⟩ := hg.sent
  obtain ⟨_, s0, w', hm⟩ := Reach.did_made h hs.deleted
  obtain ⟨hw, hw'⟩ := (Reach.effect h hm.mem).of_deleteAuthRequest
  exact gone_lookup requestNames_lawful (t := (·.store.authReqs)) (fun _ _ => Iff.rfl) h hm.mem hw hw'

theorem CodeClaimed.consumed (h : Reach Initial s) {c} (hc : CodeClaimed req (past tid s.hist) r client c) :
    s.world.store.authCodes.lookup r.code = none := by
  obtain ⟨_, s0, w', hm⟩ := Reach.did_made h hc.deleted
  obtain ⟨hw, hw'⟩ := (Reach.effect h hm.mem).of_deleteAuthCode
  exact gone_lookup codeNames_lawful (t := (·.store.authCodes)) (fun _ _ => Iff.rfl) h hm.mem hw hw'

/-- What entitles the token request of thread `tid` to tokens: a request of the client was
granted, and what the thread reads is the code that was made of it, which is used up now, or
the refresh token that goes back to it, with the value that is presented. -/
inductive Entitled (s : Sys (dex S)) (tid : Nat) (r : TokenRequest) (client : Client) : Prop where
  | code {t0 a t c} (hread : did (past tid s.hist) (.getAuthCode r.code) (.ok c))
    (hmade : did (past t0 s.hist) (.createAuthCode c) (.ok ())) (ho : Origin s a t0)
    (hcode : c = authCodeOf a r.code t) (hg : Granted s a) (hclient : a.clientID = client.id)
    (hr : r.grantType = grantTypeAuthorizationCode) (huri : a.redirectURI = r.redirectURI)
    (hgone : s.world.store.authCodes.lookup r.code = none) : Entitled s tid r client
  | refresh {t0 a x x0} (hread : did (past tid s.hist) (.getRefresh (decodeRefresh S.codec r.refreshToken).1) (.ok x))
    (hmade : did (past t0 s.hist) (.createRefresh x0) (.ok ()))
    (hid : x0.id = (decodeRefresh S.codec r.refreshToken).1) (ho : Origin s a t0)
    (hterms : x.terms = a.terms) (hg : Granted s a) (hclient : a.clientID = client.id)
    (hr : r.grantType = grantTypeRefreshToken)
    (htoken : x.token = (decodeRefresh S.codec r.refreshToken).2) : Entitled s tid r client

theorem CodeClaimed.entitled (h : Reach Blank s) {c}
    (hc : CodeClaimed req (past tid s.hist) r client c) : Entitled s tid r client := by
  obtain ⟨t0, a, t, hd, ho, hcode⟩ := hc.made h
  have hclient := hc.clientID
  have huri := hc.redirectURI
  rw [hcode] at hclient huri
  exact .code hc.read hd ho hcode (ho.granted h) hclient hc.grantType huri
    (hc.consumed (h.mono fun _ hw => hw.toInitial))

theorem RefreshChecked.entitled (h : Reach Blank s) {x}
    (hc : RefreshChecked S req (past tid s.hist) r client x) : Entitled s tid r client := by
  obtain ⟨t0, x0, hd, hid, hx0⟩ := hc.created h
  obtain ⟨a, ho, ha⟩ := createRefresh_origin h hd
  have hterms : x.terms = a.terms := (ha.trans hx0).symm
  have hclient : a.clientID = client.id := (congrArg Terms.clientID hterms).symm.trans hc.clientID
  exact .refresh hc.read hd hid ho hterms (ho.granted h) hclient hc.grantType hc.token

theorem Hands.entitled (h : Reach Blank s) {past0 raw} (hh : Hands S req past0 raw)
    (hs : past0.Sublist (past tid s.hist)) :
    ∃ r client, Authenticated req (past tid s.hist) r client ∧ Entitled s tid r client := by
  cases hh with
  | code hc =>
    have hc := hc.mono hs
    exact ⟨_, _, hc.toAuthenticated, hc.entitled h⟩
  | offline hx _ _ =>
    have hc := hx.toCodeClaimed.mono hs
    exact ⟨_, _, hc.toAuthenticated, hc.entitled h⟩
  | refresh hc _ _ _ =>
    have hc := hc.mono hs
    exact ⟨_, _, hc.toAuthenticated, hc.entitled h⟩

end

/-- What is in the storage goes back to requests: a request that was accepted, a code made of
one that was granted, a refresh token with the terms of one. And one that was granted is
not there any more. -/
theorem stored_from_request (S : Setup) (s : Sys (dex S)) (h : Reach Blank s) :
    (∀ id a, s.world.store.authReqs.lookup id = some a →
      ∃ tid, did (past tid s.hist) (.note (.accepted a.asked)) ()) ∧
    (∀ id c, s.world.store.authCodes.lookup id = some c → ∃ a t, Granted s a ∧ c = authCodeOf a id t) ∧
    (∀ id x, s.world.store.refreshTokens.lookup id = some x → ∃ a, Granted s a ∧ x.terms = a.terms) ∧
    ∀ a, Granted s a → s.world.store.authReqs.lookup a.id = none := by
  have hi : Reach Initial s := h.mono fun _ hw => hw.toInitial
  refine ⟨fun id a ha => authRequest_accepted h ha, fun id c hc => ?_, fun id x hx => ?_, fun a hg => hg.consumed hi⟩
  · obtain ⟨tid, hd⟩ := authCode_created h hc
    obtain ⟨a, t, ho, hcode⟩ := createAuthCode_origin h hd
    exact ⟨a, t, ho.granted h, authCode_id hi hc ▸ hcode⟩
  · obtain ⟨tid, x0, hd, _, hterms⟩ := refreshToken_created h hx
    obtain ⟨a, ho, ha⟩ := createRefresh_origin h hd
    exact ⟨a, ho.granted h, (ha.trans hterms).symm⟩

theorem narrowed_stored : ∃ x a, narrowedRun.world.store.refreshTokens.lookup "x" = some x ∧
    Granted narrowedRun a ∧ x.terms = a.terms ∧ narrowedRun.world.store.authReqs.lookup a.id = none := by
  have h := narrowed_reach
  obtain ⟨_, _, hrefresh, hgone⟩ := stored_from_request demo narrowedRun h
  obtain ⟨x, hx⟩ := isSome_iff_exists.mp
    (by decide +kernel : (narrowedRun.world.store.refreshTokens.lookup "x").isSome = true)
  obtain ⟨a, hg, ha⟩ := hrefresh "x" x hx
  exact ⟨x, a, hx, hg, ha, hgone a hg⟩

/-- Tokens are handed only to a client that has given the secret it was found stored with, and
only for a request of this client that was granted. -/
theorem tokens_entitled (S : Setup) (s : Sys (dex S)) (h : Reach Blank s) (tid : Nat) (raw : String)
    (hraw : raw ∈ handedOut s.hist tid) :
    ∃ r client id req w w', tokenRequest s tid = some r ∧ credentials r = .ok (id, client.secret) ∧
      .act tid req (.getClient id) (.ok client) w w' ∈ s.hist ∧ w.store.clients.lookup id = some client ∧
      Entitled s tid r client := by
  obtain ⟨_, _, hd⟩ := mem_handedOut.mp hraw
  obtain ⟨req, s0, w', hm⟩ := Reach.did_made h hd
  obtain ⟨p, hth⟩ := hm.thread
  obtain ⟨r, client, hauth, hentitled⟩ := Hands.entitled h hm.duty hm.sublist
  obtain ⟨id, hcred, hread⟩ := hauth.secret
  obtain ⟨_, s1, _, hm1⟩ := Reach.did_made h hread
  obtain ⟨_, hx⟩ := hm1.exec
  refine ⟨r, client, id, _, s1.world, _, ?_, hcred, hm1.mem, exec_getClient hx, hentitled⟩
  obtain ⟨inst, kind⟩ := req
  cases hauth.kind
  rw [tokenRequest, hth]

theorem narrowed_entitled : ∃ r client, tokenRequest narrowedRun 4 = some r ∧
    r.scope = "openid" ∧ Entitled narrowedRun 4 r client := by
  have h := narrowed_reach
  obtain ⟨hscope, hhanded⟩ : (tokenRequest narrowedRun 4).map (·.scope) = some "openid" ∧
      handedOut narrowedRun.hist 4 ≠ [] := by
    decide +kernel
  obtain ⟨raw, hraw⟩ := exists_mem_of_ne_nil _ hhanded
  obtain ⟨r, client, _, _, _, _, hr, _, _, _, hentitled⟩ := tokens_entitled demo narrowedRun h 4 raw hraw
  rw [hr] at hscope
  exact ⟨r, client, hr, some.inj hscope, hentitled⟩

end KubeYamls.Dex
