import KubeYamls.Dex.Provenance

/-! # Cross-client trust is checked twice

`parseAuthorizationRequest` looks up the peers that the scopes name, and
`newIDToken` looks them up again when it makes a token for the request, its code
or its refresh token. While the clients stay as they are, what the first check
let through the second does not refuse. -/
namespace KubeYamls.Dex
open Data Conc Prog

/-- The error of `newIDToken` for a peer that is not known or does not trust the
client. -/
def untrustedPeer (peerID : String) : Error :=
  .other ("peer (" ++ peerID ++ ") does not trust client")

/-- `clients` says that the peer trusts the client. -/
def TrustedBy (clients : Table String Client) (clientID peerID : String) : Prop :=
  peerID = clientID ∨ ∃ peer, clients.lookup peerID = some peer ∧ clientID ∈ peer.trustedPeers

/-- Calls get the replies that they can get while the clients are these. -/
def clientStore (codec : Codec) (clients : Table String Client) : Contract sig where
  duty _ _ := True
  grant _ o r := ∃ inst ans w w', w.store.clients = clients ∧ exec codec inst o ans w = some (r, w')

theorem other_ne_untrustedPeer {msg peerID} (h : msg.toList.head? ≠ some 'p') :
    Error.other msg ≠ untrustedPeer peerID := by
  intro heq
  refine h ?_
  rw [Error.other.inj heq]
  simp

theorem signatureAlgorithm_error {jwk e} (h : signatureAlgorithm jwk = .error e)
    (peerID : String) : e ≠ untrustedPeer peerID := by
  unfold signatureAlgorithm at h
  split at h
  all_goals cases h
  all_goals exact other_ne_untrustedPeer (by decide)

theorem remote_error {α : Type} {f : Ans → Option α} {ans e w w'}
    (h : remote f ans w = some (.error e, w')) : e = failure := by
  unfold remote at h
  split at h
  · cases h
    rfl
  · obtain ⟨_, _, he⟩ := Option.map_eq_some_iff.mp h
    cases he

section
variable {codec : Codec} {clients : Table String Client} {past : Past} {clientID : String}

theorem wp_validateCrossClientTrust_trusted {peerID} (ht : TrustedBy clients clientID peerID) :
    (validateCrossClientTrust clientID peerID).wp (clientStore codec clients)
      (fun _ r => r = .ok true ∨ r = .error failure) past := by
  unfold validateCrossClientTrust
  split
  · exact wp_ret (.inl rfl)
  · rename_i hne
    obtain ⟨peer, hl, hmem⟩ := ht.resolve_left hne
    refine wp_step trivial ?_
    rintro r ⟨inst, ans, w, w', rfl, hx⟩
    simp only [exec] at hx
    rcases (storage_get hx).1 with rfl | rfl
    · exact wp_ret (.inr rfl)
    · rw [get_ok.mpr hl]
      exact wp_ret (.inl (by simpa using hmem))

theorem wp_addScopes_trusted (claims : Claims) (connID : String) (scopes : List String)
    (tok : IDTokenClaims) (ht : ∀ scope ∈ scopes, ∀ peerID,
      parseCrossClientScope scope = some peerID → TrustedBy clients clientID peerID) :
    (addScopes clientID claims connID scopes tok).wp (clientStore codec clients)
      (fun _ r => ∀ e, r = .error e → e = failure) past := by
  induction scopes generalizing tok past with
  | nil => exact wp_ret (by simp)
  | cons scope scopes ih =>
    obtain ⟨hscope, hrest⟩ := List.forall_mem_cons.mp ht
    unfold addScopes
    split_ifs
    · exact ih _ hrest
    · exact ih _ hrest
    · exact ih _ hrest
    · exact ih _ hrest
    · split
      · exact ih _ hrest
      · rename_i peerID hpeer
        refine wp_seq (wp_validateCrossClientTrust_trusted (hscope peerID hpeer)) fun past' r hr => ?_
        rcases hr with rfl | rfl
        · exact ih _ hrest
        · exact wp_ret (by simp)

theorem wp_getKeysFromStorage_error : getKeysFromStorage.wp (clientStore codec clients)
    (fun _ r => ∀ e, r = .error e → e = failure) past := by
  unfold getKeysFromStorage
  refine wp_step trivial ?_
  rintro r ⟨inst, ans, w, w', _, hx⟩
  simp only [exec] at hx
  rcases (storage_get hx).1 with rfl | rfl
  · exact wp_ret (by simp)
  · refine wp_step trivial fun t _ => ?_
    dsimp only
    split
    · exact wp_step trivial fun _ _ => wp_step trivial fun _ _ => wp_ret (by simp)
    · exact wp_step trivial fun _ _ => wp_ret (by simp)

theorem wp_getKeys_error : getKeys.wp (clientStore codec clients)
    (fun _ r => ∀ e, r = .error e → e = failure) past := by
  unfold getKeys
  refine wp_step trivial fun _ _ => wp_step trivial fun r _ => ?_
  rcases r with _ | keys
  · exact wp_getKeysFromStorage_error
  · refine wp_step trivial fun t _ => ?_
    dsimp only
    split
    · exact wp_step trivial fun _ _ => wp_ret (by simp)
    · exact wp_getKeysFromStorage_error

theorem wp_newIDToken_trusted (c : Config) (claims : Claims) (scopes : List String)
    (nonce accessToken connID : String) (ht : ∀ scope ∈ scopes, ∀ peerID,
      parseCrossClientScope scope = some peerID → TrustedBy clients clientID peerID) :
    (newIDToken c clientID claims scopes nonce accessToken connID).wp (clientStore codec clients)
      (fun _ r => ∀ peerID, r ≠ .error (untrustedPeer peerID)) past := by
  have hfail : ∀ peerID, failure ≠ untrustedPeer peerID := fun _ => other_ne_untrustedPeer (by decide)
  unfold newIDToken
  refine wp_step trivial fun _ _ => wp_seq wp_getKeys_error fun p1 r hr => ?_
  rcases r with e | keys
  · cases hr e rfl
    exact wp_ret fun peerID heq => hfail peerID (Except.error.inj heq)
  dsimp only
  split
  · exact wp_ret fun peerID heq => other_ne_untrustedPeer (by decide) (Except.error.inj heq)
  split
  · rename_i e halg
    exact wp_ret fun peerID heq => signatureAlgorithm_error halg peerID (Except.error.inj heq)
  refine wp_step trivial fun t _ => wp_step trivial ?_
  rintro r ⟨inst, ans, w, w', _, hx⟩
  rcases r with e | subject
  · simp only [exec] at hx
    cases remote_error hx
    exact wp_ret fun peerID heq => hfail peerID (Except.error.inj heq)
  refine wp_seq (wp_addScopes_trusted _ _ _ _ ht) fun p2 r hr => ?_
  rcases r with e | tok
  · cases hr e rfl
    exact wp_ret fun peerID heq => hfail peerID (Except.error.inj heq)
  refine wp_step trivial ?_
  rintro r ⟨inst, ans, w, w', _, hx⟩
  rcases r with e | idToken
  · simp only [exec] at hx
    cases remote_error hx
    exact wp_ret fun peerID heq => hfail peerID (Except.error.inj heq)
  · exact wp_ret (by simp)

end

section
variable {S : Setup} {s : Sys (dex S)} {clients : Table String Client} {tid : Nat}

/-- A storage without requests, codes and tokens, and with these clients. -/
structure BlankWith (table : Table String Client) (w : World) : Prop extends Blank w where
  same : w.store.clients = table

def configures : Step S → Bool
  | .move (.configure _ _) _ _ => true
  | _ => false

/-- The administrator leaves the clients alone. -/
def Unconfigured (_ : List (Step S)) (e : Step S) : Prop := configures e = false

instance (hist : List (Step S)) (e : Step S) : Decidable (Unconfigured hist e) :=
  inferInstanceAs (Decidable (configures e = false))

section
variable (h : Reach (BlankWith clients) s) (hC : Along Unconfigured s.hist)
include h hC

theorem clients_same : s.world.store.clients = clients := by
  refine Conc.Reach.induct (C := Unconfigured) (I := fun s => s.world.store.clients = clients)
    ?_ ?_ ?_ ?_ h hC
  · intro w hw
    exact hw.same
  · intro s req _ _ ih
    exact ih
  · intro s tid req o k ans r w _ _ ih _ hx
    exact (exec_effect hx).clients.trans ih
  · intro s m w _ hC ih hm
    cases m with
    | tick d =>
      cases hm
      exact ih
    | configure _ _ => cases hC.1

theorem Trusts.trustedBy {clientID peerID} (ht : Trusts (past tid s.hist) clientID peerID) :
    TrustedBy clients clientID peerID := by
  refine ht.imp_right ?_
  rintro ⟨peer, hd, hmem⟩
  obtain ⟨_, s0, w', hm⟩ := Reach.did_made h hd
  obtain ⟨_, hx⟩ := hm.exec
  obtain ⟨l, hl⟩ := hm.hist
  rw [hl] at hC
  exact ⟨peer, clients_same hm.reach hC.at.2 ▸ exec_getClient hx, hmem⟩

theorem Granted.trustedBy {a} (hg : Granted s a) : ∀ scope ∈ a.scopes, ∀ peerID,
      parseCrossClientScope scope = some peerID → TrustedBy clients a.clientID peerID := by
  intro scope hscope peerID hpeer
  obtain ⟨t, hacc⟩ := hg.accepted
  obtain ⟨_, q, client, _, _, hv, _⟩ := accepted_form h hacc
  -- the first check uses the ID of the form, the second that of the client found
  have hid : client.id = q.clientID := by
    obtain ⟨_, s0, w', hm⟩ := Reach.did_made h hv.read
    obtain ⟨_, hx⟩ := hm.exec
    exact client_id (hm.reach.mono fun _ hw => hw.toInitial) (exec_getClient hx)
  have hclient : a.clientID = q.clientID := Eq.trans hv.clientID hid
  rw [hclient]
  exact (hv.peers scope hscope peerID hpeer).trustedBy h hC

end

end

/-- While the clients stay the same, no call of `newIDToken` that a handler makes,
for a code response, a code exchange or a refresh, can fail because of a peer. -/
theorem trust_checks_agree (S : Setup) (clients : Table String Client) (s : Sys (dex S))
    (h : Reach (BlankWith clients) s) (hC : Along Unconfigured s.hist) (tid : Nat) (t : Terms)
    (ht : t ∈ minted s.hist tid) (c : Config) (claims : Claims) (accessToken connID : String)
    (past : Past) : (newIDToken c t.clientID claims t.scopes t.nonce accessToken connID).wp
      (clientStore S.codec clients) (fun _ r => ∀ peerID, r ≠ .error (untrustedPeer peerID)) past := by
  have hb : Reach Blank s := h.mono fun _ hw => hw.toBlank
  obtain ⟨req, p, _, _, hth, hm⟩ := mints_of_minted hb ht
  obtain ⟨a, ho, hw⟩ := hm.origin hb hth
  refine wp_newIDToken_trusted c claims t.scopes t.nonce accessToken connID ?_
  intro scope hscope peerID hpeer
  have hclient : t.clientID = a.clientID := hw.clientID
  rw [hclient]
  exact (ho.granted hb).trustedBy h hC scope (hw.scopes scope hscope) peerID hpeer

def peerClient : Client := { app with id := "peer", trustedPeers := ["app"] }

def twoClients : Table String Client :=
  ((∅ : Table String Client).insert app.id app).insert peerClient.id peerClient

def peerWorld : World :=
  { demoWorld with store := { demoWorld.store with clients := twoClients } }

theorem peer_blank : BlankWith twoClients peerWorld where
  toBlank :=
    { demo_blank with
      clients := by
        intro id c hc
        rcases Table.lookup_insert_iff.mp hc with ⟨rfl, rfl⟩ | ⟨_, hc⟩
        · rfl
        · exact demo_blank.clients id c hc
      refs := {
        token := fun _ _ h => by cases h
        ref := fun _ _ h => by cases h } }
  same := rfl

def peerScopes : String := "openid audience:server:client_id:peer"

/-- A token for the second client is asked for, and its code is exchanged. -/
@[irreducible] def peerRun : Sys (dex demo) := .after peerWorld <|
  serving 0 (.authorization {
    redirectURI := "http://app/cb", clientID := "app", scope := peerScopes, responseType := "code" })
    (plains 2 ++ .text "r" :: plains 5) ++
  loginA 1 "r" offlineA ++ approve 2 "r" "c" ++ exchangeCode 3 "c" "at"

theorem peer_trust_agrees : (⟨"app", "", fields peerScopes⟩ : Terms) ∈ minted peerRun.hist 3 ∧
    ∀ past, (newIDToken (demo.config 0) "app" alice.claims (fields peerScopes) "" "at" "a").wp
      (clientStore codec twoClients) (fun _ r => ∀ peerID, r ≠ .error (untrustedPeer peerID)) past := by
  have h : Reach (BlankWith twoClients) peerRun := by
    unfold peerRun
    exact .after peer_blank _
  obtain ⟨hC, ht⟩ : Along Unconfigured peerRun.hist ∧
      (⟨"app", "", fields peerScopes⟩ : Terms) ∈ minted peerRun.hist 3 := by
    decide +kernel
  exact ⟨ht, trust_checks_agree demo twoClients peerRun h hC 3 _ ht (demo.config 0) alice.claims
    "at" "a"⟩

end KubeYamls.Dex
