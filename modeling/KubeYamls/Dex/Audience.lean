import KubeYamls.Dex.Redirect
import KubeYamls.Dex.Trust

/-! # The audience of an ID token

The loop of `newIDToken` collects the peers that the cross-client scopes name, in
their order and with repetitions, and the client itself is put in afterwards. -/
namespace KubeYamls.Dex
open Data Conc Prog List

def peers (scopes : List String) : List String := scopes.filterMap parseCrossClientScope

@[simp] theorem peers_nil : peers [] = [] := rfl

theorem peers_cons_of_none {scope} (h : parseCrossClientScope scope = none)
    (scopes : List String) : peers (scope :: scopes) = peers scopes := filterMap_cons_none h

theorem peers_cons_of_some {scope peerID} (h : parseCrossClientScope scope = some peerID)
    (scopes : List String) : peers (scope :: scopes) = peerID :: peers scopes :=
  filterMap_cons_some h

/-! ## The client itself -/

theorem mem_setAudience {clientID aud tok} :
    aud ∈ (setAudience clientID tok).audience ↔ aud = clientID ∨ aud ∈ tok.audience := by
  unfold setAudience
  split
  · rename_i hnil
    simp [hnil]
  · show aud ∈ (if _ then _ else _) ↔ _
    split
    · rename_i hmem
      have hself : clientID ∈ tok.audience := by simpa using hmem
      exact ⟨.inr, fun h => h.elim (fun heq => heq ▸ hself) id⟩
    · rw [mem_append, mem_singleton, or_comm]

theorem setAudience_authorizingParty (clientID : String) (tok : IDTokenClaims) :
    (setAudience clientID tok).authorizingParty =
      if tok.audience = [] then tok.authorizingParty else clientID := by
  unfold setAudience
  split <;> rfl

/-! ## The scopes -/

section
variable {reply : (o : Op) → Res o} {clients : Table String Client}

theorem eval_validateCrossClientTrust (hclients : ∀ id, reply (.getClient id) = get id clients)
    (clientID peerID : String) : ∃ trusted, (validateCrossClientTrust clientID peerID).eval reply = .ok trusted ∧
      (trusted = true ↔ TrustedBy clients clientID peerID) := by
  unfold validateCrossClientTrust TrustedBy
  split
  · rename_i hself
    exact ⟨true, rfl, by simp [hself]⟩
  · rename_i hne
    rw [eval_bind, eval_op, hclients]
    cases hl : clients.lookup peerID with
    | none => exact ⟨false, by simp [get, hl], by simp [hne]⟩
    | some peer =>
      exact ⟨peer.trustedPeers.contains clientID, by simp [get, hl], by simp [hne]⟩

/-- What the loop makes of the scopes: it fails at the first peer that does not
trust the client, and otherwise appends the peers. The authorizing party is not
its business. -/
theorem eval_addScopes (hclients : ∀ id, reply (.getClient id) = get id clients) (clientID : String)
    (claims : Claims) (connID : String) (scopes : List String) (tok : IDTokenClaims) :
    ((∃ tok', (addScopes clientID claims connID scopes tok).eval reply = .ok tok') ↔
      ∀ peerID ∈ peers scopes, TrustedBy clients clientID peerID) ∧
    ∀ tok', (addScopes clientID claims connID scopes tok).eval reply = .ok tok' →
      tok'.audience = tok.audience ++ peers scopes ∧ tok'.authorizingParty = tok.authorizingParty := by
  induction scopes generalizing tok with
  | nil =>
    refine ⟨⟨fun _ => by simp, fun _ => ⟨tok, rfl⟩⟩, ?_⟩
    intro tok' h
    cases h
    simp
  | cons scope scopes ih =>
    -- a scope with a meaning of its own names no peer and leaves both fields alone
    have hknown (h : scope ∈ [scopeOfflineAccess, scopeEmail, scopeProfile, scopeGroups, scopeFederatedID]) :
        peers (scope :: scopes) = peers scopes := peers_cons_of_none (parseCrossClientScope_known h) _
    unfold addScopes
    split_ifs with hemail hgroups hprofile hfederated
    · rw [hknown (by simp [hemail])]
      exact ih _
    · rw [hknown (by simp [hgroups])]
      exact ih _
    · rw [hknown (by simp [hprofile])]
      exact ih _
    · rw [hknown (by simp [hfederated])]
      exact ih _
    · cases hp : parseCrossClientScope scope with
      | none =>
        rw [peers_cons_of_none hp]
        exact ih _
      | some peerID =>
        obtain ⟨trusted, heval, htrusted⟩ := eval_validateCrossClientTrust hclients clientID peerID
        rw [peers_cons_of_some hp, forall_mem_cons, ← htrusted]
        simp only [eval_bind, heval]
        cases trusted with
        | false => simp
        | true =>
          obtain ⟨hok, haud⟩ := ih { tok with audience := tok.audience ++ [peerID] }
          refine ⟨by simpa using hok, fun tok' h => ?_⟩
          obtain ⟨haud, hazp⟩ := haud tok' h
          exact ⟨by simpa using haud, hazp⟩

/-- All that `newIDToken` needs besides the scopes: a key that can sign, a subject
and a signature. -/
structure Signs (reply : (o : Op) → Res o) (claims : Claims) (connID : String) : Prop where
  key : ∃ keys signingKey alg, getKeys.eval reply = .ok keys ∧ keys.signingKey = some signingKey ∧
    signatureAlgorithm signingKey = .ok alg
  subject : ∃ subject, reply (.marshal claims.userID connID) = .ok subject
  signature : ∀ key alg payload, reply (.signPayload key alg payload) = .ok ⟨key, alg, payload⟩

theorem Signs.eval_newIDToken {claims connID} (hs : Signs reply claims connID)
    (c : Config) (clientID : String) (scopes : List String) (nonce accessToken : String) :
    ∃ key alg tok expiry, tok.audience = [] ∧ tok.authorizingParty = "" ∧
      (newIDToken c clientID claims scopes nonce accessToken connID).eval reply =
        ((addScopes clientID claims connID scopes tok).eval reply).map fun tok =>
          (⟨key, alg, setAudience clientID tok⟩, expiry) := by
  obtain ⟨keys, signingKey, alg, hkeys, hkey, halg⟩ := hs.key
  obtain ⟨subject, hsubject⟩ := hs.subject
  refine ⟨signingKey, alg, ⟨c.issuerURL, subject, [], unix (reply .now + c.idTokensValidFor),
    unix (reply .now), "", nonce, if accessToken = "" then none else some (alg, accessToken),
    "", none, [], "", none⟩, reply .now + c.idTokensValidFor, rfl, rfl, ?_⟩
  simp only [newIDToken, note, now, eval_bind, hkeys, hkey, halg, eval_op (S := sig) .now,
    eval_op (S := sig) (.marshal _ _), hsubject]
  cases (addScopes clientID claims connID scopes _).eval reply with
  | error e => rfl
  | ok tok => simp [eval_op (S := sig) (.signPayload _ _ _), hs.signature, Except.map]

end

/-- `newIDToken` fails because of the scopes exactly if they name a peer that does
not trust the client. If it succeeds, the token is for the client and these peers,
and the client is the authorizing party if there is such a scope. -/
theorem audience_exact (c : Config) (reply : (o : Op) → Res o) (clients : Table String Client)
    (clientID : String) (claims : Claims) (scopes : List String) (nonce accessToken connID : String)
    (hclients : ∀ id, reply (.getClient id) = get id clients) (hs : Signs reply claims connID) :
    ((∃ t, (newIDToken c clientID claims scopes nonce accessToken connID).eval reply = .ok t) ↔
      ∀ peerID ∈ peers scopes, TrustedBy clients clientID peerID) ∧ ∀ idToken expiry,
      (newIDToken c clientID claims scopes nonce accessToken connID).eval reply = .ok (idToken, expiry) →
      (∀ aud, aud ∈ idToken.payload.audience ↔ aud = clientID ∨ aud ∈ peers scopes) ∧
      idToken.payload.authorizingParty = if peers scopes = [] then "" else clientID := by
  obtain ⟨key, alg, tok, expiry, hnil, hempty, heval⟩ :=
    hs.eval_newIDToken c clientID scopes nonce accessToken
  obtain ⟨hok, haud⟩ := eval_addScopes hclients clientID claims connID scopes tok
  rw [heval]
  cases hscopes : (addScopes clientID claims connID scopes tok).eval reply with
  | error e =>
    rw [hscopes] at hok
    refine ⟨⟨?_, fun ht => ?_⟩, ?_⟩
    · rintro ⟨t, ht⟩
      cases ht
    · obtain ⟨tok', h⟩ := hok.mpr ht
      cases h
    · rintro _ _ ⟨⟩
  | ok tok' =>
    obtain ⟨haud, hazp⟩ := haud tok' hscopes
    rw [hnil, nil_append] at haud
    refine ⟨⟨fun _ => hok.mp ⟨tok', hscopes⟩, fun _ => ⟨_, rfl⟩⟩, ?_⟩
    rintro _ _ ⟨⟩
    refine ⟨fun aud => by rw [mem_setAudience, haud], ?_⟩
    rw [setAudience_authorizingParty, haud, hazp, hempty]

/-- A server with a key, which knows these clients. -/
def signsFor (clients : Table String Client) : (o : Op) → Res o
  | .getClient id => get id clients
  | .loadKeys => some { signingKey := some (newSigningKey 0 "key"), nextRotation := 1 }
  | .marshal userID connID => .ok (userID ++ connID)
  | .signPayload key alg payload => .ok ⟨key, alg, payload⟩
  | o => onlyClient app o

theorem signs_signsFor (clients : Table String Client) (claims : Claims) (connID : String) :
    Signs (signsFor clients) claims connID where
  key := ⟨_, _, .rs256, rfl, rfl, rfl⟩
  subject := ⟨_, rfl⟩
  signature _ _ _ := rfl

def backend : Client := { app with id := "backend", trustedPeers := ["app"] }

/-- The peer twice and the client once in the scopes: one token for both. -/
theorem audience_app_backend : ∃ idToken expiry,
    (newIDToken (demo.config 0) "app" {} ["audience:server:client_id:backend", "email",
        "audience:server:client_id:app", "audience:server:client_id:backend"] "" "" "mock").eval
      (signsFor ((∅ : Table String Client).insert "backend" backend)) = .ok (idToken, expiry) ∧
    (∀ aud, aud ∈ idToken.payload.audience ↔ aud = "app" ∨ aud ∈ ["backend", "app", "backend"]) ∧
    idToken.payload.authorizingParty = "app" := by
  obtain ⟨hok, haud⟩ := audience_exact (demo.config 0) (signsFor ((∅ : Table String Client).insert "backend" backend))
    ((∅ : Table String Client).insert "backend" backend) "app" {} ["audience:server:client_id:backend", "email",
      "audience:server:client_id:app", "audience:server:client_id:backend"] "" "" "mock"
    (fun _ => rfl) (signs_signsFor _ _ _)
  have hpeers : peers ["audience:server:client_id:backend", "email",
      "audience:server:client_id:app", "audience:server:client_id:backend"] =
      ["backend", "app", "backend"] := by decide +kernel
  rw [hpeers] at hok haud
  have htrusted : TrustedBy ((∅ : Table String Client).insert "backend" backend) "app" "backend" :=
    .inr ⟨backend, (Table.lookup_insert_iff.mpr (.inl ⟨rfl, rfl⟩)), mem_singleton_self _⟩
  obtain ⟨⟨idToken, expiry⟩, ht⟩ := hok.mpr (by
    intro peerID hp
    simp only [mem_cons, not_mem_nil, or_false] at hp
    rcases hp with rfl | rfl | rfl
    · exact htrusted
    · exact .inl rfl
    · exact htrusted)
  exact ⟨idToken, expiry, ht, haud idToken expiry ht⟩

end KubeYamls.Dex
