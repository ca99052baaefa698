import KubeYamls.Dex.Duty

/-! # The handlers meet the contract

Every handler is walked once, along all its branches, with the calls it has made
as the only context. -/
namespace KubeYamls.Dex
open Conc Prog List

variable {o : Op} {a : AuthRequest} {q : AuthorizationForm} {r : ApprovalRequest} {connID : String}

section
variable {S : Setup} {req : Request} {past past' : Past}

@[simp] theorem did_nil (o : Op) (r : Res o) : ¬ did [] o r := by simp [did]

@[simp] theorem did_cons (e : Ev sig) (past : Past) (o : Op) (r : Res o) :
    did (e :: past) o r ↔ (⟨o, r⟩ : Ev sig) = e ∨ did past o r := by simp [did]

theorem did.mono {r} (h : did past o r) (hs : past.Sublist past') : did past' o r :=
  hs.subset h

theorem didThen.mono {o1 o2 r1 r2} (h : didThen past o1 r1 o2 r2)
    (hs : past.Sublist past') : didThen past' o1 r1 o2 r2 := h.trans hs

theorem didThen.cons {o1 o2 r1 r2} (h : did past o1 r1) : didThen (⟨o2, r2⟩ :: past) o1 r1 o2 r2 :=
  (singleton_sublist.mpr h).cons_cons _

theorem Trusts.mono {clientID peerID} (h : Trusts past clientID peerID)
    (hs : past.Sublist past') : Trusts past' clientID peerID :=
  h.imp_right fun ⟨peer, hd, ht⟩ => ⟨peer, hd.mono hs, ht⟩

theorem Vetted.mono {client} (h : Vetted req past a q client) (hs : past.Sublist past') :
    Vetted req past' a q client :=
  { h with
    read := h.read.mono hs
    peers := fun scope hm peerID hp => (h.peers scope hm peerID hp).mono hs }

theorem Refreshed.mono {x ident} (h : Refreshed past x ident)
    (hs : past.Sublist past') : Refreshed past' x ident :=
  h.imp_right fun ⟨scopes, hd⟩ => ⟨scopes, hd.mono hs⟩

theorem Approves.mono (h : Approves S req past r a) (hs : past.Sublist past') : Approves S req past' r a :=
  { h with inTime := h.inTime.imp fun _ ht => ⟨ht.1, ht.2.mono hs⟩ }

theorem Sends.mono (h : Sends S req past r a) (hs : past.Sublist past') : Sends S req past' r a :=
  { h.toApproves.mono hs with deleted := h.deleted.mono hs }

theorem Authenticated.mono {r client} (h : Authenticated req past r client)
    (hs : past.Sublist past') : Authenticated req past' r client :=
  { h with secret := h.secret.imp fun _ hc => ⟨hc.1, hc.2.mono hs⟩ }

variable {r : TokenRequest} {client : Client} {c : AuthCode} {x : RefreshToken}

theorem CodeChecked.mono (h : CodeChecked req past r client c) (hs : past.Sublist past') :
    CodeChecked req past' r client c :=
  { h with
    toAuthenticated := h.toAuthenticated.mono hs
    inTime := h.inTime.imp fun _ ht => ⟨ht.1, ht.2.mono hs⟩ }

theorem CodeClaimed.mono (h : CodeClaimed req past r client c) (hs : past.Sublist past') :
    CodeClaimed req past' r client c :=
  { h.toCodeChecked.mono hs with deleted := h.deleted.mono hs }

theorem RefreshMade.mono (h : RefreshMade req past r client c x) (hs : past.Sublist past') :
    RefreshMade req past' r client c x :=
  { h.toCodeClaimed.mono hs with
    shape := h.shape
    id := h.id.mono hs
    token := h.token.mono hs }

theorem RefreshStored.mono (h : RefreshStored req past r client c x) (hs : past.Sublist past') :
    RefreshStored req past' r client c x :=
  { h.toRefreshMade.mono hs with created := h.created.mono hs }

theorem RefreshChecked.mono (h : RefreshChecked S req past r client x) (hs : past.Sublist past') :
    RefreshChecked S req past' r client x :=
  { h with
    toAuthenticated := h.toAuthenticated.mono hs
    read := h.read.mono hs }

theorem OldRef.mono {session ref}
    (h : OldRef past x session ref) (hs : past.Sublist past') : OldRef past' x session ref :=
  { h with read := h.read.mono hs }

theorem Installed.mono (h : Installed past x) (hs : past.Sublist past') : Installed past' x :=
  h.imp (·.mono hs) fun ⟨u, c, o, hu⟩ => ⟨u, c, o, hu.mono hs⟩

theorem Touched.mono {t} (h : Touched past x t) (hs : past.Sublist past') : Touched past' x t :=
  h.imp fun _ => (·.mono hs)

theorem Hands.mono {s} (h : Hands S req past s) (hs : past.Sublist past') : Hands S req past' s := by
  cases h with
  | code h => exact .code (h.mono hs)
  | offline h hi hm => exact .offline (h.mono hs) (hi.mono hs) hm
  | refresh h ht hc hm => exact .refresh (h.mono hs) (ht.mono hs) (hc.mono hs) hm

theorem LoginVia.mono (h : LoginVia req past a connID) (hs : past.Sublist past') :
    LoginVia req past' a connID := by
  cases h with
  | same hk hm hg hc => exact .same hk hm (hg.mono hs) hc
  | set hk hm hg hu => exact .set hk hm (hg.mono hs) (hu.mono hs)
  | callback hk hg => exact .callback hk (hg.mono hs)

end

/-! ## Stretches of calls -/

/-- Only calls that satisfy `p` were made since `past`. -/
def Since (p : Op → Bool) (past past' : Past) : Prop :=
  ∃ es, past' = es ++ past ∧ ∀ e ∈ es, p e.1 = true

/-- The calls of the functions that only read, and of the key and connector
caches. Nothing that is later said to be missing from the past is one of these. -/
def quiet : Op → Bool
  | .getClient _ | .getConnector _ | .loadConnector _ | .storeConnector _ _ | .openConnector _
  | .getKeys | .loadKeys | .storeKeys _ | .now | .marshal _ _ | .signPayload _ _ _ | .note _ => true
  | _ => false

/-- The calls of `GetKeys`. -/
def caching : Op → Bool
  | .getKeys | .loadKeys | .storeKeys _ | .now | .note .keysCall | .note (.keysReturn _) => true
  | _ => false

/-- The calls of `newIDToken`. -/
def minting : Op → Bool
  | .getClient _ | .getKeys | .loadKeys | .storeKeys _ | .now | .marshal _ _ | .signPayload _ _ _
  | .note _ => true
  | _ => false

/-- The calls of `getConnector`. -/
def connecting : Op → Bool
  | .getConnector _ | .loadConnector _ | .storeConnector _ _ | .openConnector _ => true
  | _ => false

theorem quiet_of_minting (h : minting o = true) : quiet o = true := by
  cases o <;> first | rfl | cases h

theorem quiet_of_connecting (h : connecting o = true) : quiet o = true := by
  cases o <;> first | rfl | cases h

theorem quiet_of_signing (h : signing o = true) : quiet o = true := by
  cases o <;> simp_all [signing, quiet]

theorem quiet_of_caching (h : caching o = true) : quiet o = true := by
  cases o <;> simp_all [caching, quiet]

theorem not_mints_of_signing (h : signing o = true) : mints o = false := by
  cases o <;> simp_all [signing, mints]

theorem not_mints_of_caching (h : caching o = true) : mints o = false := by
  unfold caching at h
  split at h <;> first | rfl | cases h

namespace Since
variable {p q : Op → Bool} {past past' past'' : Past}

theorem refl : Since p past past := ⟨[], rfl, by simp⟩

section
variable (h : Since p past past')
include h

theorem cons {r} (hp : p o = true) : Since p past (⟨o, r⟩ :: past') := by
  obtain ⟨es, rfl, hes⟩ := h
  exact ⟨⟨o, r⟩ :: es, rfl, by simpa [hp] using hes⟩

theorem trans (h' : Since p past' past'') : Since p past past'' := by
  obtain ⟨es, rfl, hes⟩ := h
  obtain ⟨es', rfl, hes'⟩ := h'
  refine ⟨es' ++ es, by simp, fun e he => ?_⟩
  rcases mem_append.mp he with he | he
  · exact hes' e he
  · exact hes e he

theorem weaken (hpq : ∀ {o}, p o = true → q o = true) : Since q past past' := by
  obtain ⟨es, rfl, hes⟩ := h
  exact ⟨es, rfl, fun e he => hpq (hes e he)⟩

theorem sublist : past.Sublist past' := by
  obtain ⟨es, rfl, _⟩ := h
  exact sublist_append_right es past

theorem did {r} (hp : p o = false) (hd : did past' o r) : Dex.did past o r := by
  obtain ⟨es, rfl, hes⟩ := h
  rcases mem_append.mp hd with hd | hd
  · have := hes _ hd
    rw [hp] at this
    cases this
  · exact hd

end

end Since

theorem Untouched.since {past past'} (h : Untouched past) (hs : Since quiet past past') :
    Untouched past' := fun o r ho hd =>
  h o r ho (hs.did (by cases o <;> simp_all [touches, quiet]) hd)

theorem Unwritten.since {past past'} (h : Unwritten past) (hs : Since quiet past past') :
    Unwritten past' := fun resp hd => h resp (hs.did rfl hd)

theorem countP_createsCode_since {past past'} (hs : Since quiet past past') :
    past'.countP createsCode = past.countP createsCode := by
  obtain ⟨es, rfl, hes⟩ := hs
  have hnone : es.countP createsCode = 0 := by
    refine countP_eq_zero.mpr fun ⟨o, r⟩ he => ?_
    have hq := hes _ he
    cases o <;> simp_all [quiet, createsCode]
  rw [countP_append, hnone, Nat.zero_add]

/-! ## Shared functions -/

theorem openConnector_only (conn : StorageConnector) :
    (openConnector conn).Only fun o => connecting o = true := by
  unfold openConnector registerConnector
  split
  · exact only_step rfl fun _ => only_pure _
  · refine only_step rfl fun res => ?_
    cases res with
    | error e => exact only_pure _
    | ok impl => exact only_step rfl fun _ => only_pure _

theorem getConnector_only (id : String) : (getConnector id).Only fun o => connecting o = true := by
  refine only_step rfl fun res => ?_
  cases res with
  | error e => exact only_pure _
  | ok conn =>
    refine only_step rfl fun res => ?_
    cases res with
    | none => exact openConnector_only conn
    | some loaded =>
      dsimp only
      split
      · exact only_pure _
      · exact openConnector_only conn

theorem getKeysFromStorage_only : getKeysFromStorage.Only fun o => minting o = true := by
  refine only_step rfl fun res => ?_
  cases res with
  | error e => exact only_pure _
  | ok keys =>
    refine only_step rfl fun t => ?_
    dsimp only
    split
    · exact only_step rfl fun _ => only_step rfl fun _ => only_pure _
    · exact only_step rfl fun _ => only_pure _

theorem getKeys_only : getKeys.Only fun o => minting o = true := by
  refine only_step rfl fun _ => only_step rfl fun res => ?_
  cases res with
  | none => exact getKeysFromStorage_only
  | some keys =>
    refine only_step rfl fun t => ?_
    dsimp only
    split
    · exact only_step rfl fun _ => only_pure _
    · exact getKeysFromStorage_only

theorem validateCrossClientTrust_only (clientID peerID : String) :
    (validateCrossClientTrust clientID peerID).Only fun o => minting o = true := by
  unfold validateCrossClientTrust
  split
  · exact only_pure _
  · refine only_step rfl fun res => ?_
    rcases res with (_ | _ | _) | peer <;> exact only_pure _

theorem addScopes_only (clientID : String) (claims : Claims) (connID : String) (scopes : List String)
    (tok : IDTokenClaims) : (addScopes clientID claims connID scopes tok).Only fun o => minting o = true := by
  induction scopes generalizing tok with
  | nil => exact only_pure _
  | cons scope scopes ih =>
    unfold addScopes
    split_ifs
    · exact ih _
    · exact ih _
    · exact ih _
    · exact ih _
    · split
      · exact ih _
      · refine only_bind (validateCrossClientTrust_only _ _) fun res => ?_
        rcases res with e | (_ | _)
        · exact only_pure _
        · exact only_pure _
        · exact ih _

theorem newIDToken_only (c : Config) (clientID : String) (claims : Claims) (scopes : List String)
    (nonce accessToken connID : String) :
    (newIDToken c clientID claims scopes nonce accessToken connID).Only fun o => minting o = true := by
  refine only_step rfl fun _ => only_bind getKeys_only fun res => ?_
  rcases res with e | keys
  · exact only_pure _
  dsimp only
  split
  · exact only_pure _
  split
  · exact only_pure _
  refine only_step rfl fun t => only_step rfl fun res => ?_
  rcases res with e | subject
  · exact only_pure _
  refine only_bind (addScopes_only _ _ _ _ _) fun res => ?_
  rcases res with e | tok
  · exact only_pure _
  refine only_step rfl fun res => ?_
  rcases res with e | idToken <;> exact only_pure _

section
variable {S : Setup} {req : Request} {past : Past}

theorem wp_validateCrossClientTrust (clientID peerID : String) :
    (validateCrossClientTrust clientID peerID).wp (contract S req)
      (fun past' r => Since signing past past' ∧ (r = .ok true → Trusts past' clientID peerID)) past := by
  unfold validateCrossClientTrust
  split
  · rename_i heq
    exact wp_ret ⟨.refl, fun _ => .inl heq⟩
  · refine wp_step trivial fun r _ => ?_
    rcases r with e | peer
    · cases e <;> exact wp_ret ⟨Since.refl.cons rfl, by simp⟩
    · refine wp_ret ⟨Since.refl.cons rfl, fun ht => .inr ⟨peer, mem_cons_self, ?_⟩⟩
      simpa using ht

namespace AllTrust
variable {clientID scope : String} {scopes : List String}

theorem cons_of_none (hnone : parseCrossClientScope scope = none) (h : AllTrust past clientID scopes) :
    AllTrust past clientID (scope :: scopes) := by
  refine forall_mem_cons.mpr ⟨fun peerID hp => ?_, h⟩
  rw [hnone] at hp
  cases hp

theorem cons_of_some {peerID} (hpeer : parseCrossClientScope scope = some peerID)
    (ht : Trusts past clientID peerID) (h : AllTrust past clientID scopes) :
    AllTrust past clientID (scope :: scopes) := by
  refine forall_mem_cons.mpr ⟨fun peerID' hp => ?_, h⟩
  cases hpeer.symm.trans hp
  exact ht

end AllTrust

theorem parseCrossClientScope_known {scope} (h : scope ∈
    [scopeOfflineAccess, scopeEmail, scopeProfile, scopeGroups, scopeFederatedID]) :
    parseCrossClientScope scope = none := by
  simp only [mem_cons, not_mem_nil, or_false] at h
  rcases h with rfl | rfl | rfl | rfl | rfl <;> rfl

theorem wp_addScopes (clientID : String) (claims : Claims) (connID : String) (scopes : List String)
    (tok : IDTokenClaims) {p0} (hq : Since signing p0 past) :
    (addScopes clientID claims connID scopes tok).wp (contract S req)
      (fun past' r => Since signing p0 past' ∧ ∀ tok', r = .ok tok' →
          tok'.issuedAt = tok.issuedAt ∧ tok'.expiry = tok.expiry ∧ tok'.nonce = tok.nonce ∧
          tok'.subject = tok.subject) past := by
  induction scopes generalizing tok past with
  | nil => exact wp_ret ⟨hq, by simp_all⟩
  | cons scope scopes ih =>
    unfold addScopes
    split_ifs
    · exact ih _ hq
    · exact ih _ hq
    · exact ih _ hq
    · exact ih _ hq
    · split
      · exact ih _ hq
      · refine wp_seq (wp_validateCrossClientTrust _ _) fun past' r hs => ?_
        have hq' := hq.trans hs.1
        rcases r with e | (_ | _)
        · exact wp_ret ⟨hq', by simp⟩
        · exact wp_ret ⟨hq', by simp⟩
        · exact ih _ hq'

/-- `GetKeys` ends with the note of what it returns. -/
def KeysDone (p0 past : Past) (r : Except Error Keys) : Prop :=
  Since caching p0 past ∧ ∀ k, r = .ok k → ∃ rest, past = ⟨.note (.keysReturn k), ()⟩ :: rest

theorem wp_getKeysFromStorage {p0} (hq : Since caching p0 past)
    (hs : ∀ k, StoredKeys (⟨.getKeys, .ok k⟩ :: past) k) :
    getKeysFromStorage.wp (contract S req) (KeysDone p0) past := by
  unfold getKeysFromStorage
  refine wp_step trivial fun r _ => ?_
  rcases r with e | k
  · exact wp_ret ⟨hq.cons rfl, by simp⟩
  · refine wp_step trivial fun t _ => ?_
    dsimp only
    split_ifs with ht
    · refine wp_step ⟨t, _, rfl, ht, hs k⟩ fun _ _ => ?_
      refine wp_step (.inr ⟨t, _, hs k, .inr rfl⟩) fun _ _ => ?_
      exact wp_ret ⟨(((hq.cons rfl).cons rfl).cons rfl).cons rfl, by simp⟩
    · refine wp_step (.inr ⟨t, _, hs k, .inl rfl⟩) fun _ _ => ?_
      exact wp_ret ⟨((hq.cons rfl).cons rfl).cons rfl, by simp⟩

theorem wp_getKeys : getKeys.wp (contract S req) (KeysDone past) past := by
  unfold getKeys
  refine wp_step trivial fun _ _ => wp_step trivial fun r _ => ?_
  rcases r with _ | k
  · exact wp_getKeysFromStorage ((Since.refl.cons rfl).cons rfl) fun k => ⟨_, .inl rfl⟩
  · refine wp_step trivial fun t _ => ?_
    dsimp only
    split_ifs with ht
    · refine wp_step (.inl ⟨t, _, rfl, ht⟩) fun _ _ => ?_
      exact wp_ret ⟨(((Since.refl.cons rfl).cons rfl).cons rfl).cons rfl, by simp⟩
    · exact wp_getKeysFromStorage (((Since.refl.cons rfl).cons rfl).cons rfl)
        fun k => ⟨_, .inr ⟨t, _, rfl⟩⟩

theorem wp_newIDToken {clientID nonce accessToken claims scopes}
    (hm : Mints S req past clientID claims scopes nonce connID) :
    (newIDToken (S.config req.inst) clientID claims scopes nonce accessToken connID).wp
      (contract S req) (fun past' _ => Since quiet past past') past := by
  unfold newIDToken
  refine wp_step hm fun _ _ => wp_seq wp_getKeys fun p1 r hr => ?_
  have h1 : Since quiet past p1 := (Since.refl.cons rfl).trans (hr.1.weaken quiet_of_caching)
  rcases r with e | keys
  · exact wp_ret h1
  obtain ⟨rest, hrest⟩ := hr.2 keys rfl
  dsimp only
  split
  · exact wp_ret h1
  rename_i signingKey hkey
  split
  · exact wp_ret h1
  refine wp_step trivial fun issuedAt _ => wp_step trivial fun r hmarshal => ?_
  rcases r with e | subject
  · exact wp_ret ((h1.cons rfl).cons rfl)
  refine wp_seq (wp_addScopes _ _ _ _ _ (Since.refl.cons rfl)) fun p2 r hsc => ?_
  have h2 := (h1.cons rfl).trans (hsc.1.weaken quiet_of_signing)
  rcases r with e | tok
  · exact wp_ret h2
  obtain ⟨es, rfl, hes⟩ := hsc.1
  obtain ⟨hat, hexp, hnonce, hsub⟩ := hsc.2 tok rfl
  refine wp_step ⟨⟨keys, issuedAt, ⟨es, rest, by rw [hrest], hes⟩, hkey, ?_⟩, ?_⟩ fun r _ => ?_
  · unfold setAudience
    split <;> exact ⟨hat, hexp⟩
  · -- nothing since the call of `newIDToken` is another one
    obtain ⟨es', rfl, hes'⟩ := hr.1
    refine ⟨clientID, claims, scopes, accessToken, connID, ⟨es ++ ⟨.now, issuedAt⟩ :: es', past, ?_, ?_⟩, ?_⟩
    · rw [show (setAudience clientID tok).nonce = nonce by unfold setAudience; split <;> exact hnonce]
      simp
    · intro e he
      rcases mem_append.mp he with he | he
      · exact not_mints_of_signing (hes e he)
      · rcases mem_cons.mp he with rfl | he
        · rfl
        · exact not_mints_of_caching (hes' e he)
    · rw [show (setAudience clientID tok).subject = subject by unfold setAudience; split <;> exact hsub]
      exact hmarshal
  · rcases r with e | idToken <;> exact wp_ret (h2.cons rfl)

theorem wp_getConnector (id : String) :
    (getConnector id).wp (contract S req) (fun past' _ => Since quiet past past') past := by
  refine (getConnector_only id).wp_keeps ?_ (fun past' o r ho hs => hs.cons (quiet_of_connecting ho)) .refl
  intro past' o ho
  cases o <;> trivial

end

/-! ## Login and approval -/

section
variable {S : Setup} {req : Request} {past : Past} {Q : Past → Unit → Prop} (hQ : ∀ past, Q past ())
include hQ

theorem wp_write (resp : Response) (hd : duty S req past (.write resp)) :
    (write resp).wp (contract S req) Q past := wp_op hd fun _ _ => hQ _

theorem wp_renderError (status : Nat) (description : String) :
    (renderError status description).wp (contract S req) Q past := wp_write hQ _ trivial

theorem wp_handleAuthErr (err : AuthErr) : (handleAuthErr err).wp (contract S req) Q past := by
  unfold handleAuthErr
  split_ifs <;> exact wp_write hQ _ trivial

omit hQ in
/-- The loop refuses a peer it has not found to trust the client: `invalidScopes`
only grows, and is empty at the end only if all peers do. -/
theorem wp_checkScopes (clientID : String) (scopes : List String) (acc : ScopeCheck) :
    (checkScopes clientID scopes acc).wp (contract S req)
      (fun past' r => Since signing past past' ∧ ∀ chk, r = .ok chk → chk.invalidScopes = [] →
        acc.invalidScopes = [] ∧ AllTrust past' clientID scopes) past := by
  induction scopes generalizing acc past with
  | nil => exact wp_ret ⟨.refl, by simp [AllTrust]⟩
  | cons scope scopes ih =>
    unfold checkScopes
    split_ifs with hopenid hknown
    · refine wp_mono (ih _) fun _ r hr => ⟨hr.1, fun chk hchk hnil => ?_⟩
      exact (hr.2 chk hchk hnil).imp_right (AllTrust.cons_of_none (hopenid ▸ rfl))
    · refine wp_mono (ih _) fun _ r hr => ⟨hr.1, fun chk hchk hnil => ?_⟩
      exact (hr.2 chk hchk hnil).imp_right (AllTrust.cons_of_none (parseCrossClientScope_known hknown))
    · split
      · rename_i hnone
        refine wp_mono (ih _) fun _ r hr => ⟨hr.1, fun chk hchk hnil => ?_⟩
        exact (hr.2 chk hchk hnil).imp_right (AllTrust.cons_of_none hnone)
      · rename_i peerID hpeer
        refine wp_seq (wp_validateCrossClientTrust _ _) fun past' r hs => ?_
        rcases r with e | (_ | _)
        · exact wp_ret ⟨hs.1, by simp⟩
        · refine wp_mono (ih _) fun _ r hr => ⟨hs.1.trans hr.1, fun chk hchk hnil => ?_⟩
          have hcontra := (hr.2 chk hchk hnil).1
          simp at hcontra
        · refine wp_mono (ih _) fun _ r hr => ⟨hs.1.trans hr.1, fun chk hchk hnil => ?_⟩
          refine (hr.2 chk hchk hnil).imp_right (AllTrust.cons_of_some hpeer ?_)
          exact (hs.2 rfl).mono hr.1.sublist

omit hQ in
theorem checkAuthorization_ok {c redirectURI responseTypes chk} (h : checkAuthorization c q redirectURI responseTypes chk = .ok ()) :
    chk.invalidScopes = [] := by
  unfold checkAuthorization at h
  split at h
  · cases h
  split at h
  · cases h
  split at h
  · cases h
  · rename_i hinv
    exact not_not.mp hinv

omit hQ in
theorem wp_parseAuthorizationRequest (hk : req.kind = .authorization q) :
    (parseAuthorizationRequest (S.config req.inst) q).wp (contract S req)
      (fun past' r => ∀ a, r = .ok a → Parsed req past' a ∧ did past' (.note (.accepted a)) () ∧
        ∀ a' r', ¬ did past' (.createAuthRequest a') r') [] := by
  unfold parseAuthorizationRequest
  split_ifs
  · exact wp_ret (by simp)
  split
  · exact wp_ret (by simp)
  rename_i redirectURI huri
  refine wp_step trivial fun r _ => ?_
  rcases r with e | client
  · cases e <;> exact wp_ret (by simp)
  dsimp only
  split_ifs
  · exact wp_ret (by simp)
  refine wp_seq (wp_checkScopes _ _ _) fun p1 r hs => ?_
  rcases r with e | chk
  · exact wp_ret (by simp)
  dsimp only
  split
  · exact wp_ret (by simp)
  rename_i hcheck
  refine wp_step trivial fun id _ => ?_
  have hp : Parsed req (⟨.newID, id⟩ :: p1) (authRequestOf q client redirectURI id) :=
    ⟨q, client, redirectURI, hk, rfl, by simp [authRequestOf]⟩
  have hv : Vetted req p1 (authRequestOf q client redirectURI id) q client :=
    ⟨hk, did.mono mem_cons_self hs.1.sublist, rfl, huri, rfl, (hs.2 chk rfl (checkAuthorization_ok hcheck)).2⟩
  refine wp_step ⟨hp, q, client, hv.mono (.cons _ (.refl _))⟩ fun _ _ => wp_ret ?_
  intro a ha
  cases ha
  refine ⟨⟨q, client, redirectURI, hk, rfl, by simp [authRequestOf]⟩, by simp, ?_⟩
  intro a' r' hd
  simp only [did_cons, Sigma.mk.injEq, reduceCtorEq, false_and, false_or] at hd
  simpa using hs.1.did rfl hd

theorem wp_handleAuthorization (hk : req.kind = .authorization q) :
    (handleAuthorization (S.config req.inst) q).wp (contract S req) Q [] := by
  unfold handleAuthorization
  refine wp_seq (wp_parseAuthorizationRequest hk) fun past r hr => ?_
  rcases r with err | a
  · exact wp_handleAuthErr hQ err
  obtain ⟨⟨q', client, uri, hk', ha, hid⟩, hacc, hno⟩ := hr a rfl
  refine wp_step trivial fun t _ => wp_step ⟨a, _, ?_, ?_, rfl, ?_⟩ fun r _ => ?_
  · exact ⟨q', client, uri, hk', ha, by simp [hid]⟩
  · simp [hacc]
  · simp [hno]
  · rcases r with e | _
    · exact wp_renderError hQ _ _
    refine wp_step trivial fun r _ => ?_
    rcases r with e | _ | ⟨conn, _ | _⟩ <;> exact wp_write hQ _ trivial

theorem wp_finalizeLogin {identity} (hv : LoginVia req past a connID)
    (ha : Answered past connID a.id identity) (hw : Unwritten past) :
    (finalizeLogin identity a).wp (contract S req) Q past := by
  unfold finalizeLogin
  refine wp_step (.inr ⟨a, connID, identity, hv, ha, hw, rfl, rfl⟩) fun r _ => ?_
  rcases r with _ | _ | _ <;> exact wp_write hQ _ trivial

theorem wp_connectorLogin {r conn}
    (hv : r.method = .post → LoginVia req past a r.connector) (hw : Unwritten past) :
    (connectorLogin r conn a).wp (contract S req) Q past := by
  unfold connectorLogin
  refine wp_step trivial fun n _ => ?_
  dsimp only
  split
  · split_ifs
    · refine wp_step trivial fun r _ => ?_
      rcases r with e | url <;> exact wp_write hQ _ trivial
    · exact wp_write hQ _ trivial
    · refine wp_step trivial fun r _ => ?_
      rcases r with e | ⟨action, value⟩ <;> exact wp_write hQ _ trivial
    · exact wp_renderError hQ _ _
  · rename_i hm
    split_ifs
    · exact wp_renderError hQ _ _
    refine wp_step trivial fun res _ => ?_
    rcases res with e | _ | identity
    · exact wp_renderError hQ _ _
    · exact wp_write hQ _ trivial
    · refine wp_finalizeLogin hQ ((hv hm).mono (.cons _ (.cons _ (.refl _)))) ?_ ?_
      · exact .inl ⟨_, _, _, mem_cons_self⟩
      · intro resp
        simpa using hw resp
  · exact wp_renderError hQ _ _

theorem wp_handleConnectorLogin {r} (hk : req.kind = .connectorLogin r) :
    (handleConnectorLogin r).wp (contract S req) Q [] := by
  unfold handleConnectorLogin
  refine wp_seq (wp_getConnector _) fun p1 res hs => ?_
  rcases res with e | conn
  · exact wp_renderError hQ _ _
  refine wp_step trivial fun res _ => ?_
  rcases res with e | a
  · cases e <;> exact wp_renderError hQ _ _
  have hw : Unwritten (⟨.getAuthRequest r.req, .ok a⟩ :: p1) := fun resp hd => by
    simp only [did_cons, Sigma.mk.injEq, reduceCtorEq, false_and, false_or] at hd
    simpa using hs.did rfl hd
  dsimp only
  split_ifs with hc
  · refine wp_step (.inl ⟨r, hk, rfl, rfl, ?_⟩) fun res _ => ?_
    · -- the request was read once, and names another connector
      have hone : ∀ a', did (⟨.getAuthRequest r.req, .ok a⟩ :: p1) (.getAuthRequest r.req) (.ok a') →
          a' = a := fun a' hd => by
        rcases (did_cons _ _ _ _).mp hd with heq | hd
        · simpa using heq
        · simpa using hs.did rfl hd
      rintro a' connID (⟨hk', _, hg, hc'⟩ | ⟨hk', _, _, hu⟩ | ⟨hk', _⟩)
      · rw [hk] at hk'
        cases hk'
        exact hc (hone a' hg ▸ hc')
      · simp only [did_cons, Sigma.mk.injEq, reduceCtorEq, false_and, false_or] at hu
        simpa using hs.did rfl hu
      · rw [hk] at hk'
        cases hk'
    · rcases res with old | _ | _
      · refine wp_connectorLogin hQ (fun hm => .set hk hm ?_ mem_cons_self) ?_
        · simp
        · intro resp
          simpa using hw resp
      · exact wp_renderError hQ _ _
      · exact wp_renderError hQ _ _
  · exact wp_connectorLogin hQ (fun hm => .same hk hm (by simp) (not_not.mp hc)) hw

theorem wp_finishCallback {res} (hv : LoginVia req past a connID)
    (hw : Unwritten past) (ha : ∀ identity, res = .ok identity → Answered past connID a.id identity) :
    (finishCallback a res).wp (contract S req) Q past := by
  rcases res with e | identity
  · exact wp_renderError hQ _ _
  · exact wp_finalizeLogin hQ hv (ha identity rfl) hw

theorem wp_connectorCallback {r} (hk : req.kind = .connectorCallback r) :
    (connectorCallback r a).wp (contract S req) Q [⟨.getAuthRequest r.authID, .ok a⟩] := by
  unfold connectorCallback
  refine wp_seq (wp_getConnector _) fun p1 res hs => ?_
  have hv : LoginVia req p1 a a.connectorID :=
    .callback hk (did.mono mem_cons_self hs.sublist)
  have hw : Unwritten p1 := fun resp hd => by simpa using hs.did rfl hd
  rcases res with e | conn
  · exact wp_renderError hQ _ _
  dsimp only
  split_ifs
  · exact wp_renderError hQ _ _
  · refine wp_step trivial fun res _ => wp_finishCallback hQ (hv.mono (.cons _ (.refl _))) ?_ ?_
    · intro resp
      simpa using hw resp
    · rintro identity rfl
      exact .inr (.inl ⟨_, mem_cons_self⟩)
  · exact wp_renderError hQ _ _
  · refine wp_step trivial fun res _ => wp_finishCallback hQ (hv.mono (.cons _ (.refl _))) ?_ ?_
    · intro resp
      simpa using hw resp
    · rintro identity rfl
      exact .inr (.inr ⟨_, _, mem_cons_self⟩)
  · exact wp_renderError hQ _ _

theorem wp_handleConnectorCallback {r} (hk : req.kind = .connectorCallback r) :
    (handleConnectorCallback r).wp (contract S req) Q [] := by
  unfold handleConnectorCallback
  split_ifs
  · exact wp_renderError hQ _ _
  · exact wp_renderError hQ _ _
  refine wp_step trivial fun res _ => ?_
  rcases res with e | a
  · cases e <;> exact wp_renderError hQ _ _
  dsimp only
  split_ifs
  · exact wp_renderError hQ _ _
  · exact wp_connectorCallback hQ hk

theorem wp_redirectCode (a : AuthRequest) (accessToken : String) (res : CodeResponse) :
    (redirectCode a accessToken res).wp (contract S req) Q past := by
  unfold redirectCode
  dsimp only
  split_ifs
  · split
    · exact wp_step trivial fun t _ => wp_write hQ _ trivial
    · exact wp_write hQ _ trivial
  · exact wp_write hQ _ trivial

/-- The loop keeps three facts: the request was sent for, every code so far got
an ID of its own, and there are no more codes than `code` types were read. -/
theorem wp_respond (accessToken : String) (types : List String) (res : CodeResponse)
    (hs : Sends S req past r a) (hcodes : ∀ c' r', did past (.createAuthCode c') r' → did past .newID c'.id)
    (hcount : past.countP createsCode + types.count responseTypeCode ≤ a.responseTypes.count responseTypeCode) :
    (respond (S.config req.inst) a accessToken types res).wp (contract S req) Q past := by
  induction types generalizing res past with
  | nil => exact wp_redirectCode hQ _ _ _
  | cons responseType rest ih =>
    have hrest : rest.count responseTypeCode ≤ (responseType :: rest).count responseTypeCode :=
      count_le_count_cons
    unfold respond
    split
    · rename_i hcode
      rw [hcode, count_cons_self] at hcount
      refine wp_step trivial fun id hid => wp_step trivial fun t _ => ?_
      have hs' := hs.mono (.cons ⟨.now, t⟩ (.cons ⟨.newID, id⟩ (.refl _)))
      refine wp_step ⟨r, a, t, hs', rfl, by simp [authCodeOf], ?_, ?_⟩ fun res' _ => ?_
      · intro c' r' hd heq
        simp only [did_cons, Sigma.mk.injEq, reduceCtorEq, false_and, false_or] at hd
        have heq : c'.id = id := heq
        exact hid (heq ▸ hcodes c' r' hd)
      · change past.countP createsCode < _
        omega
      · rcases res' with e | _
        · exact wp_renderError hQ _ _
        dsimp only
        split
        · exact wp_write hQ _ trivial
        · refine ih _ (hs'.mono (.cons _ (.refl _))) ?_ ?_
          · intro c' r' hd
            simp only [did_cons, Sigma.mk.injEq, Op.createAuthCode.injEq, reduceCtorEq, false_and,
              false_or] at hd ⊢
            rcases hd with ⟨rfl, _⟩ | hd
            · exact .inl (by simp [authCodeOf])
            · exact .inr (hcodes c' r' hd)
          · rw [countP_cons_of_pos rfl]
            change past.countP createsCode + 1 + rest.count responseTypeCode ≤ _
            omega
    split
    · exact ih _ hs hcodes (by omega)
    split
    · refine wp_seq (wp_newIDToken (.approval hs)) fun p1 res' hq => ?_
      rcases res' with e | idToken
      · exact wp_write hQ _ trivial
      · refine ih _ (hs.mono hq.sublist) (fun c' r' hd => ?_) ?_
        · exact (hcodes c' r' (hq.did rfl hd)).mono hq.sublist
        · rw [countP_createsCode_since hq]
          omega
    · exact ih _ hs hcodes (by omega)

theorem wp_sendCodeResponse (hk : req.kind = .approval r) (hl : a.loggedIn = true)
    (ha : (r.method = .post ∧ r.approval = "approve") ∨
      (r.method = .get ∧ (S.config req.inst).skipApproval = true)) :
    (sendCodeResponse (S.config req.inst) a).wp (contract S req) Q [⟨.getAuthRequest r.req, .ok a⟩] := by
  unfold sendCodeResponse
  refine wp_step trivial fun t _ => ?_
  dsimp only
  split_ifs with ht
  · exact wp_renderError hQ _ _
  have happ : Approves S req [⟨.now, t⟩, ⟨.getAuthRequest r.req, .ok a⟩] r a :=
    ⟨hk, hl, ha, t, Int.not_lt.mp ht, .cons mem_cons_self⟩
  refine wp_step ⟨r, a, happ, rfl⟩ fun res _ => ?_
  rcases res with e | _
  · cases e <;> exact wp_renderError hQ _ _
  dsimp only
  split
  · exact wp_renderError hQ _ _
  refine wp_step trivial fun accessToken _ => wp_respond (r := r) hQ _ _ _ ?_ ?_ ?_
  · exact { happ.mono (.cons _ (.cons _ (.refl _))) with deleted := by simp }
  · intro c' r' hd
    simp at hd
  · exact Nat.le_of_eq (Nat.zero_add _)

theorem wp_handleApproval (hk : req.kind = .approval r) :
    (handleApproval (S.config req.inst) r).wp (contract S req) Q [] := by
  unfold handleApproval
  refine wp_step trivial fun res _ => ?_
  rcases res with e | a
  · exact wp_renderError hQ _ _
  dsimp only
  split
  · exact wp_renderError hQ _ _
  rename_i hl
  have hl : a.loggedIn = true := by simpa using hl
  split
  · rename_i hm
    split
    · rename_i hskip
      exact wp_sendCodeResponse hQ hk hl (.inr ⟨hm, hskip⟩)
    · refine wp_step trivial fun res _ => ?_
      rcases res with e | client <;> exact wp_write hQ _ trivial
  · rename_i hm
    split
    · exact wp_renderError hQ _ _
    · rename_i happ
      exact wp_sendCodeResponse hQ hk hl (.inl ⟨hm, not_not.mp happ⟩)
  · exact wp_ret (hQ _)

end

end KubeYamls.Dex
