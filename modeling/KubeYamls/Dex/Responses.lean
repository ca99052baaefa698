import KubeYamls.Dex.Revocation

/-! # How often a token request is answered

`handleToken` has one error exit for nearly every call it makes. Two of them do
not end the handler: `reqRefresh` reports that the connector cannot be found and
returns to `handleAuthCode`, which goes on to write the tokens, and the deferred
function reports that it could not delete the refresh token after an error was
reported already. A third way out writes nothing: the updater of the session
panics. These are all. -/
namespace KubeYamls.Dex
open Data Conc Prog List

/-! ## What an execution has written -/

/-- The bodies written to the client, newest first. -/
def responses (past : Past) : List Response := past.filterMap fun e =>
  match e with
  | ⟨.write resp, _⟩ => some resp
  | _ => none

/-- An error object or a token response. -/
def answersToken : Response → Bool
  | .tokenErr _ _ _ | .token _ => true
  | _ => false

/-- The client got one body, an error object or a token response. -/
def answeredOnce (past : Past) : Bool :=
  match responses past with
  | [resp] => answersToken resp
  | _ => false

/-! ## What can go wrong -/

def connectorFails : Ev sig → Bool
  | ⟨.getConnector _, .error _⟩ | ⟨.openConnector _, .error _⟩ => true
  | _ => false

def deletesCode : Ev sig → Bool
  | ⟨.deleteAuthCode _, .ok _⟩ => true
  | _ => false

def deletionFails : Ev sig → Bool
  | ⟨.deleteRefresh _, .error _⟩ => true
  | _ => false

/-- The last call of the execution that is no answer was a deletion that failed. -/
def cleanupFails (past : Past) : Bool := (past.find? fun e => !replied e).any deletionFails

/-- None of the three happened. -/
structure Uneventful (past : Past) : Prop where
  connector : ¬ ((∃ e ∈ past, deletesCode e = true) ∧ ∃ e ∈ past, connectorFails e = true)
  cleanup : cleanupFails past = false
  session : ¬ ∃ e ∈ past, panicked e = true

/-- An execution that has ended answered once exactly if it was not disturbed. -/
def OnceIfUneventful (past : Past) : Prop := answeredOnce past = true ↔ Uneventful past

/-! ## Two parts of an execution -/

/-- Calls before anything is deleted. -/
def calm (e : Ev sig) : Bool := !replied e && !deletesCode e && !deletionFails e && !panicked e

/-- Calls after the code was deleted, as long as all goes well with the connector. -/
def fine (e : Ev sig) : Bool := !replied e && !connectorFails e && !panicked e

def Calm (past : Past) : Prop := ∀ e ∈ past, calm e = true

def Fine (past : Past) : Prop := ∀ e ∈ past, fine e = true

section
variable {past : Past} {o : Op} {r : Res o} {resp : Response}

theorem Calm.cons (h : Calm past) (he : calm ⟨o, r⟩ = true) : Calm (⟨o, r⟩ :: past) :=
  forall_mem_cons.mpr ⟨he, h⟩

theorem Fine.cons (h : Fine past) (he : fine ⟨o, r⟩ = true) : Fine (⟨o, r⟩ :: past) :=
  forall_mem_cons.mpr ⟨he, h⟩

theorem responses_write : responses (⟨.write resp, ()⟩ :: past) = resp :: responses past := rfl

theorem responses_other (h : replied ⟨o, r⟩ = false) : responses (⟨o, r⟩ :: past) = responses past := by
  cases o with
  | write => cases h
  | _ => rfl

theorem responses_eq_nil (h : ∀ e ∈ past, replied e = false) : responses past = [] := by
  induction past with
  | nil => rfl
  | cons e past ih =>
    obtain ⟨he, hrest⟩ := forall_mem_cons.mp h
    exact (responses_other he).trans (ih hrest)

theorem Calm.spec {e} (h : Calm past) (he : e ∈ past) :
    replied e = false ∧ deletesCode e = false ∧ deletionFails e = false ∧ panicked e = false := by
  simpa [calm, and_assoc] using h e he

theorem Fine.spec {e} (h : Fine past) (he : e ∈ past) :
    replied e = false ∧ connectorFails e = false ∧ panicked e = false := by
  simpa [fine, and_assoc] using h e he

theorem Calm.uneventful (h : Calm past) : Uneventful past where
  connector := by
    rintro ⟨⟨e, he, hd⟩, _⟩
    cases (h.spec he).2.1.symm.trans hd
  cleanup := by
    unfold cleanupFails
    cases hf : past.find? fun e => !replied e with
    | none => rfl
    | some e => exact (h.spec (mem_of_find?_eq_some hf)).2.2.1
  session := by
    rintro ⟨e, he, hp⟩
    cases (h.spec he).2.2.2.symm.trans hp

theorem uneventful_of_connected (h : ∀ e ∈ past, connectorFails e = false ∧ panicked e = false)
    (hc : cleanupFails past = false) : Uneventful past where
  connector := by
    rintro ⟨_, e, he, hf⟩
    cases (h e he).1.symm.trans hf
  cleanup := hc
  session := by
    rintro ⟨e, he, hp⟩
    cases (h e he).2.symm.trans hp

theorem uneventful_write : Uneventful (⟨.write resp, ()⟩ :: past) ↔ Uneventful past := by
  have hany (p : Ev sig → Bool) (hp : p ⟨.write resp, ()⟩ = false) :
      (∃ e ∈ (⟨.write resp, ()⟩ :: past : Past), p e = true) ↔ ∃ e ∈ past, p e = true := by
    simp [hp]
  have hcleanup : cleanupFails (⟨.write resp, ()⟩ :: past) = cleanupFails past := rfl
  constructor
  · rintro ⟨hc, hd, hs⟩
    rw [hany _ rfl, hany _ rfl] at hc
    rw [hany _ rfl] at hs
    exact ⟨hc, hcleanup ▸ hd, hs⟩
  · rintro ⟨hc, hd, hs⟩
    refine ⟨?_, hcleanup.trans hd, ?_⟩
    · rwa [hany _ rfl, hany _ rfl]
    · rwa [hany _ rfl]

/-! ## The ends of an execution -/

theorem once_of_write (hr : ∀ e ∈ past, replied e = false) (hu : Uneventful past)
    (ha : answersToken resp = true) : OnceIfUneventful (⟨.write resp, ()⟩ :: past) := by
  refine iff_of_true ?_ (uneventful_write.mpr hu)
  rw [answeredOnce, responses_write, responses_eq_nil hr]
  exact ha

theorem not_once_of_two {a b l} (h : responses past = a :: b :: l) : ¬ answeredOnce past = true := by
  rw [answeredOnce, h]
  exact Bool.false_ne_true

theorem Calm.once (h : Calm past) (ha : answersToken resp = true) :
    OnceIfUneventful (⟨.write resp, ()⟩ :: past) :=
  once_of_write (fun _ he => (h.spec he).1) h.uneventful ha

theorem Fine.once (h : Fine past) (hc : cleanupFails past = false) (ha : answersToken resp = true) :
    OnceIfUneventful (⟨.write resp, ()⟩ :: past) :=
  once_of_write (fun _ he => (h.spec he).1) (uneventful_of_connected (fun _ he => (h.spec he).2) hc) ha

end

/-! ## The refresh, up to its two updates

Whatever is to be shown of `handleRefreshToken`, it is a question of its last two
storage calls: those before them change nothing, and each may end it with an error. -/

/-- The calls of `handleRefreshToken` before its two updates. -/
def preparing : Op → Bool
  | .newID | .getRefresh _ | .refreshIdentity _ _ _ => true
  | o => quiet o

theorem preparing_of_quiet {o} (h : quiet o = true) : preparing o = true := by
  cases o <;> first | rfl | cases h

section
variable {C : Contract sig} {I : Past → Prop} {Q : Past → Unit → Prop} {past : Past}
  (hd : ∀ past o, C.duty past o)
  (hprep : ∀ past o (r : Res o), preparing o = true → I past → I (⟨o, r⟩ :: past))
  (herr : ∀ past typ description status, I past →
    Q (⟨.write (.tokenErr typ description status), ()⟩ :: past) ())
  (hclaim : ∀ past refresh ident idToken expiry accessToken newToken rawNewToken, I past →
    (claimRefresh refresh ident idToken expiry accessToken newToken rawNewToken).wp C Q past)

include hd herr in
theorem wp_tokenErr_of (h : I past) (typ description : String) (status : Nat) :
    (tokenErrHelper typ description status).wp C Q past :=
  wp_op (hd _ _) fun _ _ => herr _ _ _ _ h

include hd hprep herr hclaim

theorem wp_reissue_of (h : I past) (c : Config) (client : Client) (refresh : RefreshToken)
    (scopes : List String) (ident : Identity) : (reissue c client refresh scopes ident).wp C Q past := by
  refine wp_step (hd _ _) fun accessToken _ => ?_
  refine wp_seq ((newIDToken_only _ _ _ _ _ _ _).wp_keeps (fun _ _ _ => hd _ _)
    (fun _ _ _ ho h => hprep _ _ _ (preparing_of_quiet (quiet_of_minting ho)) h)
    (hprep _ _ _ rfl h)) ?_
  intro past' res h
  rcases res with e | ⟨idToken, expiry⟩
  · exact wp_tokenErr_of hd herr h _ _ _
  refine wp_step (hd _ _) fun newToken _ => wp_step (hd _ _) fun res _ => ?_
  have h' := hprep _ (.marshal refresh.id newToken) res rfl (hprep _ .newID newToken rfl h)
  rcases res with e | raw
  · exact wp_tokenErr_of hd herr h' _ _ _
  · exact hclaim _ _ _ _ _ _ _ _ h'

theorem wp_refreshIdentity_of (h : I past) (c : Config) (client : Client) (refresh : RefreshToken)
    (scopes : List String) : (refreshIdentity c client refresh scopes).wp C Q past := by
  refine wp_seq ((getConnector_only _).wp_keeps (fun _ _ _ => hd _ _)
    (fun _ _ _ ho h => hprep _ _ _ (preparing_of_quiet (quiet_of_connecting ho)) h) h) ?_
  intro past' res h
  rcases res with e | conn
  · exact wp_tokenErr_of hd herr h _ _ _
  dsimp only
  split
  · refine wp_step (hd _ _) fun res _ => ?_
    rcases res with e | ident
    · exact wp_tokenErr_of hd herr (hprep _ _ _ rfl h) _ _ _
    · exact wp_reissue_of hd hprep herr hclaim (hprep _ _ _ rfl h) _ _ _ _ _
  · exact wp_reissue_of hd hprep herr hclaim h _ _ _ _ _

theorem wp_handleRefreshToken_of (h : I past) (c : Config) (codec : Codec) (r : TokenRequest)
    (client : Client) : (handleRefreshToken c codec r client).wp C Q past := by
  unfold handleRefreshToken
  split
  · exact wp_tokenErr_of hd herr h _ _ _
  refine wp_step (hd _ _) fun res _ => ?_
  have h' := hprep past (.getRefresh (decodeRefresh codec r.refreshToken).1) res rfl h
  rcases res with e | refresh
  · cases e <;> exact wp_tokenErr_of hd herr h' _ _ _
  dsimp only
  split_ifs
  · exact wp_tokenErr_of hd herr h' _ _ _
  · exact wp_tokenErr_of hd herr h' _ _ _
  · exact wp_tokenErr_of hd herr h' _ _ _
  · exact wp_refreshIdentity_of hd hprep herr hclaim h' _ _ _ _

end

/-! ## The handlers -/

/-- Calls get the replies that they can get at all. -/
def possible (codec : Codec) : Contract sig where
  duty _ _ := True
  grant _ o r := ∃ inst ans w w', exec codec inst o ans w = some (r, w')

section
variable {codec : Codec} {past : Past}

theorem once_tokenErr (h : Calm past) (typ description : String) (status : Nat) :
    (tokenErrHelper typ description status).wp (possible codec) (fun past _ => OnceIfUneventful past) past :=
  wp_op trivial fun _ _ => h.once rfl

theorem once_tokenErr_fine (h : Fine past) (hc : cleanupFails past = false) (typ description : String)
    (status : Nat) : (tokenErrHelper typ description status).wp (possible codec)
      (fun past _ => OnceIfUneventful past) past :=
  wp_op trivial fun _ _ => h.once hc rfl

/-- The clock is read before the answer, so no deletion comes right before it. -/
theorem once_writeAccessToken (h : Fine past) (idToken : IDToken) (accessToken refreshToken : String)
    (expiry : Time) : (writeAccessToken idToken accessToken refreshToken expiry).wp (possible codec)
      (fun past _ => OnceIfUneventful past) past :=
  wp_step trivial fun _ _ => wp_step trivial fun _ _ => wp_op trivial fun _ _ =>
    ((h.cons rfl).cons rfl).once rfl rfl

theorem once_discardRefresh (h : Fine past) (x : RefreshToken) :
    (discardRefresh x).wp (possible codec) (fun past _ => OnceIfUneventful past) past := by
  refine wp_step trivial fun _ _ => wp_step trivial fun res _ => ?_
  rcases res with e | _
  · -- the second answer, and the disturbance that goes with it
    refine wp_op trivial fun _ _ => iff_of_false (not_once_of_two rfl) fun hu => ?_
    cases hu.cleanup
  · refine wp_ret (iff_of_true ?_ (uneventful_of_connected ?_ rfl))
    · rw [answeredOnce, responses_other rfl, responses_write, responses_eq_nil fun e he => (h.spec he).1]
      rfl
    · intro e he
      rcases mem_cons.mp he with rfl | he
      · exact ⟨rfl, rfl⟩
      rcases mem_cons.mp he with rfl | he
      · exact ⟨rfl, rfl⟩
      · exact (h.spec he).2

theorem setTokenRef_outcome {u c ref}
    (hp : (possible codec).grant past (.updateOfflineSessions u c (setTokenRef ref)) .panic) : False := by
  obtain ⟨inst, ans, w, w', hx⟩ := hp
  obtain ⟨old, _, hf⟩ := exec_updateOfflineSessions_panic hx
  cases hf

section
variable {finish : Handler Unit} (hfinish : ∀ {past}, Fine past →
  finish.wp (possible codec) (fun past _ => OnceIfUneventful past) past)
include hfinish

theorem once_replaceRef (h : Fine past) (x : RefreshToken) (session : OfflineSessions) :
    (replaceRef x session finish).wp (possible codec) (fun past _ => OnceIfUneventful past) past := by
  refine wp_step trivial fun res hres => ?_
  rcases res with _ | _ | _
  · exact hfinish (h.cons rfl)
  · exact once_discardRefresh (h.cons rfl) x
  · exact (setTokenRef_outcome hres).elim

theorem once_storeRef (h : Fine past) (x : RefreshToken) :
    (storeRef x finish).wp (possible codec) (fun past _ => OnceIfUneventful past) past := by
  refine wp_step trivial fun res _ => ?_
  rcases res with (_ | _ | _) | session
  · refine wp_step trivial fun res _ => ?_
    rcases res with e | _
    · exact once_discardRefresh ((h.cons rfl).cons rfl) x
    · exact hfinish ((h.cons rfl).cons rfl)
  · exact once_discardRefresh (h.cons rfl) x
  · exact once_discardRefresh (h.cons rfl) x
  · dsimp only
    split
    · refine wp_step trivial fun res _ => ?_
      rcases res with e | _
      · exact once_discardRefresh ((h.cons rfl).cons rfl) x
      · exact once_replaceRef hfinish ((h.cons rfl).cons rfl) x session
    · exact once_replaceRef hfinish (h.cons rfl) x session

end

theorem fine_openConnector (h : Fine past) (conn : StorageConnector) :
    (openConnector conn).wp (possible codec) (fun past' r => (∀ c, r = .ok c → Fine past') ∧
      ∀ e, r = .error e → ∃ e ∈ past', connectorFails e = true) past := by
  unfold openConnector
  split
  · exact wp_step trivial fun _ _ => wp_ret ⟨fun _ _ => h.cons rfl, by simp⟩
  · refine wp_step trivial fun res _ => ?_
    rcases res with e | impl
    · exact wp_ret ⟨by simp, fun _ _ => ⟨_, mem_cons_self, rfl⟩⟩
    · exact wp_step trivial fun _ _ => wp_ret ⟨fun _ _ => (h.cons rfl).cons rfl, by simp⟩

theorem fine_getConnector (h : Fine past) (id : String) :
    (getConnector id).wp (possible codec) (fun past' r => (∀ c, r = .ok c → Fine past') ∧
      ∀ e, r = .error e → ∃ e ∈ past', connectorFails e = true) past := by
  refine wp_step trivial fun res _ => ?_
  rcases res with e | conn
  · exact wp_ret ⟨by simp, fun _ _ => ⟨_, mem_cons_self, rfl⟩⟩
  refine wp_step trivial fun res _ => ?_
  rcases res with _ | loaded
  · exact fine_openConnector ((h.cons rfl).cons rfl) conn
  · dsimp only
    split
    · exact wp_ret ⟨fun _ _ => (h.cons rfl).cons rfl, by simp⟩
    · exact fine_openConnector ((h.cons rfl).cons rfl) conn

theorem once_redeem (h : Fine past) (hcode : ∃ e ∈ past, deletesCode e = true) (authCode : AuthCode)
    (idToken : IDToken) (expiry : Time) (accessToken : String) :
    (redeem authCode idToken expiry accessToken).wp (possible codec)
      (fun past _ => OnceIfUneventful past) past := by
  unfold redeem reqRefresh
  rw [wp_bind]
  refine wp_seq (wp_extends (fine_getConnector h authCode.connectorID)) ?_
  rintro past' r ⟨⟨hok, herr⟩, l, hl⟩
  rcases r with e | conn
  · -- the error is reported, and the tokens are handed out all the same
    refine wp_step trivial fun _ _ => wp_step trivial fun _ _ => wp_step trivial fun _ _ =>
      wp_op trivial fun _ _ => iff_of_false (not_once_of_two rfl) fun hu => ?_
    obtain ⟨e, he, hfails⟩ := herr e rfl
    obtain ⟨d, hd, hdeletes⟩ := hcode
    have hd' : d ∈ past' := hl ▸ mem_append_right l hd
    exact hu.connector ⟨⟨d, by simp [hd'], hdeletes⟩, e, by simp [he], hfails⟩
  have h' := hok conn rfl
  dsimp only
  split
  · exact once_writeAccessToken h' _ _ _ _
  refine wp_ret ?_
  split
  · refine wp_step trivial fun id _ => wp_step trivial fun token _ => wp_step trivial fun t1 _ =>
      wp_step trivial fun t2 _ => wp_step trivial fun res _ => ?_
    have hdrawn : Fine (⟨.now, t2⟩ :: ⟨.now, t1⟩ :: ⟨.newID, token⟩ :: ⟨.newID, id⟩ :: past') :=
      (((h'.cons rfl).cons rfl).cons rfl).cons rfl
    rcases res with e | raw
    · exact once_tokenErr_fine (hdrawn.cons rfl) rfl _ _ _
    refine wp_step trivial fun res _ => ?_
    rcases res with e | _
    · exact once_tokenErr_fine ((hdrawn.cons rfl).cons rfl) rfl _ _ _
    · exact once_storeRef (fun h => once_writeAccessToken h _ _ _ _) ((hdrawn.cons rfl).cons rfl) _
  · exact once_writeAccessToken h' _ _ _ _

theorem calm_of_preparing {o} (h : preparing o = true) (r : Res o) : calm ⟨o, r⟩ = true := by
  cases o <;> first | rfl | cases h

theorem fine_of_minting {o} (h : minting o = true) (r : Res o) : fine ⟨o, r⟩ = true := by
  cases o <;> first | rfl | cases h

theorem once_exchange (hc : Calm past) (hf : Fine past) (c : Config) (client : Client) (code : String)
    (authCode : AuthCode) :
    (exchange c client code authCode).wp (possible codec) (fun past _ => OnceIfUneventful past) past := by
  refine wp_step trivial fun accessToken _ => ?_
  refine wp_seq ((newIDToken_only _ _ _ _ _ _ _).wp_keeps (I := fun past => Calm past ∧ Fine past)
    (fun _ _ _ => trivial) ?_ ⟨hc.cons rfl, hf.cons rfl⟩) ?_
  · rintro past' o r ho ⟨hc, hf⟩
    exact ⟨hc.cons (calm_of_preparing (preparing_of_quiet (quiet_of_minting ho)) r), hf.cons (fine_of_minting ho r)⟩
  rintro past' res ⟨hc, hf⟩
  rcases res with e | ⟨idToken, expiry⟩
  · exact once_tokenErr hc _ _ _
  refine wp_step trivial fun res _ => ?_
  rcases res with e | _
  · exact once_tokenErr (hc.cons rfl) _ _ _
  · exact once_redeem (hf.cons rfl) ⟨_, mem_cons_self, rfl⟩ _ _ _ _

theorem once_handleAuthCode (hc : Calm past) (hf : Fine past) (c : Config) (r : TokenRequest) (client : Client) :
    (handleAuthCode c r client).wp (possible codec) (fun past _ => OnceIfUneventful past) past := by
  refine wp_step trivial fun res _ => ?_
  rcases res with e | authCode
  · cases e <;> exact once_tokenErr (hc.cons rfl) _ _ _
  refine wp_step trivial fun t _ => ?_
  dsimp only
  split_ifs
  · exact once_tokenErr ((hc.cons rfl).cons rfl) _ _ _
  · exact once_tokenErr ((hc.cons rfl).cons rfl) _ _ _
  · exact once_exchange ((hc.cons rfl).cons rfl) ((hf.cons rfl).cons rfl) _ _ _ _

theorem once_claimRefresh (hc : Calm past) (refresh : RefreshToken) (ident : Identity)
    (idToken : IDToken) (expiry : Time) (accessToken newToken rawNewToken : String) :
    (claimRefresh refresh ident idToken expiry accessToken newToken rawNewToken).wp (possible codec)
      (fun past _ => OnceIfUneventful past) past := by
  refine wp_step trivial fun lastUsed _ => wp_step trivial fun res _ => ?_
  rcases res with old | e | _
  · refine wp_step trivial fun res _ => ?_
    rcases res with _ | _ | _
    · exact wp_step trivial fun _ _ => wp_step trivial fun _ _ => wp_op trivial fun _ _ =>
        (((((hc.cons rfl).cons rfl).cons rfl).cons rfl).cons rfl).once rfl
    · exact once_tokenErr (((hc.cons rfl).cons rfl).cons rfl) _ _ _
    · exact once_tokenErr (((hc.cons rfl).cons rfl).cons rfl) _ _ _
  · exact once_tokenErr ((hc.cons rfl).cons rfl) _ _ _
  · -- nothing is written after the panic
    refine wp_ret (iff_of_false ?_ fun hu => hu.session ⟨_, mem_cons_self, rfl⟩)
    rw [answeredOnce, responses_other rfl, responses_other rfl, responses_eq_nil fun e he => (hc.spec he).1]
    exact Bool.false_ne_true

theorem once_handleRefreshToken (hc : Calm past) (c : Config) (codec' : Codec) (r : TokenRequest)
    (client : Client) : (handleRefreshToken c codec' r client).wp (possible codec)
      (fun past _ => OnceIfUneventful past) past :=
  wp_handleRefreshToken_of (fun _ _ => trivial) (fun _ _ r ho hc => hc.cons (calm_of_preparing ho r))
    (fun _ _ _ _ hc => hc.once rfl) (fun _ _ _ _ _ _ _ _ hc => once_claimRefresh hc _ _ _ _ _ _ _)
    hc c codec' r client

theorem once_handleToken (c : Config) (codec' : Codec) (r : TokenRequest) :
    (handleToken c codec' r).wp (possible codec) (fun past _ => OnceIfUneventful past) [] := by
  have hc : Calm [] := by simp [Calm]
  have hf : Fine [] := by simp [Fine]
  unfold handleToken
  split
  · exact once_tokenErr hc _ _ _
  refine wp_step trivial fun res _ => ?_
  rcases res with e | client
  · cases e <;> exact once_tokenErr (hc.cons rfl) _ _ _
  dsimp only
  split_ifs
  · exact once_tokenErr (hc.cons rfl) _ _ _
  · exact once_handleAuthCode (hc.cons rfl) (hf.cons rfl) _ _ _
  · exact once_handleRefreshToken (hc.cons rfl) _ _ _ _
  · exact once_tokenErr (hc.cons rfl) _ _ _

end

/-! ## Runs -/

/-- What `handleToken` leads to whatever replies it gets, holds of every token request
that has been served. -/
theorem Reach.token_end {S} {s : Sys (dex S)} {Init} (h : Reach Init s) {tid r} (hreq : tokenRequest s tid = some r) (hfin : finished s tid = true)
    {Q : Past → Prop} (hQ : ∀ c, (handleToken c S.codec r).wp (possible S.codec) (fun past _ => Q past) []) :
    Q (past tid s.hist) := by
  obtain ⟨inst, p, hth⟩ := thread_of_tokenRequest hreq
  have hret := ret_of_finished hth hfin
  subst hret
  have hwp := h.contract (C := fun _ => possible S.codec)
    (Q := fun (req : Request) past _ => req.kind = .token r → Q past) ?_ ?_ tid _ hth
  · exact hwp rfl
  · rintro ⟨inst, kind⟩
    by_cases hk : kind = .token r
    · subst hk
      exact wp_mono (hQ _) fun _ _ hq _ => hq
    · exact wp_mono (wp_free (fun _ _ => trivial) _) fun _ _ _ heq => absurd heq hk
  · intro s tid req o k ans r w _ _ hx
    exact ⟨req.inst, ans, s.world, w, hx⟩

/-- In every run, a token request that has been served was answered with one body,
an error object or a token response, exactly if none of the three disturbances
happened to it. -/
theorem answeredOnce_iff (S : Setup) (s : Sys (dex S)) (h : Reach (fun _ => True) s) (tid : Nat)
    (r : TokenRequest) (hreq : tokenRequest s tid = some r) (hfin : finished s tid = true) :
    answeredOnce (past tid s.hist) = true ↔ Uneventful (past tid s.hist) :=
  Reach.token_end h hreq hfin fun c => once_handleToken c S.codec r

def reportsError : Response → Bool
  | .tokenErr _ _ _ => true
  | _ => false

/-- The connector of a code is gone when the code is redeemed. -/
@[irreducible] def unconnectedRun : Sys (dex demo) := .after demoWorld <|
  obtainCode 0 "c" "openid offline_access" offlineA ++ exchangeCode 3 "c" "at" ++
  going 3 (.plain :: .fail :: plains 4)

/-- The session cannot be read, and then the new refresh token cannot be deleted. -/
@[irreducible] def leftoverRun : Sys (dex demo) := .after demoWorld <|
  obtainCode 0 "c" "openid offline_access" offlineA ++ exchangeCode 3 "c" "at" ++
  storeRefresh 3 "x" "x1" ++ going 3 [.fail, .plain, .fail, .plain]

/-- An error and then the tokens, an error and then another, and no answer. -/
theorem answered_otherwise :
    (Reach (fun _ => True) unconnectedRun ∧ tokenRequest unconnectedRun 3 = some (codeRequest "c") ∧
      finished unconnectedRun 3 = true ∧
      (responses (past 3 unconnectedRun.hist)).map reportsError = [false, true]) ∧
    (Reach (fun _ => True) leftoverRun ∧ tokenRequest leftoverRun 3 = some (codeRequest "c") ∧
      finished leftoverRun 3 = true ∧ (responses (past 3 leftoverRun.hist)).map reportsError = [true, true]) ∧
    (Reach (fun _ => True) crashedRun ∧ tokenRequest crashedRun 4 = some (refreshRequest "x" "x1") ∧
      finished crashedRun 4 = true ∧ responses (past 4 crashedRun.hist) = []) := by
  refine ⟨⟨?_, ?_⟩, ⟨?_, ?_⟩, ?_, ?_⟩
  · unfold unconnectedRun
    exact .after trivial _
  · decide +kernel
  · unfold leftoverRun
    exact .after trivial _
  · decide +kernel
  · unfold crashedRun
    exact .after trivial _
  · decide +kernel

/-- Alice's first refresh token: one answer, and no disturbance. -/
@[irreducible] def plainRun : Sys (dex demo) := .after demoWorld obtainRefresh

theorem answeredOnce_plainRun : tokenRequest plainRun 3 = some (codeRequest "c") ∧
    finished plainRun 3 = true ∧ answeredOnce (past 3 plainRun.hist) = true ∧
    Uneventful (past 3 plainRun.hist) := by
  obtain ⟨hreq, hfin, honce⟩ : tokenRequest plainRun 3 = some (codeRequest "c") ∧
      finished plainRun 3 = true ∧ answeredOnce (past 3 plainRun.hist) = true := by
    decide +kernel
  have h : Reach (fun _ => True) plainRun := by
    unfold plainRun
    exact .after trivial _
  exact ⟨hreq, hfin, honce, (answeredOnce_iff demo plainRun h 3 _ hreq hfin).mp honce⟩

end KubeYamls.Dex
