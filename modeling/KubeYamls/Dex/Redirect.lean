import KubeYamls.Dex.Provenance

/-! # The redirect URI at the two endpoints

The form value that `parseAuthorizationRequest` reads has been decoded already,
and it is decoded once more before it is compared with the registered URIs and
stored; the token endpoint compares it as it is. The two agree on the URIs that
a second decoding leaves alone. -/
namespace KubeYamls.Dex
open Conc Prog List Option

/-! ## Text and its bytes -/

theorem text_eq_some {b s} : text b = some s ↔ b = bytes s := by
  constructor
  · intro h
    unfold text String.fromUTF8? at h
    split at h
    · cases h
      rfl
    · cases h
  · rintro rfl
    exact text_bytes s

/-- Only a character below 128 is encoded with a byte below 128. -/
theorem utf8EncodeChar_high {c} (hc : 128 ≤ c.toNat) {b} (hb : b ∈ String.utf8EncodeChar c) : 128 ≤ b.toNat := by
  have hv : c.toNat = c.val.toNat := rfl
  have hlt : ∀ n, n < 256 → (UInt8.ofNat n).toNat = n := fun n hn => UInt8.toNat_ofNat_of_lt' hn
  unfold String.utf8EncodeChar at hb
  dsimp only at hb
  split_ifs at hb with h1 h2 h3
  · omega
  all_goals simp only [mem_cons, not_mem_nil, or_false] at hb
  · rcases hb with hb | hb <;> rw [hb, hlt _ (by omega)] <;> omega
  · rcases hb with hb | hb | hb <;> rw [hb, hlt _ (by omega)] <;> omega
  · rcases hb with hb | hb | hb | hb <;> rw [hb, hlt _ (by omega)] <;> omega

theorem utf8EncodeChar_low {c} (hc : c.toNat < 128) : String.utf8EncodeChar c = [UInt8.ofNat c.toNat] := by
  unfold String.utf8EncodeChar
  exact if_pos (Nat.le_of_lt_succ hc)

theorem mem_bytes {s c} (hc : c.toNat < 128) : UInt8.ofNat c.toNat ∈ bytes s ↔ c ∈ s.toList := by
  have hbyte : ∀ {d : Char}, d.toNat < 128 → (UInt8.ofNat d.toNat).toNat = d.toNat :=
    fun hd => UInt8.toNat_ofNat_of_lt' (Nat.lt_trans hd (by decide))
  rw [bytes_eq, mem_flatMap]
  constructor
  · rintro ⟨d, hd, hm⟩
    by_cases hlow : d.toNat < 128
    · rw [utf8EncodeChar_low hlow, mem_singleton] at hm
      have heq := congrArg UInt8.toNat hm
      rw [hbyte hc, hbyte hlow] at heq
      rwa [Char.toNat_inj.mp heq]
    · have hhigh := utf8EncodeChar_high (Nat.not_lt.mp hlow) hm
      rw [hbyte hc] at hhigh
      omega
  · intro hm
    exact ⟨c, hm, by rw [utf8EncodeChar_low hc]; exact mem_singleton_self _⟩

/-! ## What a decoding leaves alone -/

theorem unescapeQuery_plain {l} (h : 37 ∉ l ∧ 43 ∉ l) : unescapeQuery l = some l := by
  fun_induction unescapeQuery l with
  | case1 => rfl
  | case2 | case3 | case4 => simp at h
  | case5 b rest _ _ _ ih =>
    simp only [mem_cons, not_or] at h
    simp [ih ⟨h.1.2, h.2.2⟩]

theorem unescapeQuery_length {l m} (h : unescapeQuery l = some m) :
    m.length ≤ l.length ∧ (37 ∈ l → m.length < l.length) := by
  fun_induction unescapeQuery l generalizing m with
  | case1 => cases h; simp
  | case2 a b rest ih =>
    simp only [bind_eq_bind, bind_eq_some_iff] at h
    obtain ⟨hi, _, lo, _, r, hr, hm⟩ := h
    cases hm
    have hle := (ih hr).1
    simp only [length_cons]
    omega
  | case3 => cases h
  | case4 rest ih =>
    simp only [bind_eq_bind, bind_eq_some_iff] at h
    obtain ⟨r, hr, hm⟩ := h
    cases hm
    simpa using ih hr
  | case5 b rest _ hne _ ih =>
    simp only [bind_eq_bind, bind_eq_some_iff] at h
    obtain ⟨r, hr, hm⟩ := h
    cases hm
    obtain ⟨hle, hlt⟩ := ih hr
    refine ⟨Nat.succ_le_succ hle, fun hmem => Nat.succ_lt_succ (hlt ?_)⟩
    rcases mem_cons.mp hmem with rfl | hmem
    · exact (hne rfl).elim
    · exact hmem

theorem unescapeQuery_fixed {l} : unescapeQuery l = some l ↔ 37 ∉ l ∧ 43 ∉ l := by
  refine ⟨fun h => ?_, unescapeQuery_plain⟩
  have hpercent : 37 ∉ l := fun hm => Nat.lt_irrefl _ ((unescapeQuery_length h).2 hm)
  refine ⟨hpercent, ?_⟩
  -- without `%` the decoding is bytewise, and turns a `+` into a blank
  fun_induction unescapeQuery l with
  | case1 => simp
  | case2 a b rest ih => simp at hpercent
  | case3 => cases h
  | case4 rest ih =>
    simp only [bind_eq_bind, bind_eq_some_iff] at h
    obtain ⟨r, hr, hm⟩ := h
    simp at hm
  | case5 b rest _ _ hplus ih =>
    simp only [bind_eq_bind, bind_eq_some_iff] at h
    obtain ⟨r, hr, hm⟩ := h
    obtain rfl : r = rest := by simpa using hm
    have hrest := ih hr fun hm => hpercent (mem_cons_of_mem _ hm)
    simp [hrest, Ne.symm hplus]

theorem queryUnescape_fixed {u} : queryUnescape u = some u ↔ '%' ∉ u.toList ∧ '+' ∉ u.toList := by
  have hpercent := mem_bytes (s := u) (c := '%') (by decide)
  have hplus := mem_bytes (s := u) (c := '+') (by decide)
  have hdef : queryUnescape u = (unescapeQuery (bytes u)).bind text := rfl
  rw [← hpercent, ← hplus, hdef, bind_eq_some_iff]
  constructor
  · rintro ⟨m, hm, ht⟩
    rw [text_eq_some.mp ht] at hm
    exact unescapeQuery_fixed.mp hm
  · intro h
    exact ⟨bytes u, unescapeQuery_fixed.mpr h, text_bytes u⟩

/-! ## The two endpoints -/

section
variable {c : Config} {q : AuthorizationForm} {client : Client} {reply : (o : Op) → Res o}
  {uri uri' : String}

theorem checkResponseTypes_code {supported types rt rt'}
    (h : checkResponseTypes supported types rt = .ok rt') (hcode : ∀ t ∈ types, t = responseTypeCode) :
    rt'.token = rt.token := by
  induction types generalizing rt with
  | nil =>
    cases h
    rfl
  | cons t types ih =>
    obtain ⟨rfl, hrest⟩ := forall_mem_cons.mp hcode
    simp only [checkResponseTypes, if_true] at h
    split at h
    · have htoken : rt'.token = ({ rt with code := true } : ResponseTypes).token := ih h hrest
      exact htoken
    · cases h

theorem checkAuthorization_code {types chk}
    (hcode : ∀ t ∈ types, t = responseTypeCode) (h : checkAuthorization c q uri types chk = .ok ()) :
    checkAuthorization c q uri' types chk = .ok () := by
  unfold checkAuthorization at h ⊢
  split at h
  · cases h
  split at h
  · cases h
  split at h
  · cases h
  rename_i hopenid hunrec hinvalid
  rw [if_neg hopenid, if_neg hunrec, if_neg hinvalid]
  cases hrt : checkResponseTypes c.supportedResponseTypes types {} with
  | error e =>
    rw [hrt] at h
    cases h
  | ok rt =>
    have htoken : rt.token = false := checkResponseTypes_code hrt hcode
    simpa [hrt, htoken] using h

/-- A request of the code flow in which all but the redirect URI is in order. -/
structure OtherwiseValid (c : Config) (reply : (o : Op) → Res o) (q : AuthorizationForm)
    (client : Client) : Prop where
  parsed : q.parsed = true
  client : reply (.getClient q.clientID) = .ok client
  codeFlow : ∀ t ∈ fields q.responseType, t = responseTypeCode
  checks : ∃ chk, (checkScopes q.clientID (fields q.scope) {}).eval reply = .ok chk ∧
    checkAuthorization c q q.redirectURI (fields q.responseType) chk = .ok ()

theorem OtherwiseValid.accepted (hv : OtherwiseValid c reply q client)
    (hu : queryUnescape q.redirectURI = some uri) (hr : validateRedirectURI client uri = true) :
    (parseAuthorizationRequest c q).eval reply = .ok (authRequestOf q client uri (reply .newID)) := by
  obtain ⟨chk, hscopes, hcheck⟩ := hv.checks
  have hcheck' : checkAuthorization c q uri (fields q.responseType) chk = .ok () :=
    checkAuthorization_code hv.codeFlow hcheck
  simp [parseAuthorizationRequest, hv.parsed, hu, eval_op (S := sig) (.getClient _), hv.client, hr,
    hscopes, hcheck', newID, eval_op (S := sig) .newID]

theorem OtherwiseValid.registered (hv : OtherwiseValid c reply q client) {a}
    (ha : (parseAuthorizationRequest c q).eval reply = .ok a) : queryUnescape q.redirectURI = some a.redirectURI ∧
      validateRedirectURI client a.redirectURI = true ∧ a.clientID = client.id ∧ a.asked = a := by
  cases hu : queryUnescape q.redirectURI with
  | none =>
    simp [parseAuthorizationRequest, hv.parsed, hu] at ha
  | some uri =>
    cases hr : validateRedirectURI client uri with
    | false =>
      simp [parseAuthorizationRequest, hv.parsed, hu, eval_op (S := sig) (.getClient _), hv.client, hr] at ha
    | true =>
      rw [hv.accepted hu hr] at ha
      cases ha
      exact ⟨rfl, hr, rfl, rfl⟩

end

/-- `handleAuthCode` refuses the redirect URI: that is its answer, once it has
read the code and the clock. -/
def RefusesRedirect (c : Config) (r : TokenRequest) (client : Client) (reply : (o : Op) → Res o) :
    Prop :=
  (handleAuthCode c r client).calls reply = [⟨.getAuthCode r.code, reply (.getAuthCode r.code)⟩,
    ⟨.now, reply .now⟩, ⟨.write (.tokenErr errInvalidRequest
      "redirect_uri did not match URI from initial request." 400), ()⟩]

section
variable {c : Config} {r : TokenRequest} {client : Client} {reply : (o : Op) → Res o} {code : AuthCode}

theorem not_refuses_of_eq (hcode : reply (.getAuthCode r.code) = .ok code)
    (heq : code.redirectURI = r.redirectURI) : ¬ RefusesRedirect c r client reply := by
  unfold RefusesRedirect handleAuthCode
  rw [calls_bind, calls_op, eval_op, hcode]
  simp only [calls_bind, now, calls_op (S := sig) .now, eval_op (S := sig) .now]
  split
  · simp [tokenErrHelper, write, calls_op (S := sig) (.write _), errServerError, errInvalidRequest]
  · rw [if_neg (not_not.mpr heq)]
    simp [exchange, newID, calls_op (S := sig) .newID]

theorem refuses_of_ne (hcode : reply (.getAuthCode r.code) = .ok code)
    (htime : ¬ reply .now > code.expiry) (hclient : code.clientID = client.id)
    (hne : code.redirectURI ≠ r.redirectURI) : RefusesRedirect c r client reply := by
  unfold RefusesRedirect handleAuthCode
  rw [calls_bind, calls_op, eval_op, hcode]
  simp only [calls_bind, now, calls_op (S := sig) .now, eval_op (S := sig) .now]
  rw [if_neg (by simp [htime, hclient]), if_pos hne]
  rfl

end

/-- The same replies, but with this code in the storage. -/
def withCode (code : AuthCode) (reply : (o : Op) → Res o) : (o : Op) → Res o
  | .getAuthCode _ => .ok code
  | o => reply o

/-- For a registered URI of a confidential client, the authorization endpoint
accepts the URI and the token endpoint accepts it for the code, exactly if there
is nothing in it to be decoded. The code is one for `b`, which is what the logins
make of the accepted request. -/
theorem redirectURI_agreed (c : Config) (reply : (o : Op) → Res o) (q : AuthorizationForm)
    (client : Client) (hv : OtherwiseValid c reply q client) (hconf : client.isPublic = false)
    (hreg : q.redirectURI ∈ client.redirectURIs) : (∃ a, (parseAuthorizationRequest c q).eval reply = .ok a ∧
      ∀ (b : AuthRequest) (id : String) (t : Time) (r : TokenRequest) (cl : Client)
        (reply' : (o : Op) → Res o), b.asked = a → r.redirectURI = q.redirectURI →
        reply' (.getAuthCode r.code) = .ok (authCodeOf b id t) → ¬ RefusesRedirect c r cl reply') ↔
    '%' ∉ q.redirectURI.toList ∧ '+' ∉ q.redirectURI.toList := by
  rw [← queryUnescape_fixed]
  constructor
  · rintro ⟨a, ha, hall⟩
    obtain ⟨hu, _, hcl, hasked⟩ := hv.registered ha
    by_contra hne
    have huri : a.redirectURI ≠ q.redirectURI := fun heq => hne (heq ▸ hu)
    -- the client redeems the code at once
    let reply' := withCode (authCodeOf a "" (reply .now)) reply
    refine hall a "" (reply .now) { redirectURI := q.redirectURI } client reply' hasked rfl rfl ?_
    have hcode : reply' (.getAuthCode "") = .ok (authCodeOf a "" (reply .now)) := rfl
    exact refuses_of_ne hcode (Int.not_lt.mpr (Int.le_add_of_nonneg_right (by decide))) hcl huri
  · intro hu
    have hr : validateRedirectURI client q.redirectURI = true := by
      simp [validateRedirectURI, hconf, hreg]
    refine ⟨_, hv.accepted hu hr, ?_⟩
    intro b id t r cl reply' hb hru hcode
    have huri : b.redirectURI = q.redirectURI := congrArg AuthRequest.redirectURI hb
    exact not_refuses_of_eq hcode (huri.trans hru.symm)

/-- A storage with this client, and nothing else in it. -/
def onlyClient (client : Client) : (o : Op) → Res o
  | .getClient _ => .ok client
  | .now => 0
  | .newID => "r"
  | .getConnector _ | .listConnectors | .createAuthRequest _ | .deleteAuthRequest _
  | .createAuthCode _ | .deleteAuthCode _ | .createRefresh _ | .deleteRefresh _
  | .createOfflineSessions _ | .getAuthRequest _ | .getAuthCode _ | .getRefresh _
  | .getOfflineSessions _ _ | .getKeys | .garbageCollect _ | .newKey | .openConnector _
  | .loginURL _ _ _ | .postData _ _ _ | .login _ _ _ _ _ | .handleCallback _ _ _
  | .handlePOST _ _ _ _ | .refreshIdentity _ _ _ | .marshal _ _ | .signPayload _ _ _ =>
    .error .notFound
  | .updateAuthRequest _ _ | .updateRefreshToken _ _ | .updateOfflineSessions _ _ _ | .updateKeys _ =>
    .error .notFound
  | .loadKeys | .loadConnector _ => none
  | .lenConnectors => 0
  | .storeKeys _ | .storeConnector _ _ | .write _ | .note _ => ()

/-- A request for the code flow with this redirect URI. -/
def codeForm (redirectURI : String) : AuthorizationForm where
  redirectURI := redirectURI
  clientID := "app"
  scope := "openid"
  responseType := "code"

theorem fields_code : fields "code" = [responseTypeCode] := by decide +kernel

theorem fields_openid : fields "openid" = [scopeOpenID] := by decide +kernel

theorem codeForm_valid (client : Client) (redirectURI : String) :
    OtherwiseValid (demo.config 0) (onlyClient client) (codeForm redirectURI) client where
  parsed := rfl
  client := rfl
  codeFlow := by
    show ∀ t ∈ fields "code", t = responseTypeCode
    simp [fields_code]
  checks := by
    refine ⟨{ hasOpenIDScope := true }, ?_, ?_⟩
    · show (checkScopes "app" (fields "openid") {}).eval _ = _
      rw [fields_openid]
      rfl
    · show checkAuthorization _ _ _ (fields "code") _ = _
      rw [fields_code]
      rfl

/-- A client whose redirect URI has an escape in its path. -/
def escaped : Client := { app with redirectURIs := ["http://app/a%2Fb"] }

theorem escaped_redirect_refused :
    OtherwiseValid (demo.config 0) (onlyClient escaped) (codeForm "http://app/a%2Fb") escaped ∧
    escaped.isPublic = false ∧ "http://app/a%2Fb" ∈ escaped.redirectURIs ∧
    ¬ ∃ a, (parseAuthorizationRequest (demo.config 0) (codeForm "http://app/a%2Fb")).eval
      (onlyClient escaped) = .ok a := by
  refine ⟨codeForm_valid _ _, rfl, mem_singleton_self _, ?_⟩
  rintro ⟨a, ha⟩
  obtain ⟨huri, hreg, _⟩ := (codeForm_valid escaped "http://app/a%2Fb").registered ha
  -- the second decoding leaves a path that is not registered
  have hunescaped : queryUnescape "http://app/a%2Fb" = some "http://app/a/b" := by decide +kernel
  rw [← some.inj (hunescaped.symm.trans huri)] at hreg
  revert hreg
  decide

theorem plain_redirect_agreed : ∃ a,
    (parseAuthorizationRequest (demo.config 0) (codeForm "http://app/cb")).eval (onlyClient app) =
      .ok a ∧ ∀ (b : AuthRequest) (id : String) (t : Time) (r : TokenRequest) (cl : Client)
      (reply' : (o : Op) → Res o), b.asked = a → r.redirectURI = "http://app/cb" →
      reply' (.getAuthCode r.code) = .ok (authCodeOf b id t) → ¬ RefusesRedirect (demo.config 0) r cl reply' :=
  (redirectURI_agreed (demo.config 0) (onlyClient app) (codeForm "http://app/cb") app
    (codeForm_valid _ _) rfl (mem_singleton_self _)).mpr (by decide)

end KubeYamls.Dex
