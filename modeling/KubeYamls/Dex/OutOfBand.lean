import KubeYamls.Dex.Responses
import KubeYamls.Dex.Audience

/-! # Requests with the out-of-band redirect URI

For `urn:ietf:wg:oauth:2.0:oob` there is nowhere to redirect to: the user is shown
a page with the code. `sendCodeResponse` relies on `parseAuthorizationRequest` to
let nothing but the code flow through for this URI, but the parser only refuses the
response type `token`. -/
namespace KubeYamls.Dex
open Data Conc Prog List

/-! ## What the parser lets through -/

theorem checkResponseTypes_ok {supported types rt rt'} (h : checkResponseTypes supported types rt = .ok rt') :
    (∀ t ∈ types, t = responseTypeCode ∨ t = responseTypeIDToken ∨ t = responseTypeToken) ∧
    (rt'.token = true ↔ rt.token = true ∨ responseTypeToken ∈ types) := by
  induction types generalizing rt with
  | nil =>
    cases h
    simp
  | cons t types ih =>
    simp only [checkResponseTypes] at h
    split_ifs at h with hcode hsupp hid hsupp htoken hsupp
    · obtain ⟨htypes, hrt⟩ := ih h
      refine ⟨forall_mem_cons.mpr ⟨.inl hcode, htypes⟩, ?_⟩
      simp [hrt, hcode, responseTypeToken, responseTypeCode]
    · obtain ⟨htypes, hrt⟩ := ih h
      refine ⟨forall_mem_cons.mpr ⟨.inr (.inl hid), htypes⟩, ?_⟩
      simp [hrt, hid, responseTypeToken, responseTypeIDToken]
    · obtain ⟨htypes, hrt⟩ := ih h
      refine ⟨forall_mem_cons.mpr ⟨.inr (.inr htoken), htypes⟩, ?_⟩
      simp [hrt, htoken]

theorem checkAuthorization_oob {c q types chk} (h : checkAuthorization c q redirectURIOOB types chk = .ok ()) :
    types ≠ [] ∧ ∀ t ∈ types, t = responseTypeCode ∨ t = responseTypeIDToken := by
  unfold checkAuthorization at h
  cases hrt : checkResponseTypes c.supportedResponseTypes types {} with
  | error e =>
    rw [hrt] at h
    split_ifs at h
  | ok rt =>
    obtain ⟨htypes, htoken⟩ := checkResponseTypes_ok hrt
    rw [hrt] at h
    dsimp only at h
    split_ifs at h with _ _ _ hnil _ _ hoob
    refine ⟨hnil, fun t ht => ?_⟩
    rcases htypes t ht with hcode | hid | rfl
    · exact .inl hcode
    · exact .inr hid
    · exact absurd (by simp [htoken.mpr (.inr ht)]) hoob

/-- Whatever the storage replies, an accepted request has passed the checks. -/
theorem parse_checked (c : Config) (q : AuthorizationForm) :
    (parseAuthorizationRequest c q).wp (.free sig) (fun _ res => ∀ a, res = .ok a →
      ∃ chk, checkAuthorization c q a.redirectURI a.responseTypes chk = .ok ()) [] := by
  unfold parseAuthorizationRequest
  split_ifs
  · exact wp_ret (by simp)
  split
  · exact wp_ret (by simp)
  refine wp_step trivial fun res _ => ?_
  rcases res with e | client
  · cases e <;> exact wp_ret (by simp)
  dsimp only
  split_ifs
  · exact wp_ret (by simp)
  refine wp_seq (wp_free (fun _ _ => trivial) _) fun _ res _ => ?_
  rcases res with e | chk
  · exact wp_ret (by simp)
  dsimp only
  split
  · exact wp_ret (by simp)
  · rename_i hcheck
    refine wp_step trivial fun id _ => wp_step trivial fun _ _ => wp_ret ?_
    intro a ha
    cases ha
    exact ⟨chk, hcheck⟩

/-! ## How the approval is answered -/

/-- The approval of a request was answered with the page of the code it created. If
there is no code, the request had expired or a call had failed, and there is one
error page. -/
def AnsweredOOB (authReq : AuthRequest) (past : Past) : Prop :=
  (∃ code, did past (.createAuthCode code) (.ok ()) ∧ responses past = [.page (.oob code.id)]) ∨
  (((∃ t, did past .now t ∧ t > authReq.expiry) ∨ (∃ e, did past (.deleteAuthRequest authReq.id) (.error e)) ∨
      ∃ code e, did past (.createAuthCode code) (.error e)) ∧
    ∃ status description, responses past = [.renderError status description])

theorem urlParse_oob : ∃ u, urlParse redirectURIOOB = some u := by
  refine Option.isSome_iff_exists.mp ?_
  decide +kernel

theorem answered_sendCodeResponse (c : Config) {authReq} (huri : authReq.redirectURI = redirectURIOOB) {rest}
    (htypes : authReq.responseTypes = responseTypeCode :: rest) :
    (sendCodeResponse c authReq).wp (.free sig) (fun past _ => AnsweredOOB authReq past) [] := by
  obtain ⟨u, hu⟩ := urlParse_oob
  refine wp_step trivial fun t _ => ?_
  split_ifs with hexpired
  · exact wp_op trivial fun _ _ => .inr ⟨.inl ⟨t, by simp, hexpired⟩, _, _, rfl⟩
  refine wp_step trivial fun res _ => ?_
  rcases res with e | _
  · cases e <;> exact wp_op trivial fun _ _ => .inr ⟨.inr (.inl ⟨_, .tail _ (.head _)⟩), _, _, rfl⟩
  simp only [huri, hu, htypes, respond, if_true]
  refine wp_step trivial fun accessToken _ => wp_step trivial fun id _ => wp_step trivial fun t' _ =>
    wp_step trivial fun res _ => ?_
  rcases res with e | _
  · exact wp_op trivial fun _ _ => .inr ⟨.inr (.inr ⟨_, e, .tail _ (.head _)⟩), _, _, rfl⟩
  · exact wp_op trivial fun _ _ => .inl ⟨_, .tail _ (.head _), rfl⟩

/-- Every response type is `code`, and the approval of the request, whatever was
filled in since, is answered with the page in every run. -/
def CodeFlowOnly (c : Config) (a : AuthRequest) : Prop :=
  (∀ t ∈ a.responseTypes, t = responseTypeCode) ∧
  ∀ (authReq : AuthRequest), authReq.redirectURI = a.redirectURI → authReq.responseTypes = a.responseTypes →
    ∀ {A W : Type} (exec : (o : Op) → A → W → Option (Res o × W)) (w w' : W) (es : List (Ev sig)),
      Runs (S := sig) exec (sendCodeResponse c authReq) w es () w' → AnsweredOOB authReq es.reverse

/-- An out-of-band request that the parser accepts is of the code flow and gets the
page exactly if it does not ask for `id_token`. -/
theorem oob_code_flow (c : Config) (q : AuthorizationForm) {A W : Type}
    (exec : (o : Op) → A → W → Option (Res o × W)) (w w' : W) (es : List (Ev sig)) (a : AuthRequest)
    (h : Runs (S := sig) exec (parseAuthorizationRequest c q) w es (.ok a) w')
    (huri : a.redirectURI = redirectURIOOB) : CodeFlowOnly c a ↔ responseTypeIDToken ∉ a.responseTypes := by
  obtain ⟨chk, hcheck⟩ := h.post_free (parse_checked c q) a rfl
  rw [huri] at hcheck
  obtain ⟨hne, htypes⟩ := checkAuthorization_oob hcheck
  constructor
  · rintro ⟨hcode, -⟩ hid
    exact absurd (hcode _ hid) (by decide)
  · intro hid
    have hcode : ∀ t ∈ a.responseTypes, t = responseTypeCode := fun t ht =>
      (htypes t ht).resolve_right fun heq => hid (heq ▸ ht)
    obtain ⟨t, rest, hcons⟩ := exists_cons_of_ne_nil hne
    obtain rfl : t = responseTypeCode := hcode t (by simp [hcons])
    refine ⟨hcode, fun authReq huri' htypes' _ _ exec w w' es hrun => ?_⟩
    exact hrun.post_free (answered_sendCodeResponse c (huri'.trans huri) (htypes'.trans hcons))

/-- A command-line tool, without a redirect URI of its own. -/
def cli : Client := { app with id := "cli", redirectURIs := [], isPublic := true }

/-- A server with a key, which knows the tool and whose storage does not fail. -/
def obliging : (o : Op) → Res o
  | .deleteAuthRequest _ | .createAuthCode _ => .ok ()
  | o => signsFor ((∅ : Table String Client).insert "cli" cli) o

def implicitConfig : Config := { demo.config 0 with supportedResponseTypes := ["code", "id_token", "token"] }

def oobForm (responseType : String) : AuthorizationForm where
  redirectURI := redirectURIOOB
  clientID := "cli"
  nonce := "n"
  scope := "openid"
  responseType := responseType

def redirectsTo (uri : String) : Response → Bool
  | .redirect (.client redirectURI _ _ _) _ => redirectURI = uri
  | _ => false

theorem parse_oobForm (types : List String) (responseType : String) (htypes : fields responseType = types)
    (hcheck : checkAuthorization implicitConfig (oobForm responseType) redirectURIOOB types
      { hasOpenIDScope := true } = .ok ()) :
    (parseAuthorizationRequest implicitConfig (oobForm responseType)).eval obliging =
      .ok (authRequestOf (oobForm responseType) cli redirectURIOOB "r") := by
  have huri : queryUnescape redirectURIOOB = some redirectURIOOB := by decide +kernel
  have hscopes : (checkScopes "cli" (fields "openid") {}).eval obliging = .ok { hasOpenIDScope := true } := by
    rw [fields_openid]
    rfl
  have hclient : obliging (.getClient "cli") = .ok cli := rfl
  have hid : obliging .newID = "r" := rfl
  have hvalid : validateRedirectURI cli redirectURIOOB = true := by decide +kernel
  simp only [oobForm] at htypes hcheck ⊢
  simp [parseAuthorizationRequest, huri, eval_op (S := sig) (.getClient _), hclient, hvalid, hscopes, htypes,
    hcheck, newID, eval_op (S := sig) .newID, hid]

/-- With `id_token` the parser lets an implicit flow through, and the approval
redirects the browser to the out-of-band URI. -/
theorem oob_id_token_redirected : ∃ a,
    (parseAuthorizationRequest implicitConfig (oobForm "id_token")).eval obliging = .ok a ∧
    a.redirectURI = redirectURIOOB ∧ a.responseTypes = ["id_token"] ∧ ¬ CodeFlowOnly implicitConfig a ∧
    (responses ((sendCodeResponse implicitConfig a).calls obliging)).map (redirectsTo redirectURIOOB) =
      [true] := by
  have hfields : fields "id_token" = ["id_token"] := by decide +kernel
  refine ⟨_, parse_oobForm _ _ hfields rfl, rfl, hfields, ?_, by decide +kernel⟩
  rintro ⟨hcode, -⟩
  have hid : "id_token" ∈ (authRequestOf (oobForm "id_token") cli redirectURIOOB "r").responseTypes := by
    show "id_token" ∈ fields "id_token"
    simp [hfields]
  exact absurd (hcode _ hid) (by decide)

/-- The same tool with the code flow. -/
theorem oob_code_accepted : ∃ a,
    (parseAuthorizationRequest implicitConfig (oobForm "code")).eval obliging = .ok a ∧
    a.responseTypes = ["code"] ∧ CodeFlowOnly implicitConfig a := by
  have heval := parse_oobForm _ _ fields_code rfl
  have hrun := runs_eval (S := sig) obliging (parseAuthorizationRequest implicitConfig (oobForm "code"))
  rw [heval] at hrun
  refine ⟨_, heval, fields_code, (oob_code_flow _ _ _ _ _ _ _ hrun rfl).mpr ?_⟩
  show responseTypeIDToken ∉ fields "code"
  rw [fields_code]
  decide

end KubeYamls.Dex
