import KubeYamls.Dex.Provenance

/-! # Approval

A client can ask that the user be prompted on this request. The server stores
that, and `handleApproval` does not look at it: a server that skips approvals
answers a GET with the code. Unless a GET finds such a request at such a server,
everything issued for it goes back to a POST that approved it. -/
namespace KubeYamls.Dex
open Data Conc List

section
variable {S : Setup} {s : Sys (dex S)} {tid : Nat} {req : Request} {a : AuthRequest}

def skipped : Step S → Option AuthRequest
  | .act _ ⟨inst, .approval r⟩ (.getAuthRequest _) (.ok a) _ _ =>
    if r.method = .get ∧ (S.config inst).skipApproval = true ∧ a.loggedIn = true then some a
    else none
  | _ => none

/-- No approval is skipped that the client has forced. -/
def Prompting (_ : List (Step S)) (e : Step S) : Prop :=
  ∀ a ∈ skipped e, a.forceApprovalPrompt = false

instance (hist : List (Step S)) (e : Step S) : Decidable (Prompting hist e) :=
  inferInstanceAs (Decidable (∀ a ∈ skipped e, a.forceApprovalPrompt = false))

/-- Thread `tid` serves a POST that approves `a`. It found the request logged in,
and then the clock not past its expiry. -/
structure Posted (s : Sys (dex S)) (tid : Nat) (a : AuthRequest) : Prop where
  request : ∃ inst p, s.threads[tid]? = some ⟨⟨inst, .approval ⟨.post, a.id, "approve"⟩⟩, p⟩
  loggedIn : a.loggedIn = true
  inTime : ∃ t, t ≤ a.expiry ∧ didThen (past tid s.hist) (.getAuthRequest a.id) (.ok a) .now t

theorem Sends.posted (h : Reach Initial s) (hC : Along Prompting s.hist) {r p} (hth : s.threads[tid]? = some ⟨req, p⟩)
    (hs : Sends S req (past tid s.hist) r a) (hf : a.forceApprovalPrompt = true) : Posted s tid a := by
  obtain ⟨inst, kind⟩ := req
  obtain rfl : kind = .approval r := hs.kind
  have hid := read_authRequest_id h hs.read
  rcases hs.approved with ⟨hpost, happrove⟩ | ⟨hget, hskip⟩
  · obtain ⟨method, id, approval⟩ := r
    obtain ⟨rfl, rfl, rfl⟩ : method = .post ∧ approval = "approve" ∧ a.id = id :=
      ⟨hpost, happrove, hid⟩
    exact ⟨⟨inst, p, hth⟩, hs.loggedIn, hs.inTime⟩
  · -- the read that began this GET is a step the condition speaks of
    obtain ⟨req', s0, w', hm⟩ := Reach.did_made h hs.read
    obtain rfl := hm.req_eq hth
    obtain ⟨l, hl⟩ := hm.hist
    rw [hl] at hC
    have hfalse := hC.at.1 a (by simp [skipped, hget, hskip, hs.loggedIn])
    rw [hf] at hfalse
    cases hfalse

theorem Origin.posted (h : Reach Blank s) (hC : Along Prompting s.hist) (ho : Origin s a tid)
    (hf : a.forceApprovalPrompt = true) : ∃ t, Posted s t a := by
  induction ho with
  | send hth hs => exact ⟨_, hs.posted (h.mono fun _ hw => hw.toInitial) hC hth hf⟩
  | code _ _ _ ih => exact ih
  | refresh _ _ _ _ ih => exact ih

theorem Granted.form {Init} (h : Reach Init s) (hg : Granted s a) :
    ∃ (tid inst : Nat) (q : AuthorizationForm) (p : Handler Unit),
      s.threads[tid]? = some ⟨⟨inst, .authorization q⟩, p⟩ ∧
      (a.forceApprovalPrompt = true ↔ q.approvalPrompt = "force") := by
  obtain ⟨tid, hd⟩ := hg.accepted
  obtain ⟨inst, q, _, p, hth, _, hforce⟩ := accepted_form h hd
  have hforce : a.forceApprovalPrompt = decide (q.approvalPrompt = "force") := hforce
  exact ⟨tid, inst, q, p, hth, by rw [hforce, decide_eq_true_iff]⟩

end

/-- Every code and every ID token goes back to a request, and where the form of
that request forces the prompt, a POST has approved it while it was logged in and
not expired. -/
theorem forced_approval_posted (S : Setup) (s : Sys (dex S)) (h : Reach Blank s)
    (hC : Along Prompting s.hist) : (∀ tid c res, did (past tid s.hist) (.createAuthCode c) res →
      ∃ a t, Origin s a tid ∧ c = authCodeOf a c.id t) ∧
    (∀ tid t, t ∈ minted s.hist tid → ∃ a, Origin s a tid ∧ t.Within a.terms) ∧
    ∀ a tid, Origin s a tid → (∃ (t inst : Nat) (q : AuthorizationForm) (p : Handler Unit),
        s.threads[t]? = some ⟨⟨inst, .authorization q⟩, p⟩ ∧
        (a.forceApprovalPrompt = true ↔ q.approvalPrompt = "force")) ∧
      (a.forceApprovalPrompt = true → ∃ t, Posted s t a) := by
  refine ⟨?_, ?_, ?_⟩
  · intro tid c res hd
    exact createAuthCode_origin h hd
  · intro tid t ht
    obtain ⟨req, p, claims, connID, hth, hm⟩ := mints_of_minted h ht
    exact hm.origin h hth
  · intro a tid ho
    exact ⟨(ho.granted h).form h, ho.posted h hC⟩

/-- A server that skips the approval of its users. -/
def lenient : Setup where
  config i := { demo.config i with skipApproval := true }
  codec := codec

def forcing (s : Sys (dex lenient)) : Bool := s.threads.all fun th => match th.req.kind with
  | .authorization q => q.approvalPrompt = "force"
  | _ => true

theorem Granted.forced {s} (h : Reach Blank s) (hs : forcing s = true)
    {a} (hg : Granted s a) : a.forceApprovalPrompt = true := by
  obtain ⟨_, _, q, p, hth, hforce⟩ := hg.form h
  exact hforce.mpr (of_decide_eq_true (all_eq_true.mp hs _ (mem_of_getElem? hth)))

def posts : Kind → Bool
  | .approval r => r.method = .post
  | _ => false

/-- The client forces the prompt, and a GET gets the code. -/
@[irreducible] def skippedRun : Sys (dex lenient) := .after demoWorld <|
  authorize 0 "r" "openid" "force" ++ loginA 1 "r" offlineA ++
  serving 2 (.approval ⟨.get, "r", ""⟩) (plains 3 ++ .text "at" :: .text "c" :: plains 3)

theorem skipped_forced_approval : Reach Blank skippedRun ∧
    ∃ tid c a t, did (past tid skippedRun.hist) (.createAuthCode c) (.ok ()) ∧
      Origin skippedRun a tid ∧ c = authCodeOf a c.id t ∧ a.forceApprovalPrompt = true ∧
      ∀ tid', ¬ Posted skippedRun tid' a := by
  have h : Reach Blank skippedRun := by
    unfold skippedRun
    exact .after demo_blank _
  obtain ⟨hstored, hforcing, hposts⟩ :
      (skippedRun.world.store.authCodes.lookup "c").isSome ∧ forcing skippedRun = true ∧
      (∀ th ∈ skippedRun.threads, posts th.req.kind = false) := by
    decide +kernel
  obtain ⟨c, hc⟩ := Option.isSome_iff_exists.mp hstored
  obtain ⟨tid, hd⟩ := authCode_created h hc
  obtain ⟨a, t, ho, hcode⟩ := createAuthCode_origin h hd
  refine ⟨h, tid, c, a, t, hd, ho, hcode, (ho.granted h).forced h hforcing, fun tid' hp => ?_⟩
  obtain ⟨_, _, hth⟩ := hp.request
  cases hposts _ (mem_of_getElem? hth)

/-- On the same server a GET comes before the login, and after it the user
approves by POST. -/
@[irreducible] def promptedRun : Sys (dex lenient) := .after demoWorld <|
  authorize 0 "r" "openid" "force" ++ serving 1 (.approval ⟨.get, "r", ""⟩) (plains 2) ++
  loginA 2 "r" offlineA ++ approve 3 "r" "c"

theorem prompted_forced_approval : Along Prompting promptedRun.hist ∧
    ∃ tid c a t tid', did (past tid promptedRun.hist) (.createAuthCode c) (.ok ()) ∧
      c = authCodeOf a c.id t ∧ a.forceApprovalPrompt = true ∧ Posted promptedRun tid' a := by
  have h : Reach Blank promptedRun := by
    unfold promptedRun
    exact .after demo_blank _
  obtain ⟨hstored, hforcing, hC⟩ :
      (promptedRun.world.store.authCodes.lookup "c").isSome ∧ forcing promptedRun = true ∧
      Along Prompting promptedRun.hist := by
    decide +kernel
  obtain ⟨c, hc⟩ := Option.isSome_iff_exists.mp hstored
  obtain ⟨tid, hd⟩ := authCode_created h hc
  obtain ⟨hcodes, _, hposted⟩ := forced_approval_posted lenient promptedRun h hC
  obtain ⟨a, t, ho, hcode⟩ := hcodes tid c _ hd
  have hforced := (ho.granted h).forced h hforcing
  obtain ⟨tid', hp⟩ := (hposted a tid ho).2 hforced
  exact ⟨hC, tid, c, a, t, tid', hd, hcode, hforced, hp⟩

end KubeYamls.Dex
