import KubeYamls.Dex.Responses

/-! # A refresh that is rejected

`handleRefreshToken` updates two objects, the session and then the refresh token,
and the check that the token was not claimed by another request is in the second
update. An error before the session was updated changes nothing. An error after
it leaves the session with a new `LastUsed`. -/
namespace KubeYamls.Dex
open Data Conc Prog List

/-- Neither an answer nor a change of a refresh token or of a session. -/
def unspent (e : Ev sig) : Bool := !commitsTokens e && !replied e

def Unspent (past : Past) : Prop := ∀ e ∈ past, unspent e = true

def refused : Ev sig → Bool
  | ⟨.updateRefreshToken _ _, .ok _⟩ => false
  | ⟨.updateRefreshToken _ _, _⟩ => true
  | _ => false

/-- The client was told of an error. -/
def rejected (past : Past) : Bool := (responses past).any reportsError

section
variable {past : Past} {o : Op} {r : Res o} {codec : Codec}

theorem Unspent.cons (h : Unspent past) (he : unspent ⟨o, r⟩ = true) : Unspent (⟨o, r⟩ :: past) :=
  forall_mem_cons.mpr ⟨he, h⟩

theorem Unspent.spec (h : Unspent past) {e} (he : e ∈ past) : commitsTokens e = false ∧ replied e = false := by
  simpa [unspent] using h e he

theorem Unspent.responses (h : Unspent past) : responses past = [] :=
  responses_eq_nil fun _ he => (h.spec he).2

theorem unspent_of_preparing (h : preparing o = true) (r : Res o) : unspent ⟨o, r⟩ = true := by
  cases o <;> first | rfl | cases h

/-- What there is to say when a refresh has ended. -/
def UnchangedOrRefused (past : Past) : Prop :=
  rejected past = true → (∀ e ∈ past, commitsTokens e = false) ∨ ∃ e ∈ past, refused e = true

theorem Unspent.unchanged_write (h : Unspent past) (resp : Response) :
    UnchangedOrRefused (⟨.write resp, ()⟩ :: past) :=
  fun _ => .inl (forall_mem_cons.mpr ⟨rfl, fun _ he => (h.spec he).1⟩)

theorem wp_claimRefresh_refused (h : Unspent past) (refresh : RefreshToken) (ident : Identity)
    (idToken : IDToken) (expiry : Time) (accessToken newToken rawNewToken : String) :
    (claimRefresh refresh ident idToken expiry accessToken newToken rawNewToken).wp (possible codec)
      (fun past _ => UnchangedOrRefused past) past := by
  refine wp_step trivial fun lastUsed _ => wp_step trivial fun res _ => ?_
  have hnow : Unspent (⟨.now, lastUsed⟩ :: past) := h.cons rfl
  rcases res with old | e | _
  · refine wp_step trivial fun res _ => ?_
    rcases res with new | e | _
    · -- the tokens are written, and no error
      refine wp_step trivial fun _ _ => wp_step trivial fun _ _ => wp_op trivial fun _ _ hr => ?_
      rw [rejected, responses_write, responses_other rfl, responses_other rfl, responses_other rfl,
        responses_other rfl, hnow.responses] at hr
      cases hr
    · exact wp_op trivial fun _ _ _ => .inr ⟨_, mem_cons_of_mem _ mem_cons_self, rfl⟩
    · exact wp_op trivial fun _ _ _ => .inr ⟨_, mem_cons_of_mem _ mem_cons_self, rfl⟩
  · exact wp_op trivial fun _ _ => Unspent.unchanged_write (hnow.cons rfl) _
  · -- a panic is no error response
    refine wp_ret fun hr => ?_
    rw [rejected, (Unspent.cons hnow rfl).responses] at hr
    cases hr

theorem wp_handleToken_refused (c : Config) (codec' : Codec) (r : TokenRequest)
    (hg : r.grantType = grantTypeRefreshToken) :
    (handleToken c codec' r).wp (possible codec) (fun past _ => UnchangedOrRefused past) [] := by
  have h : Unspent [] := by simp [Unspent]
  have hstop : ∀ {past}, Unspent past → ∀ typ description status,
      (tokenErrHelper typ description status).wp (possible codec)
        (fun past _ => UnchangedOrRefused past) past :=
    fun h _ _ _ => wp_op trivial fun _ _ => h.unchanged_write _
  unfold handleToken
  split
  · exact hstop h _ _ _
  refine wp_step trivial fun res _ => ?_
  rcases res with e | client
  · cases e <;> exact hstop (h.cons rfl) _ _ _
  dsimp only
  rw [if_neg (refresh_ne_code hg), if_pos hg]
  split
  · exact hstop (h.cons rfl) _ _ _
  · exact wp_handleRefreshToken_of (fun _ _ => trivial)
      (fun _ _ r ho h => h.cons (unspent_of_preparing ho r)) (fun _ _ _ _ h => h.unchanged_write _)
      (fun _ _ _ _ _ _ _ _ h => wp_claimRefresh_refused h _ _ _ _ _ _ _) (h.cons rfl) _ _ _ _

end

/-! ## Runs -/

/-- If this is thread `tid` claiming a refresh token, then it can do so: the storage
does not fail, and the token is there with the `Token` value that the updater looks
for. -/
def Claimable {S : Setup} (tid : Nat) : Step S → Prop
  | .act t _ (.updateRefreshToken id updater) res pre _ => t = tid → res ≠ .error failure ∧
    ∃ old new, pre.store.refreshTokens.lookup id = some old ∧ updater old = .ok new
  | _ => True

theorem not_refused_of_claimable {S} {s : Sys (dex S)} (h : Reach (fun _ => True) s) {tid}
    (hC : ∀ e ∈ s.hist, Claimable tid e) {e} (he : e ∈ past tid s.hist) : refused e = false := by
  obtain ⟨o, res⟩ := e
  cases o with
  | updateRefreshToken id f =>
    obtain ⟨req, s0, w', hm⟩ := Reach.did_made h he
    obtain ⟨hfail, old, new, hl, hf⟩ := hC _ hm.mem rfl
    obtain ⟨ans, hx⟩ := hm.exec
    rcases storage_update .refreshTokens hx with
      ⟨_, _, rfl, _⟩ | ⟨hr | ⟨_, hnone⟩ | ⟨old', hl', ⟨_, _, hf'⟩ | ⟨_, hf'⟩⟩, _⟩
    · rfl
    · exact absurd hr hfail
    · cases hl.symm.trans hnone
    · cases hl.symm.trans hl'
      cases hf.symm.trans hf'
    · cases hl.symm.trans hl'
      cases hf.symm.trans hf'
  | _ => rfl

/-- A refresh that ends with an error response has changed no refresh token and no
session, in every run in which it could claim its token if it came to that. -/
theorem rejected_refresh_unchanged (S : Setup) (s : Sys (dex S)) (h : Reach (fun _ => True) s)
    (tid : Nat) (r : TokenRequest) (hx : Refreshes s tid r) (hfin : finished s tid = true)
    (hr : rejected (past tid s.hist) = true) (hC : ∀ e ∈ s.hist, Claimable tid e) (req : Request)
    (o : Op) (res : Res o) (pre post : World) (he : (.act tid req o res pre post : Step S) ∈ s.hist) :
    post.store.refreshTokens = pre.store.refreshTokens ∧
      post.store.offlineSessions = pre.store.offlineSessions := by
  have hend := Reach.token_end h hx.request hfin fun c => wp_handleToken_refused c S.codec r hx.grantType
  rcases hend hr with hsame | ⟨e, hmem, href⟩
  · exact (Reach.effect h he).tokens_same (hsame _ (mem_past.mpr ⟨_, _, _, he⟩))
  · cases (not_refused_of_claimable h hC hmem).symm.trans href

/-- Two refreshes with the same token. The second finds the token claimed, after it
has written to the session. -/
@[irreducible] def claimedTwiceRun : Sys (dex demo) := .after demoWorld <|
  obtainRefresh ++ refreshing 4 "x" "x1" "at4" "x2" ++ refreshing 5 "x" "x1" "at5" "x3" ++
  going 4 (plains 6) ++ .move (.tick 1) :: going 5 (plains 4)

def aliceLastUsed (w : World) : Option Time := do
  let session ← w.store.offlineSessions.lookup ("1", "a")
  let ref ← session.refresh.lookup "app"
  return ref.lastUsed

def touchesAlice : Step demo → Bool
  | .act 5 _ _ _ pre post => aliceLastUsed pre != aliceLastUsed post
  | _ => false

theorem rejected_refresh_touches : Reach (fun _ => True) claimedTwiceRun ∧
    Refreshes claimedTwiceRun 5 (refreshRequest "x" "x1") ∧ finished claimedTwiceRun 5 = true ∧
    rejected (past 5 claimedTwiceRun.hist) = true ∧
    ∃ req o res pre post, (.act 5 req o res pre post : Step demo) ∈ claimedTwiceRun.hist ∧
      post.store.offlineSessions ≠ pre.store.offlineSessions := by
  obtain ⟨hreq, hfin, hrej, e, he, ht⟩ :
      tokenRequest claimedTwiceRun 5 = some (refreshRequest "x" "x1") ∧
      finished claimedTwiceRun 5 = true ∧ rejected (past 5 claimedTwiceRun.hist) = true ∧
      ∃ e ∈ claimedTwiceRun.hist, touchesAlice e = true := by
    decide +kernel
  have h : Reach (fun _ => True) claimedTwiceRun := by
    unfold claimedTwiceRun
    exact .after trivial _
  refine ⟨h, ⟨hreq, rfl⟩, hfin, hrej, ?_⟩
  unfold touchesAlice at ht
  split at ht
  · refine ⟨_, _, _, _, _, he, fun heq => ?_⟩
    simp [aliceLastUsed, heq] at ht
  · cases ht

/-- The session cannot be written, and the refresh is rejected at once. -/
@[irreducible] def rejectedRun : Sys (dex demo) := .after demoWorld <|
  obtainRefresh ++ refreshing 4 "x" "x1" "at4" "x2" ++ going 4 [.plain, .fail, .plain]

def claimsNothing (tid : Nat) : Step demo → Bool
  | .act t _ (.updateRefreshToken _ _) _ _ _ => t != tid
  | _ => true

theorem rejectedRun_unchanged : finished rejectedRun 4 = true ∧ rejected (past 4 rejectedRun.hist) = true ∧
    ∀ req o res pre post, (.act 4 req o res pre post : Step demo) ∈ rejectedRun.hist →
      post.store.refreshTokens = pre.store.refreshTokens ∧
      post.store.offlineSessions = pre.store.offlineSessions := by
  obtain ⟨hreq, hfin, hrej, hnone⟩ : tokenRequest rejectedRun 4 = some (refreshRequest "x" "x1") ∧
      finished rejectedRun 4 = true ∧ rejected (past 4 rejectedRun.hist) = true ∧
      ∀ e ∈ rejectedRun.hist, claimsNothing 4 e = true := by
    decide +kernel
  have h : Reach (fun _ => True) rejectedRun := by
    unfold rejectedRun
    exact .after trivial _
  refine ⟨hfin, hrej, rejected_refresh_unchanged demo rejectedRun h 4 _ ⟨hreq, rfl⟩ hfin hrej ?_⟩
  intro e he
  have hn := hnone e he
  unfold Claimable
  split
  · rintro rfl
    simp [claimsNothing] at hn
  · trivial

end KubeYamls.Dex
