import KubeYamls.Dex.Responses

/-! # A code exchange that runs alone

What `handleAuthCode` does to the refresh tokens and the sessions when no other
request is served meanwhile: it stops before it has deleted the code, or before it
has stored a refresh token, or it stores one and then ties it to the session of the
user, in one of three ways (`Tied`). -/
namespace KubeYamls.Dex
open Data Conc Prog List

theorem refIDs_congr {s s'} (h : s'.offlineSessions = s.offlineSessions) : refIDs s' = refIDs s := by
  funext p
  rw [refIDs, refIDs, h]

/-- Whose refresh token is made of the code. -/
def AuthCode.place (code : AuthCode) : Place := (code.claims.userID, code.connectorID, code.clientID)

/-! ## Calls that leave the tokens and the sessions -/

/-- The same refresh tokens and sessions, and no ID forgotten. -/
structure SameTokens (w w' : World) : Prop where
  tokens : w'.store.refreshTokens = w.store.refreshTokens
  sessions : w'.store.offlineSessions = w.store.offlineSessions
  ids : w.ids ⊆ w'.ids

namespace SameTokens
variable {w w1 w2 : World}

theorem refl (w : World) : SameTokens w w := ⟨rfl, rfl, List.Subset.refl _⟩

theorem trans (h : SameTokens w w1) (h' : SameTokens w1 w2) : SameTokens w w2 :=
  ⟨h'.tokens.trans h.tokens, h'.sessions.trans h.sessions, List.Subset.trans h.ids h'.ids⟩

theorem refIDs (h : SameTokens w w1) : refIDs w1.store = refIDs w.store := refIDs_congr h.sessions

end SameTokens

section
variable {codec : Codec} {inst : Nat} {ans : Ans} {o : Op} {r : Res o} {w w' : World}

theorem ids_subset_of_exec (hx : exec codec inst o ans w = some (r, w')) : w.ids ⊆ w'.ids := by
  rcases (exec_effect hx).ids with hids | ⟨s, _, _, hids⟩
  · rw [hids]
    exact List.Subset.refl _
  · rw [hids]
    exact subset_cons_self _ _

theorem sameTokens_of_exec (hx : exec codec inst o ans w = some (r, w'))
    (hc : commitsTokens ⟨o, r⟩ = false) : SameTokens w w' :=
  have hsame := (exec_effect hx).tokens_same hc
  ⟨hsame.1, hsame.2, ids_subset_of_exec hx⟩

theorem commitsTokens_of_quiet (h : quiet o = true) : commitsTokens ⟨o, r⟩ = false := by
  cases o <;> first | rfl | cases h

/-! ## What the storage knows of itself -/

/-- The IDs of the refresh tokens are known to `NewID`, and sessions are stored
under their own keys. -/
structure Keyed (w : World) : Prop where
  tokens : ∀ id x, w.store.refreshTokens.lookup id = some x → id ∈ w.ids
  sessions : ∀ u c s, w.store.offlineSessions.lookup (u, c) = some s → s.userID = u ∧ s.connID = c

theorem Initial.keyed (h : Initial w) : Keyed w :=
  ⟨fun id x hx => (h.refreshTokens id x hx).2.1, h.sessions⟩

theorem Keyed.same (h : Keyed w) (hs : SameTokens w w') : Keyed w' where
  tokens id x hx := hs.ids (h.tokens id x (hs.tokens ▸ hx))
  sessions u c s hl := h.sessions u c s (hs.sessions ▸ hl)

/-- The calls of `storeRef`. -/
def Tying : Op → Prop
  | .createRefresh _ | .updateRefreshToken _ _ => False
  | .updateOfflineSessions _ _ f => ∃ ref, f = setTokenRef ref
  | _ => True

theorem Keyed.step (h : Keyed w) (ho : Tying o) (hx : exec codec inst o ans w = some (r, w')) : Keyed w' where
  tokens id x hl := by
    refine ids_subset_of_exec hx ?_
    rcases (exec_effect hx).refreshTokens hl with hl | ⟨he, _⟩ | ⟨_, _, he, _⟩
    · exact h.tokens id x hl
    · cases he
      exact ho.elim
    · cases he
      exact ho.elim
  sessions u c s hl := by
    rcases (exec_effect hx).sessions hl with hl | ⟨_, hk, _⟩ | ⟨f, old, he, hold, hf⟩
    · exact h.sessions u c s hl
    · exact ⟨(Prod.mk.inj hk).1.symm, (Prod.mk.inj hk).2.symm⟩
    · cases he
      obtain ⟨ref, rfl⟩ := ho
      cases hf
      exact h.sessions u c old hold

end

theorem discardRefresh_only (x : RefreshToken) : (discardRefresh x).Only Tying := by
  refine only_step trivial fun _ => only_step trivial fun res => ?_
  cases res with
  | error e => exact only_op trivial
  | ok => exact only_pure _

theorem replaceRef_only (x : RefreshToken) (session : OfflineSessions) {finish}
    (hfinish : finish.Only Tying) : (replaceRef x session finish).Only Tying := by
  refine only_step ⟨x.ref, rfl⟩ fun res => ?_
  cases res with
  | ok => exact hfinish
  | error | panic => exact discardRefresh_only x

theorem storeRef_only (x : RefreshToken) {finish} (hfinish : finish.Only Tying) :
    (storeRef x finish).Only Tying := by
  refine only_step trivial fun res => ?_
  rcases res with (_ | _ | _) | session
  · refine only_step trivial fun res => ?_
    cases res with
    | error e => exact discardRefresh_only x
    | ok => exact hfinish
  · exact discardRefresh_only x
  · exact discardRefresh_only x
  · dsimp only
    split
    · refine only_step trivial fun res => ?_
      cases res with
      | error e => exact discardRefresh_only x
      | ok => exact replaceRef_only x session hfinish
    · exact replaceRef_only x session hfinish

/-! ## The last calls of an exchange -/

def updateFails : Ev sig → Bool
  | ⟨.updateOfflineSessions _ _ _, .error e⟩ => e = failure
  | _ => false

/-- The storage fails in one of the calls with which an exchange stores its refresh
token, or the token cannot be encoded. -/
def storingFails : Ev sig → Bool
  | ⟨.marshal _ _, .error _⟩ => true
  | ⟨.createRefresh _, .error e⟩ | ⟨.getOfflineSessions _ _, .error e⟩
  | ⟨.createOfflineSessions _, .error e⟩ | ⟨.deleteRefresh _, .error e⟩ => e = failure
  | e => updateFails e

theorem storingFails_of_updateFails {e} (h : updateFails e = true) : storingFails e = true := by
  obtain ⟨o, r⟩ := e
  cases o with
  | updateOfflineSessions => exact h
  | _ => cases h

section
variable {codec : Codec} {inst : Nat} {w w' : World} {es : List (Ev sig)} {x : RefreshToken}
  {idToken : IDToken} {accessToken refreshToken : String} {expiry : Time}

theorem runs_tokenErr {typ description status}
    (h : Runs (exec codec inst) (tokenErrHelper typ description status) w es () w') :
    SameTokens w w' ∧ es = [⟨.write (.tokenErr typ description status), ()⟩] := by
  obtain ⟨ans, hx, rfl⟩ := h.op_inv
  exact ⟨sameTokens_of_exec hx rfl, rfl⟩

theorem runs_writeAccessToken
    (h : Runs (exec codec inst) (writeAccessToken idToken accessToken refreshToken expiry) w es () w') :
    SameTokens w w' ∧ (∃ t, responses es = [.token t]) ∧ ∀ e ∈ es, updateFails e = false := by
  obtain ⟨_, _, w1, _, hx1, h1, rfl⟩ := h.step_inv
  obtain ⟨_, t, w2, _, hx2, h2, rfl⟩ := h1.step_inv
  obtain ⟨_, hx3, rfl⟩ := h2.op_inv
  have hsame := (sameTokens_of_exec hx1 rfl).trans (sameTokens_of_exec hx2 rfl)
  exact ⟨hsame.trans (sameTokens_of_exec hx3 rfl), ⟨_, rfl⟩, by simp [updateFails]⟩

structure Discarded (x : RefreshToken) (w w' : World) : Prop where
  sessions : w'.store.offlineSessions = w.store.offlineSessions
  tokens : ∀ id, id ≠ x.id → w'.store.refreshTokens.lookup id = w.store.refreshTokens.lookup id

theorem runs_discardRefresh (h : Runs (exec codec inst) (discardRefresh x) w es () w') :
    Discarded x w w' ∧ ∀ e ∈ es, updateFails e = false := by
  obtain ⟨_, _, w1, _, hx1, h1, rfl⟩ := h.step_inv
  obtain ⟨_, res, w2, _, hx2, h2, rfl⟩ := h1.step_inv
  have hsame := sameTokens_of_exec hx1 rfl
  have hdel : Discarded x w w2 := by
    rcases storage_delete .refreshTokens hx2 with ⟨_, _, _, rfl⟩ | ⟨_, rfl⟩
    · refine ⟨hsame.sessions, fun id hne => ?_⟩
      rw [← hsame.tokens]
      exact AList.lookup_erase_ne hne
    · exact ⟨hsame.sessions, fun id _ => by rw [hsame.tokens]⟩
  rcases res with e | _
  · obtain ⟨herr, rfl⟩ := runs_tokenErr h2
    refine ⟨⟨herr.sessions.trans hdel.sessions, fun id hne => ?_⟩, by simp [updateFails]⟩
    rw [herr.tokens, hdel.tokens id hne]
  · obtain ⟨rfl, _, rfl⟩ := h2.pure_inv
    exact ⟨hdel, by simp [updateFails]⟩

/-- How an exchange ends after its refresh token `x` was stored. -/
inductive Tied (x : RefreshToken) (w : World) (es : List (Ev sig)) (w' : World) : Prop where
  /-- The reference of `x` is in the session. Only the token of the old reference is gone. -/
  | installed (refs : refIDs w'.store = Function.update (refIDs w.store) x.place (some x.id))
    (tokens : ∀ id, refIDs w.store x.place ≠ some id →
      w'.store.refreshTokens.lookup id = w.store.refreshTokens.lookup id)
    (updated : ∀ e ∈ es, updateFails e = false) (answered : ∃ t, responses es = [.token t])
  /-- Nothing has changed but perhaps the token of `x`. Either the storage has failed, or
  the token of the old reference was not there. -/
  | kept (same : Discarded x w w')
    (updated : refIDs w.store x.place = none ∨ ∀ e ∈ es, updateFails e = false)
    (why : (∃ e ∈ es, storingFails e = true) ∨
      ∃ id, refIDs w.store x.place = some id ∧ w.store.refreshTokens.lookup id = none)
  /-- The token of the old reference is gone, and the reference is not. -/
  | lost (id : String) (old : refIDs w.store x.place = some id) (hne : id ≠ x.id)
    (refs : refIDs w'.store = refIDs w.store) (gone : w'.store.refreshTokens.lookup id = none)
    (failed : ∃ e ∈ es, updateFails e = true)

variable {session : OfflineSessions} {code : AuthCode}

theorem runs_replaceRef (h : Runs (exec codec inst)
      (replaceRef x session (writeAccessToken idToken accessToken refreshToken expiry)) w es () w')
    (hs : w.store.offlineSessions.lookup (x.claims.userID, x.connectorID) = some session)
    (hkey : session.userID = x.claims.userID ∧ session.connID = x.connectorID) :
    (refIDs w'.store = Function.update (refIDs w.store) x.place (some x.id) ∧
      w'.store.refreshTokens = w.store.refreshTokens ∧ (∀ e ∈ es, updateFails e = false) ∧
      ∃ t, responses es = [.token t]) ∨ (Discarded x w w' ∧ ∃ e ∈ es, updateFails e = true) := by
  unfold replaceRef at h
  rw [hkey.1, hkey.2] at h
  obtain ⟨_, res, w1, es', hx, h1, rfl⟩ := h.step_inv
  rcases storage_update .offlineSessions hx with
    ⟨old, new, rfl, hl, hf, rfl⟩ | ⟨rfl | ⟨rfl, hnone⟩ | ⟨old, _, ⟨_, _, hf⟩ | ⟨_, hf⟩⟩, rfl⟩
  · obtain ⟨hsame, ⟨t, ht⟩, hno⟩ := runs_writeAccessToken h1
    refine .inl ⟨?_, hsame.tokens, ?_, t, ?_⟩
    · rw [hsame.refIDs]
      exact refIDs_setTokenRef hl hf
    · exact forall_mem_cons.mpr ⟨rfl, hno⟩
    · rw [responses_other rfl, ht]
  · exact .inr ⟨(runs_discardRefresh h1).1, _, mem_cons_self, by simp [updateFails]⟩
  · cases hs.symm.trans hnone
  · cases hf
  · cases hf

theorem exec_getOfflineSessions_cases {u c ans res}
    (hx : exec codec inst (.getOfflineSessions u c) ans w = some (res, w')) : w' = w ∧ (res = .error failure ∨
      (res = .error .notFound ∧ w.store.offlineSessions.lookup (u, c) = none) ∨
      ∃ session, res = .ok session ∧ w.store.offlineSessions.lookup (u, c) = some session) := by
  simp only [exec] at hx
  obtain ⟨hres, rfl⟩ := storage_get hx
  refine ⟨rfl, hres.imp_right fun hget => ?_⟩
  rcases res with e | session
  · obtain ⟨rfl, hl⟩ := get_error.mp hget.symm
    exact .inl ⟨rfl, hl⟩
  · exact .inr ⟨session, rfl, get_ok.mp hget.symm⟩

theorem Tied.cons {o r} (h : Tied x w es w') (hreply : replied ⟨o, r⟩ = false)
    (hupdate : updateFails ⟨o, r⟩ = false) : Tied x w (⟨o, r⟩ :: es) w' := by
  cases h with
  | installed refs tokens updated answered =>
    refine .installed refs tokens (forall_mem_cons.mpr ⟨hupdate, updated⟩) ?_
    rwa [responses_other hreply]
  | kept same updated why =>
    refine .kept same (updated.imp_right fun hno => forall_mem_cons.mpr ⟨hupdate, hno⟩) (why.imp_left ?_)
    rintro ⟨e, he, hfail⟩
    exact ⟨e, mem_cons_of_mem _ he, hfail⟩
  | lost id old hne refs gone failed =>
    obtain ⟨e, he, hfail⟩ := failed
    exact .lost id old hne refs gone ⟨e, mem_cons_of_mem _ he, hfail⟩

theorem tied_of_failure {e} (h : Runs (exec codec inst) (discardRefresh x) w es () w')
    (hfail : storingFails e = true) (hupdate : updateFails e = false) : Tied x w (e :: es) w' := by
  obtain ⟨hsame, hno⟩ := runs_discardRefresh h
  exact .kept hsame (.inr (forall_mem_cons.mpr ⟨hupdate, hno⟩)) (.inl ⟨e, mem_cons_self, hfail⟩)

theorem runs_replaceRef_first (h : Runs (exec codec inst)
      (replaceRef x session (writeAccessToken idToken accessToken refreshToken expiry)) w es () w')
    (hs : w.store.offlineSessions.lookup (x.claims.userID, x.connectorID) = some session)
    (hkey : session.userID = x.claims.userID ∧ session.connID = x.connectorID)
    (hnone : refIDs w.store x.place = none) : Tied x w es w' := by
  rcases runs_replaceRef h hs hkey with ⟨hrefs, htokens, hno, hanswer⟩ | ⟨hsame, e, he, hfail⟩
  · exact .installed hrefs (fun id _ => by rw [htokens]) hno hanswer
  · exact .kept hsame (.inl hnone) (.inl ⟨e, he, storingFails_of_updateFails hfail⟩)

theorem runs_replaceRef_old {w1 id} (h : Runs (exec codec inst)
      (replaceRef x session (writeAccessToken idToken accessToken refreshToken expiry)) w1 es () w')
    (hsessions : w1.store.offlineSessions = w.store.offlineSessions)
    (htokens : w1.store.refreshTokens = w.store.refreshTokens.erase id)
    (hs : w.store.offlineSessions.lookup (x.claims.userID, x.connectorID) = some session)
    (hkey : session.userID = x.claims.userID ∧ session.connID = x.connectorID)
    (hold : refIDs w.store x.place = some id) (hne : id ≠ x.id) : Tied x w es w' := by
  have hrefs : refIDs w1.store = refIDs w.store := refIDs_congr hsessions
  rcases runs_replaceRef h (hsessions ▸ hs) hkey with ⟨hinst, htok, hno, hanswer⟩ | ⟨hsame, hfail⟩
  · refine .installed (hrefs ▸ hinst) (fun id' hother => ?_) hno hanswer
    rw [htok, htokens]
    exact AList.lookup_erase_ne fun heq => hother (heq ▸ hold)
  · refine .lost id hold hne ((refIDs_congr hsame.sessions).trans hrefs) ?_ hfail
    rw [hsame.tokens id hne, htokens]
    exact AList.lookup_erase _ _

theorem runs_storeRef (hw : Keyed w) (hfresh : refIDs w.store x.place ≠ some x.id) (h : Runs (exec codec inst)
      (storeRef x (writeAccessToken idToken accessToken refreshToken expiry)) w es () w') : Tied x w es w' := by
  obtain ⟨_, res, w1, es1, hx1, h1, rfl⟩ := h.step_inv
  obtain ⟨rfl, rfl | ⟨rfl, hl⟩ | ⟨session, rfl, hl⟩⟩ := exec_getOfflineSessions_cases hx1
  · -- the session cannot be read
    exact tied_of_failure h1 (by simp [storingFails]) rfl
  · -- there is none
    refine Tied.cons ?_ rfl rfl
    obtain ⟨_, res, w2, es2, hx2, h2, rfl⟩ := h1.step_inv
    rcases storage_create .offlineSessions hx2 with ⟨rfl, hk, rfl⟩ | ⟨rfl | ⟨_, old, hold⟩, rfl⟩
    · obtain ⟨hsame, ⟨t, ht⟩, hno⟩ := runs_writeAccessToken h2
      refine .installed ?_ (fun id _ => by rw [hsame.tokens]) (forall_mem_cons.mpr ⟨rfl, hno⟩) ⟨t, ?_⟩
      · rw [hsame.refIDs]
        exact refIDs_newOfflineSessions hl
      · rw [responses_other rfl, ht]
    · exact tied_of_failure h2 (by simp [storingFails]) rfl
    · cases hl.symm.trans hold
  · -- a session, with or without a reference for the client
    have hkey := hw.sessions _ _ _ hl
    have hrefs : refIDs w1.store x.place = (session.refresh.lookup x.clientID).map (·.id) :=
      refIDs_of_lookup hl x.clientID
    refine Tied.cons ?_ rfl rfl
    cases hold : session.refresh.lookup x.clientID with
    | none =>
      simp only [RefreshToken.ref, hold] at h1
      rw [hold] at hrefs
      exact runs_replaceRef_first h1 hl hkey hrefs
    | some ref =>
      simp only [RefreshToken.ref, hold] at h1
      rw [hold] at hrefs
      obtain ⟨_, res, w2, es2, hx2, h2, rfl⟩ := h1.step_inv
      rcases storage_delete .refreshTokens hx2 with
        ⟨old, rfl, hstored, rfl⟩ | ⟨rfl | ⟨rfl, hgone⟩, rfl⟩
      · have hne : ref.id ≠ x.id := fun heq => hfresh (heq ▸ hrefs)
        refine Tied.cons ?_ rfl rfl
        exact runs_replaceRef_old h2 rfl rfl hl hkey hrefs hne
      · exact tied_of_failure h2 (by simp [storingFails]) rfl
      · obtain ⟨hsame, hno⟩ := runs_discardRefresh h2
        exact .kept hsame (.inr (forall_mem_cons.mpr ⟨by simp [updateFails], hno⟩))
          (.inr ⟨ref.id, hrefs, hgone⟩)

/-! ## The whole exchange -/

/-- The calls of an exchange up to the stored refresh token. -/
def leading : Op → Bool
  | .getAuthCode _ | .deleteAuthCode _ | .newID | .createRefresh _ => true
  | o => quiet o

theorem leading_of_quiet {o} (h : quiet o = true) : leading o = true := by
  cases o <;> first | rfl | cases h

theorem responses_leading {es1} (h : ∀ e ∈ es1, leading e.1 = true) : responses es1 = [] := by
  refine responses_eq_nil fun e he => ?_
  have hl := h e he
  obtain ⟨o, r⟩ := e
  cases o with
  | write => cases hl
  | _ => rfl

theorem responses_append_leading {es1} (h : ∀ e ∈ es1, leading e.1 = true)
    (es2 : List (Ev sig)) : responses (es1 ++ es2) = responses es2 := by
  have hnil := responses_leading h
  unfold responses at hnil ⊢
  rw [filterMap_append, hnil, nil_append]

theorem updates_leading {e} (h : leading e.1 = true) : updateFails e = false := by
  obtain ⟨o, r⟩ := e
  cases o with
  | updateOfflineSessions => cases h
  | _ => rfl

def RefreshToken.store (x : RefreshToken) (w : World) : World :=
  { w with store := { w.store with refreshTokens := w.store.refreshTokens.insert x.id x } }

/-- How far an exchange gets once the code is deleted. -/
inductive Redeemed (codec : Codec) (inst : Nat) (code : AuthCode) (w : World) (es : List (Ev sig))
    (w' : World) : Prop where
  | failed (same : SameTokens w w') (hno : ∀ e ∈ es, updateFails e = false)
    (why : ∃ e ∈ es, connectorFails e = true ∨ storingFails e = true)
  | issued (same : SameTokens w w') (hno : ∀ e ∈ es, updateFails e = false)
    (answered : ∃ t, responses es = [.token t])
  | stored (x : RefreshToken) (w0 : World) (es1 es2 : List (Ev sig)) (idToken : IDToken)
    (accessToken refreshToken : String) (expiry : Time) (hes : es = es1 ++ es2)
    (hlead : ∀ e ∈ es1, leading e.1 = true) (hplace : x.place = code.place) (same : SameTokens w w0)
    (hnew : x.id ∉ w.ids) (hid : x.id ∈ w0.ids)
    (run : Runs (exec codec inst)
      (storeRef x (writeAccessToken idToken accessToken refreshToken expiry)) (x.store w0) es2 () w')

theorem Redeemed.prepend {w0 es0} (h : Redeemed codec inst code w0 es w')
    (hlead : ∀ e ∈ es0, leading e.1 = true) (hsame : SameTokens w w0) :
    Redeemed codec inst code w (es0 ++ es) w' := by
  have hno {es : List (Ev sig)} (h : ∀ e ∈ es, updateFails e = false) :
      ∀ e ∈ es0 ++ es, updateFails e = false :=
    forall_mem_append.mpr ⟨fun e he => updates_leading (hlead e he), h⟩
  cases h with
  | failed same hno' why =>
    obtain ⟨e, he, hw⟩ := why
    exact .failed (hsame.trans same) (hno hno') ⟨e, mem_append_right _ he, hw⟩
  | issued same hno' answered =>
    exact .issued (hsame.trans same) (hno hno') (by rwa [responses_append_leading hlead])
  | stored x w1 es1 es2 idToken accessToken refreshToken expiry hes hl hplace same hnew hid run =>
    exact .stored x w1 (es0 ++ es1) es2 idToken accessToken refreshToken expiry (by rw [hes, append_assoc])
      (forall_mem_append.mpr ⟨hlead, hl⟩) hplace (hsame.trans same)
      (fun hmem => hnew (hsame.ids hmem)) hid run

theorem runs_getConnector {id res} (h : Runs (exec codec inst) (getConnector id) w es res w') :
    SameTokens w w' ∧ (∀ e ∈ es, connecting e.1 = true) ∧
      ∀ e, res = .error e → ∃ e ∈ es, connectorFails e = true := by
  obtain ⟨hsame, hes⟩ := h.keeps (getConnector_only id) SameTokens.refl SameTokens.trans
    fun o ans r w w' ho hx => sameTokens_of_exec hx (commitsTokens_of_quiet (quiet_of_connecting ho))
  have hfine : Fine [] := by simp [Fine]
  obtain ⟨_, herr⟩ := h.post (C := possible codec) (fun _ _ _ _ _ _ hx => ⟨_, _, _, _, hx⟩)
    (fine_getConnector hfine id)
  refine ⟨hsame, hes, fun e he => ?_⟩
  simpa using herr e he

theorem runs_reqRefresh {b} (h : Runs (exec codec inst) (reqRefresh code) w es b w') :
    SameTokens w w' ∧ (∀ e ∈ es, updateFails e = false) ∧
      ((∀ e ∈ es, leading e.1 = true) ∨ (b = false ∧ ∃ e ∈ es, connectorFails e = true)) := by
  obtain ⟨res, w1, es1, es2, h1, h2, rfl⟩ := h.bind_inv
  obtain ⟨hsame, hes, herr⟩ := runs_getConnector h1
  have hlead : ∀ e ∈ es1, leading e.1 = true :=
    fun e he => leading_of_quiet (quiet_of_connecting (hes e he))
  rcases res with e | conn
  · obtain ⟨_, w2, es3, _, h3, h4, rfl⟩ := h2.bind_inv
    obtain ⟨herr', rfl⟩ := runs_tokenErr h3
    obtain ⟨rfl, rfl, rfl⟩ := h4.pure_inv
    obtain ⟨f, hf, hfails⟩ := herr e rfl
    refine ⟨hsame.trans herr', ?_, .inr ⟨rfl, f, mem_append_left _ hf, hfails⟩⟩
    exact forall_mem_append.mpr ⟨fun e he => updates_leading (hlead e he), by simp [updateFails]⟩
  · have hpure : es2 = [] ∧ w' = w1 := by
      dsimp only at h2
      split at h2
      · obtain ⟨rfl, _, rfl⟩ := h2.pure_inv
        exact ⟨rfl, rfl⟩
      · obtain ⟨rfl, _, rfl⟩ := h2.pure_inv
        exact ⟨rfl, rfl⟩
    obtain ⟨rfl, rfl⟩ := hpure
    rw [append_nil]
    exact ⟨hsame, fun e he => updates_leading (hlead e he), .inl hlead⟩

theorem runs_redeem (hw : Keyed w)
    (h : Runs (exec codec inst) (redeem code idToken expiry accessToken) w es () w') :
    Redeemed codec inst code w es w' := by
  obtain ⟨b, w0, es0, es1, hreq, hrest, rfl⟩ := h.bind_inv
  obtain ⟨hsame0, hno0, hlead0⟩ := runs_reqRefresh hreq
  cases b with
  | false =>
    have hwrite : Runs (exec codec inst) (writeAccessToken idToken accessToken "" expiry) w0 es1 () w' :=
      hrest
    obtain ⟨hsame1, hanswer, hno1⟩ := runs_writeAccessToken hwrite
    rcases hlead0 with hlead0 | ⟨_, e, he, hf⟩
    · exact Redeemed.prepend (.issued hsame1 hno1 hanswer) hlead0 hsame0
    · exact .failed (hsame0.trans hsame1) (forall_mem_append.mpr ⟨hno0, hno1⟩)
        ⟨e, mem_append_left _ he, .inl hf⟩
  | true =>
    refine Redeemed.prepend ?_ (hlead0.resolve_right (by simp)) hsame0
    -- the calls that draw the new token
    obtain ⟨_, id, w1, _, hx1, h1, rfl⟩ := hrest.step_inv
    obtain ⟨_, token, w2, _, hx2, h2, rfl⟩ := h1.step_inv
    obtain ⟨_, t1, w3, _, hx3, h3, rfl⟩ := h2.step_inv
    obtain ⟨_, t2, w4, _, hx4, h4, rfl⟩ := h3.step_inv
    obtain ⟨_, res, w5, es5, hx5, h5, rfl⟩ := h4.step_inv
    obtain ⟨hnew, hids⟩ := (exec_effect hx1).of_newID
    have hdrawn : SameTokens w1 w5 :=
      (((sameTokens_of_exec hx2 rfl).trans (sameTokens_of_exec hx3 rfl)).trans
        (sameTokens_of_exec hx4 rfl)).trans (sameTokens_of_exec hx5 rfl)
    have hsame := (sameTokens_of_exec hx1 rfl).trans hdrawn
    have hid : id ∈ w5.ids := hdrawn.ids (by rw [hids]; exact mem_cons_self)
    rcases res with e | raw
    · obtain ⟨herr, rfl⟩ := runs_tokenErr h5
      exact .failed (hsame.trans herr) (by simp [updateFails]) ⟨⟨.marshal id token, .error e⟩, by simp, .inr rfl⟩
    obtain ⟨_, res, w6, es6, hx6, h6, rfl⟩ := h5.step_inv
    rcases storage_create .refreshTokens hx6 with ⟨rfl, _, rfl⟩ | ⟨rfl | ⟨_, old, hold⟩, rfl⟩
    · exact .stored (refreshOf code id token t1 t2) w5 [⟨.newID, id⟩, ⟨.newID, token⟩, ⟨.now, t1⟩,
        ⟨.now, t2⟩, ⟨.marshal id token, .ok raw⟩, ⟨.createRefresh _, .ok ()⟩] es6 idToken accessToken raw
        expiry rfl (by simp [leading, quiet]) rfl hsame hnew hid h6
    · obtain ⟨herr, rfl⟩ := runs_tokenErr h6
      exact .failed (hsame.trans herr) (by simp [updateFails])
        ⟨⟨.createRefresh (refreshOf code id token t1 t2), .error failure⟩, by simp, .inr (by simp [storingFails])⟩
    · -- an ID that was just drawn is not that of a token
      have hstored : w0.store.refreshTokens.lookup id = some old := by
        rw [← hsame.tokens]
        exact hold
      exact absurd ((hw.same hsame0).tokens id old hstored) hnew

/-- An exchange that ended without having deleted the code. -/
structure Refused (code : String) (w : World) (es : List (Ev sig)) (w' : World) : Prop where
  same : SameTokens w w'
  updated : ∀ e ∈ es, updateFails e = false
  undeleted : (⟨.deleteAuthCode code, .ok ()⟩ : Ev sig) ∉ es

theorem refused_of_tokenErr {code typ description status w0}
    (es0 : List (Ev sig)) (hlead : ∀ e ∈ es0, leading e.1 = true)
    (hdel : (⟨.deleteAuthCode code, .ok ()⟩ : Ev sig) ∉ es0) (hsame : SameTokens w w0)
    (h : Runs (exec codec inst) (tokenErrHelper typ description status) w0 es () w') :
    Refused code w (es0 ++ es) w' := by
  obtain ⟨herr, rfl⟩ := runs_tokenErr h
  refine ⟨hsame.trans herr, ?_, by simpa using hdel⟩
  exact forall_mem_append.mpr ⟨fun e he => updates_leading (hlead e he), by simp [updateFails]⟩

theorem runs_exchange {c client raw} (hw : Keyed w)
    (h : Runs (exec codec inst) (exchange c client raw code) w es () w') :
    Refused raw w es w' ∨ Redeemed codec inst code w es w' := by
  obtain ⟨_, accessToken, w1, es1, hx1, h1, rfl⟩ := h.step_inv
  obtain ⟨res, w2, es2, es3, h2, h3, rfl⟩ := h1.bind_inv
  obtain ⟨hmint, hes⟩ := h2.keeps (newIDToken_only _ _ _ _ _ _ _) SameTokens.refl SameTokens.trans
    fun o ans r w w' ho hx => sameTokens_of_exec hx (commitsTokens_of_quiet (quiet_of_minting ho))
  have hsame := (sameTokens_of_exec hx1 rfl).trans hmint
  have hlead : ∀ e ∈ (⟨.newID, accessToken⟩ :: es2 : List (Ev sig)), leading e.1 = true :=
    forall_mem_cons.mpr ⟨rfl, fun e he => leading_of_quiet (quiet_of_minting (hes e he))⟩
  have hdel : (⟨.deleteAuthCode raw, .ok ()⟩ : Ev sig) ∉ (⟨.newID, accessToken⟩ :: es2 : List (Ev sig)) := by
    intro hmem
    rcases mem_cons.mp hmem with heq | hmem
    · cases heq
    · cases hes _ hmem
  rcases res with e | ⟨idToken, expiry⟩
  · exact .inl (refused_of_tokenErr _ hlead hdel hsame h3)
  obtain ⟨_, res, w3, es4, hx4, h4, rfl⟩ := h3.step_inv
  have hsame' := hsame.trans (sameTokens_of_exec hx4 rfl)
  have hlead' : ∀ e ∈ ⟨.newID, accessToken⟩ :: es2 ++ [(⟨.deleteAuthCode raw, res⟩ : Ev sig)],
      leading e.1 = true := forall_mem_append.mpr ⟨hlead, by simp [leading]⟩
  rw [show (⟨.newID, accessToken⟩ :: (es2 ++ ⟨.deleteAuthCode raw, res⟩ :: es4) : List (Ev sig)) =
    (⟨.newID, accessToken⟩ :: es2 ++ [⟨.deleteAuthCode raw, res⟩]) ++ es4 by simp]
  rcases res with e | _
  · refine .inl (refused_of_tokenErr _ hlead' ?_ hsame' h4)
    intro hmem
    rcases mem_append.mp hmem with hmem | hmem
    · exact hdel hmem
    · cases mem_singleton.mp hmem
  · exact .inr ((runs_redeem (hw.same hsame') h4).prepend hlead' hsame')

theorem runs_handleAuthCode {c r client} (hw : Keyed w) (hcode : w.store.authCodes.lookup r.code = some code)
    (h : Runs (exec codec inst) (handleAuthCode c r client) w es () w') :
    Refused r.code w es w' ∨ Redeemed codec inst code w es w' := by
  obtain ⟨_, res, w1, es1, hx1, h1, rfl⟩ := h.step_inv
  have hsame1 := sameTokens_of_exec hx1 rfl
  simp only [exec] at hx1
  obtain ⟨hres, rfl⟩ := storage_get hx1
  rcases hres with rfl | rfl
  · exact .inl (refused_of_tokenErr [⟨.getAuthCode r.code, .error failure⟩]
      (by simp [leading]) (by simp) hsame1 h1)
  rw [get_ok.mpr hcode] at h1 ⊢
  obtain ⟨_, t, w2, es2, hx2, h2, rfl⟩ := h1.step_inv
  have hsame2 := hsame1.trans (sameTokens_of_exec hx2 rfl)
  have hlead : ∀ e ∈ ([⟨.getAuthCode r.code, .ok code⟩, ⟨.now, t⟩] : List (Ev sig)), leading e.1 = true := by
    simp [leading, quiet]
  split at h2
  · exact .inl (refused_of_tokenErr [⟨.getAuthCode r.code, .ok code⟩, ⟨.now, t⟩] hlead (by simp) hsame2 h2)
  split at h2
  · exact .inl (refused_of_tokenErr [⟨.getAuthCode r.code, .ok code⟩, ⟨.now, t⟩] hlead (by simp) hsame2 h2)
  rcases runs_exchange (hw.same hsame2) h2 with href | hred
  · refine .inl ⟨hsame2.trans href.same, ?_, by simpa using href.undeleted⟩
    exact forall_mem_cons.mpr ⟨rfl, forall_mem_cons.mpr ⟨rfl, href.updated⟩⟩
  · exact .inr (hred.prepend hlead hsame2)

end

end KubeYamls.Dex
