import KubeYamls.Dex.Bijection

/-! # Revocation and the refreshes in flight

`RevokeRefresh` takes the reference out of the session in one call and deletes
the token in another, and a refresh reads the token long before it looks for the
reference. What a client was handed before a revocation stays useless after it,
because a session never refers to an ID again once it has lost it. -/
namespace KubeYamls.Dex
open Data Conc List Option

section
variable {S : Setup} {s : Sys (dex S)} {tid : Nat} {req : Request}

/-- A call of `RevokeRefresh` for the place `p` has succeeded: `before` had
happened when it was started, and `after` has happened since it returned. -/
structure Revocation (hist : List (Step S)) (p : Place) (before after : List (Step S)) : Prop where
  split : ∃ v inst r req pre post during, hist = after ++ .act v req (.write (.revoke false)) () pre post ::
      (during ++ .start v ⟨inst, .revokeRefresh r⟩ :: before) ∧
    S.codec.unmarshal r.userId = some (p.1, p.2.1) ∧ r.clientId = p.2.2

theorem Revocation.update {Init} (h : Reach Init s) {p before after} (hr : Revocation s.hist p before after) :
    ∃ s0 v req old pre post l1 l2, Reach Init s0 ∧ s0.hist = before ∧
      s.hist = after ++ (l1 ++ .act v req (.updateOfflineSessions p.1 p.2.1 (revokeUpdater p.2.2))
        (.ok old) pre post :: (l2 ++ s0.hist)) := by
  obtain ⟨v, inst, r, req, pre, post, during, hs, hu, hc⟩ := hr.split
  obtain ⟨s0, hm, _, hh⟩ := Reach.made h hs
  obtain ⟨r', u, c, old, hk, hu', hd⟩ := hm.duty
  -- the thread serves the request it was started with
  obtain ⟨_, hth⟩ := hm.reach.thread_of_owner (hh ▸ mem_append_right _ mem_cons_self) rfl
  obtain ⟨k, hth'⟩ := hm.ready
  rw [hth'] at hth
  cases hth
  cases hk
  cases hu.symm.trans hu'
  rw [hc] at hd
  obtain ⟨a, b, q, pre', post', rfl⟩ := hm.reach.since_start hh hd
  obtain ⟨s1, hr1, hb, _⟩ := hm.reach.split_start hh
  exact ⟨s1, v, q, old, pre', post', .act v ⟨inst, .revokeRefresh r⟩ (.write (.revoke false)) () pre post :: a,
    b ++ [.start v ⟨inst, .revokeRefresh r⟩], hr1, hb, by rw [hs, hb]; simp⟩

theorem Installed.saw (h : Reach Initial s) {x}
    (hc : did (past tid s.hist) (.createRefresh x) (.ok ())) (hi : Installed (past tid s.hist) x) :
    ∃ w0, Saw s.hist w0 ∧ refIDs w0.store x.place = some x.id := by
  have hev : ∃ e ∈ past tid s.hist, x.id ∈ installed e := by
    rcases hi with hd | ⟨u, c, old, hd⟩
    · exact ⟨_, hd, mem_singleton_self _⟩
    · exact ⟨_, hd, mem_singleton_self _⟩
  obtain ⟨⟨o, r⟩, hd, hid⟩ := hev
  obtain ⟨_, s0, w', hm⟩ := Reach.did_made h hd
  obtain ⟨k, hth⟩ := hm.ready
  obtain ⟨_, hx⟩ := hm.exec
  obtain ⟨_, _, _, x', hst, _, _, hid', hw⟩ := (refStep hm.reach hth hx).of_installed hid
  cases created_unique h hc (hst.created.mono hm.sublist)
  exact ⟨w', .post hm.mem, by rw [hw, Function.update_self]⟩

theorem Touched.saw {Init} (h : Reach Init s) {x t} (ht : Touched (past tid s.hist) x t) :
    ∃ w0, Saw s.hist w0 ∧ refIDs w0.store x.place = some x.id := by
  obtain ⟨old, hd⟩ := ht
  obtain ⟨_, s0, w', hm⟩ := Reach.did_made h hd
  exact ⟨s0.world, .pre hm.mem, (touch_effect hm.effect).1⟩

theorem handedOut_saw (h : Reach Initial s) {raw} (hraw : raw ∈ handedOut s.hist tid) :
    raw = "" ∨ ∃ id token p w0, S.codec.unmarshal raw = some (id, token) ∧ Saw s.hist w0 ∧
      refIDs w0.store p = some id := by
  obtain ⟨_, _, hd⟩ := mem_handedOut.mp hraw
  obtain ⟨req, s0, w', hm⟩ := Reach.did_made h hd
  cases hm.duty with
  | code _ => exact .inl rfl
  | offline hc hi hraw =>
    obtain ⟨w0, hw, hp⟩ := Installed.saw h (hc.created.mono hm.sublist) (hi.mono hm.sublist)
    exact .inr ⟨_, _, _, w0, S.codec.unmarshal_marshal hraw, hw, hp⟩
  | refresh hc ht _ hraw =>
    obtain ⟨w0, hw, hp⟩ := (ht.mono hm.sublist).saw h
    exact .inr ⟨_, _, _, w0, S.codec.unmarshal_marshal hraw, hw, hp⟩

end

/-- Revocation is final: a refresh that starts after it, and presents for the same
user, connector and client the pair that was handed out before it, hands out nothing.
An empty text stands for no refresh token. -/
theorem revocation_final (S : Setup) (s : Sys (dex S)) (h : Reach Initial s) (p : Place)
    (before after : List (Step S)) (hr : Revocation s.hist p before after)
    (tid : Nat) (raw : String) (hraw : raw ∈ handedOut before tid)
    (t inst : Nat) (q : TokenRequest) (ht : .start t ⟨inst, .token q⟩ ∈ after)
    (hg : q.grantType = grantTypeRefreshToken)
    (hq : decodeRefresh S.codec q.refreshToken = decodeRefresh S.codec raw) (hnone : raw = "" → q.refreshToken = "")
    (x : RefreshToken) (hx : did (past t s.hist) (.getRefresh (decodeRefresh S.codec raw).1) (.ok x))
    (hp : x.place = p) : handedOut s.hist t = [] := by
  obtain ⟨s0, v, req, old, pre, post, l1, l2, hr0, rfl, hs⟩ := hr.update h
  obtain ⟨a1, a2, rfl⟩ := append_of_mem ht
  refine eq_nil_iff_forall_not_mem.mpr fun raw' hraw' => ?_
  obtain ⟨_, hth⟩ := h.thread_of_owner
    (hs ▸ mem_append_left _ (mem_append_right _ mem_cons_self)) rfl
  have hreq : tokenRequest s t = some q := by rw [tokenRequest, hth]
  obtain ⟨_, _, y, _, _, _, _, hc, ⟨_, htouch⟩, _⟩ := Refreshes.hands h ⟨hreq, hg⟩ hraw'
  -- the session referred to the ID before the revocation was started
  obtain hempty | ⟨id, token, p0, w0, hdec, hw0, hp0⟩ := handedOut_saw hr0 hraw
  · exact hc.given (hnone hempty)
  have hid : y.id = id := by
    rw [read_refresh_id h hc.read, hq, decodeRefresh, hdec]
    rfl
  -- and it refers to it when the refresh looks, which is after the revocation
  rw [append_assoc, cons_append] at hs
  obtain ⟨b1, b2, q', pre', post', rfl⟩ := h.since_start hs htouch
  rw [append_assoc, cons_append] at hs
  obtain ⟨s2, hm, rfl, hh⟩ := Reach.made h hs
  obtain ⟨hat, _⟩ := touch_effect hm.effect
  have hplace : p0 = p := by
    rw [← hp, read_place h (hq ▸ hx) hc.read]
    have hsaw : Saw s2.hist w0 := hw0.mono fun e he => by simp [hh, he]
    exact (refPlaces S).same refNames_lawful hm.reach hsaw (hid ▸ hp0) (hid ▸ hat)
  subst hplace
  have hs2 : s2.hist = (b2 ++ .start t ⟨inst, .token q⟩ :: (a2 ++ l1)) ++ .act v req
      (.updateOfflineSessions p0.1 p0.2.1 (revokeUpdater p0.2.2)) (.ok old) pre post ::
        (l2 ++ s0.hist) := by
    rw [hh]
    simp
  exact revoked_absent hm.reach rfl hs2 (hw0.mono fun e he => by simp [he]) hp0
    ⟨y.place, hid ▸ hat⟩

/-- The thread whose call of `RevokeRefresh` returns with success. -/
def revokeReturned {S : Setup} : Step S → Option Nat
  | .act tid _ (.write (.revoke false)) _ _ _ => some tid
  | _ => none

/-- The thread that starts to serve a `RevokeRefresh`, and what that is for. -/
def revokeStarted {S : Setup} : Step S → Option (Nat × Option (String × String) × String)
  | .start tid ⟨_, .revokeRefresh r⟩ => some (tid, S.codec.unmarshal r.userId, r.clientId)
  | _ => none

def tokenStarted {S : Setup} : Step S → Option (Nat × TokenRequest)
  | .start tid ⟨_, .token q⟩ => some (tid, q)
  | _ => none

def refreshRead : Ev sig → Option (String × Place)
  | ⟨.getRefresh id, .ok x⟩ => some (id, x.place)
  | _ => none

theorem Revocation.of_split {S hist rest before after during}
    {e e' : Step S} {v p} (hs : hist = after ++ e :: rest) (he : revokeReturned e = some v)
    (hs' : rest = during ++ e' :: before) (he' : revokeStarted e' = some (v, some (p.1, p.2.1), p.2.2)) :
    Revocation hist p before after := by
  unfold revokeReturned at he
  unfold revokeStarted at he'
  split at he
  · cases he
    split at he'
    · obtain ⟨rfl, hplace⟩ := Prod.mk.inj (some.inj he')
      rw [hs'] at hs
      exact ⟨_, _, _, _, _, _, _, hs, Prod.mk.inj hplace⟩
    · cases he'
  · cases he

theorem tokenStarted_eq {S} {e : Step S} {tid q} (h : tokenStarted e = some (tid, q)) :
    ∃ inst, e = .start tid ⟨inst, .token q⟩ := by
  unfold tokenStarted at h
  split at h
  · cases h
    exact ⟨_, rfl⟩
  · cases h

theorem refreshRead_eq {e id p} (h : refreshRead e = some (id, p)) :
    ∃ x, e = ⟨.getRefresh id, .ok x⟩ ∧ x.place = p := by
  unfold refreshRead at h
  split at h
  · obtain ⟨rfl, hp⟩ := Prod.mk.inj (some.inj h)
    exact ⟨_, rfl, hp⟩
  · cases h

/-- The orphaned token of the first exchange, after the reference to that of the
second was revoked. -/
@[irreducible] def revokedRun : Sys (dex demo) := .after demoWorld <|
  orphanSteps ++ revoking 13 (plains 3) ++ refreshing 14 "y" "y1" "at14" "y2" ++ going 14 (plains 2)

theorem revoked_orphan_refused : (∃ before after, Revocation revokedRun.hist ("1", "a", "app") before after ∧
      (codec.marshal "y" "y1").getD "" ∈ handedOut before 11) ∧
    (∃ x, did (past 14 revokedRun.hist) (.getRefresh "y") (.ok x) ∧ x.place = ("1", "a", "app")) ∧
    handedOut revokedRun.hist 14 = [] := by
  have h : Reach Initial revokedRun := by
    unfold revokedRun
    exact .after demo_blank.toInitial _
  obtain ⟨hdone, hstart, hraw, hrefresh, hread, hdec⟩ :
      revokedRun.hist[19]?.bind revokeReturned = some 13 ∧
      (revokedRun.hist.drop 20)[2]?.bind revokeStarted = some (13, some ("1", "a"), "app") ∧
      (codec.marshal "y" "y1").getD "" ∈ handedOut ((revokedRun.hist.drop 20).drop 3) 11 ∧
      (revokedRun.hist.take 19).findSome? tokenStarted = some (14, refreshRequest "y" "y1") ∧
      (past 14 revokedRun.hist).findSome? refreshRead = some ("y", "1", "a", "app") ∧
      (decodeRefresh codec ((codec.marshal "y" "y1").getD "")).1 = "y" := by
    decide +kernel
  obtain ⟨e, hs, he⟩ := split_at hdone
  obtain ⟨e', hs', he'⟩ := split_at hstart
  have hr : Revocation revokedRun.hist ("1", "a", "app") ((revokedRun.hist.drop 20).drop 3)
      (revokedRun.hist.take 19) := .of_split hs he hs' he'
  obtain ⟨_, hread, hf⟩ := exists_of_findSome?_eq_some hread
  obtain ⟨x, rfl, hp⟩ := refreshRead_eq hf
  obtain ⟨_, ht, hf⟩ := exists_of_findSome?_eq_some hrefresh
  obtain ⟨inst, rfl⟩ := tokenStarted_eq hf
  exact ⟨⟨_, _, hr, hraw⟩, ⟨x, hread, hp⟩,
    revocation_final demo revokedRun h _ _ _ hr 11 _ hraw 14 _ _ ht rfl rfl id x (hdec ▸ hread) hp⟩

/-! ## Refreshes that lose their reference -/

section
variable {S : Setup} {s : Sys (dex S)} {tid : Nat} {req : Request}

/-- A refresh under way: its thread, the place of its token, and whether the
session had a reference there when the token was read. -/
structure RefreshRun where
  tid : Nat
  place : Place
  referenced : Bool
  deriving DecidableEq

/-- The refresh that reads, in a step, the token it was given. -/
def presented : Step S → Option RefreshRun
  | .act tid req (.getRefresh _) (.ok x) w _ =>
    match req.kind with
    | .token r =>
      if x.token = (decodeRefresh S.codec r.refreshToken).2 then
        some ⟨tid, x.place, (refIDs w.store x.place).isSome⟩
      else none
    | _ => none
  | _ => none

/-- The thread that has run its updater on the session, or answers its client. -/
def through : Step S → Option Nat
  | .act tid _ (.updateOfflineSessions _ _ _) _ _ _ => some tid
  | .act tid _ (.write _) _ _ _ => some tid
  | _ => none

/-- The refreshes that have read their token and not yet looked for its reference. -/
def underWay : List (Step S) → List RefreshRun := ongoing presented fun e l => through e = some l.tid

/-- Where a step takes a reference away. -/
def revokedAt : Step S → Option Place
  | .act _ req (.updateOfflineSessions u c _) (.ok _) _ _ =>
    match req.kind with
    | .revokeRefresh r => some (u, c, r.clientId)
    | _ => none
  | _ => none

/-- A refresh finds a reference in the place of the token it reads, and none is
revoked there while a refresh is under way. -/
def Sheltered (hist : List (Step S)) (e : Step S) : Prop :=
  (∀ l ∈ presented e, l.referenced = true) ∧ ∀ p ∈ revokedAt e, ∀ l ∈ underWay hist, l.place ≠ p

instance (hist : List (Step S)) (e : Step S) : Decidable (Sheltered hist e) :=
  inferInstanceAs (Decidable ((∀ l ∈ presented e, _) ∧ ∀ p ∈ revokedAt e, _))

theorem mem_underWay_cons {e} {hist : List (Step S)} {l} :
    l ∈ underWay (e :: hist) ↔ presented e = some l ∨ (l ∈ underWay hist ∧ through e ≠ some l.tid) := by
  simp [underWay]

theorem presented_cases {tid o r w w' l} (h : presented (.act tid req o r w w' : Step S) = some l) : ∃ id x,
      (⟨o, r⟩ : Ev sig) = ⟨.getRefresh id, .ok x⟩ ∧ l = ⟨tid, x.place, (refIDs w.store x.place).isSome⟩ := by
  unfold presented at h
  split at h
  · rename_i heq
    cases heq
    split at h
    · split at h
      · cases h
        exact ⟨_, _, rfl, rfl⟩
      · cases h
    · cases h
  · cases h

theorem RefreshChecked.underWay (h : Reach Initial s) {p} (hth : s.threads[tid]? = some ⟨req, p⟩) {r client x}
    (hc : RefreshChecked S req (past tid s.hist) r client x) (hu : Untouched (past tid s.hist))
    (hw : Unwritten (past tid s.hist)) : ∃ b, ⟨tid, x.place, b⟩ ∈ underWay s.hist := by
  obtain ⟨req', pre, post, he⟩ := mem_past.mp hc.read
  obtain ⟨_, hth'⟩ := h.thread_of_mem he
  rw [hth] at hth'
  cases hth'
  refine ⟨_, mem_ongoing he (by simp [presented, hc.kind, hc.token]; rfl) fun e' he' => ?_⟩
  by_contra ha
  simp only [Bool.not_eq_false, decide_eq_true_eq] at ha
  unfold through at ha
  split at ha
  · cases ha
    exact hu _ _ rfl (mem_past.mpr ⟨_, _, _, he'⟩)
  · cases ha
    exact hw _ (mem_past.mpr ⟨_, _, _, he'⟩)
  · cases ha

theorem underWay_referenced (h : Reach Initial s) (hC : Along Sheltered s.hist) {l}
    (hl : l ∈ underWay s.hist) : refIDs s.world.store l.place ≠ none := by
  refine Reach.invariant (C := Sheltered) (I := fun w hist => ∀ l ∈ underWay hist,
    refIDs w.store l.place ≠ none) ?_ ?_ ?_ ?_ h hC l hl
  · intro w _ l hl
    cases hl
  · intro w hist tid req ih l hl
    rcases mem_underWay_cons.mp hl with hb | ⟨hl, _⟩
    · cases hb
    · exact ih l hl
  · intro s tid req o k ans r w' hr hC ih hth hx l hl
    rcases mem_underWay_cons.mp hl with hb | ⟨hold, _⟩
    · -- it begins with a reference there
      obtain ⟨id, x, heq, rfl⟩ := presented_cases hb
      cases heq
      have hsome := hC.1.1 _ hb
      cases exec_effect hx
      exact isSome_iff_ne_none.mp hsome
    · refine (refStep hr hth hx).keeps (ih l hold) fun q u c f old hk he => ?_
      cases he
      exact hC.1.2 (u, c, q.clientId) (by simp [revokedAt, hk]) l hold
  · intro s m w' clients connectors _ ih hm hs _ _ _ l hl
    rcases mem_underWay_cons.mp hl with hb | ⟨hl, _⟩
    · cases hb
    · rw [hs]
      exact ih l hl

theorem touchUpdater_panic {x t old}
    (h : touchUpdater x t old = .panic) : old.refresh.lookup x.clientID = none := by
  unfold touchUpdater at h
  split at h
  · assumption
  · split at h <;> cases h

theorem revokeUpdater_no_panic {cl old} : revokeUpdater cl old ≠ .panic := by
  unfold revokeUpdater
  split
  · simp
  · split <;> simp

theorem session_no_panic (h : Reach Initial s) (hC : Along Sheltered s.hist) {u c f} :
    ¬ did (past tid s.hist) (.updateOfflineSessions u c f) .panic := by
  intro hd
  obtain ⟨req, s0, w', hm⟩ := Reach.did_made h hd
  obtain ⟨k, hth⟩ := hm.ready
  obtain ⟨_, hx⟩ := hm.exec
  obtain ⟨l, hl⟩ := hm.hist
  obtain ⟨old, ho, hf⟩ := exec_updateOfflineSessions_panic hx
  cases hm.duty with
  | install _ _ _ _ _ => cases hf
  | touch hc hu hw =>
    obtain ⟨b, hway⟩ := hc.underWay hm.reach hth hu hw
    refine underWay_referenced hm.reach (hl ▸ hC).at.2 hway ?_
    rw [RefreshToken.place, refIDs_of_lookup ho, touchUpdater_panic hf]
    rfl
  | revoke _ _ _ => exact revokeUpdater_no_panic hf

end

/-- In a run that shelters the refreshes under way no updater panics, and a
refresh that does not find its reference ends with an error response. Every
request can be run to its end. -/
theorem refresh_never_panics (S : Setup) (s : Sys (dex S)) (h : Reach Initial s) (hC : Along Sheltered s.hist) :
    (∀ tid u c f, ¬ did (past tid s.hist) (.updateOfflineSessions u c f) .panic) ∧
    (∀ tid r, Refreshes s tid r → finished s tid = true →
      (∀ x t, ¬ Touched (past tid s.hist) x t) → ∃ typ description status,
        did (past tid s.hist) (.write (.tokenErr typ description status)) ()) ∧
    ∀ tid, tid < s.threads.length → ∃ (answers : List Ans) (s' : Sys (dex S)),
      run s (answers.map (Label.act tid)) = some s' ∧ finished s' tid = true := by
  refine ⟨fun _ _ _ _ => session_no_panic h hC, ?_, ?_⟩
  · intro tid r hx hfin hno
    obtain ⟨inst, p, hth⟩ := thread_of_tokenRequest hx.request
    have hret := ret_of_finished hth hfin
    subst hret
    have hpost : Replied S ⟨inst, .token r⟩ (past tid s.hist) := (Reach.post h hth).2
    rcases hpost with ⟨idToken, accessToken, raw, _, hd⟩ | herr | ⟨u, c, f, hd⟩
    · obtain ⟨_, _, x, _, _, t, _, _, ht, _⟩ := hx.hands h (mem_handedOut.mpr ⟨_, _, hd⟩)
      exact absurd ht (hno x t)
    · exact herr
    · exact absurd hd (session_no_panic h hC)
  · intro tid hlt
    obtain ⟨answers, s', hrun, hend⟩ := exists_finish (M := dex S) (fun req => exec_total S.codec req.inst)
      (getElem?_eq_getElem hlt)
    exact ⟨answers, s', hrun, by simp [finished, hend, Prog.done]⟩

def panicked : Ev sig → Bool
  | ⟨.updateOfflineSessions _ _ _, .panic⟩ => true
  | _ => false

def replied : Ev sig → Bool
  | ⟨.write _, _⟩ => true
  | _ => false

/-- A refresh has its token and a new ID token when the reference is revoked, and
then looks for it. -/
@[irreducible] def crashedRun : Sys (dex demo) := .after demoWorld <|
  obtainRefresh ++ refreshing 4 "x" "x1" "at4" "x2" ++ revoking 5 (plains 3) ++ going 4 (plains 2)

/-- The updater panics, and the client gets no answer. -/
theorem crashed_refresh : Reach Initial crashedRun ∧
    (∃ u c f, did (past 4 crashedRun.hist) (.updateOfflineSessions u c f) .panic) ∧
    finished crashedRun 4 = true ∧ ∀ resp, ¬ did (past 4 crashedRun.hist) (.write resp) () := by
  obtain ⟨⟨e, he, hpanic⟩, hfin, hwrite⟩ :
      (∃ e ∈ past 4 crashedRun.hist, panicked e = true) ∧ finished crashedRun 4 = true ∧
      ∀ e ∈ past 4 crashedRun.hist, replied e = false := by
    decide +kernel
  refine ⟨by unfold crashedRun; exact .after demo_blank.toInitial _, ?_, hfin, ?_⟩
  · unfold panicked at hpanic
    split at hpanic
    · exact ⟨_, _, _, he⟩
    · cases hpanic
  · intro resp hd
    cases hwrite _ hd

/-- The refresh ends before the revocation, and another one comes after it. -/
@[irreducible] def shelteredRun : Sys (dex demo) := .after demoWorld <|
  obtainRefresh ++ refreshing 4 "x" "x1" "at4" "x2" ++ going 4 (plains 6) ++ revoking 5 (plains 3) ++
  serving 6 (.token (refreshRequest "x" "x2")) (plains 3)

theorem sheltered_refresh : Along Sheltered shelteredRun.hist ∧ (∃ raw, raw ∈ handedOut shelteredRun.hist 4) ∧
    (∀ tid u c f, ¬ did (past tid shelteredRun.hist) (.updateOfflineSessions u c f) .panic) ∧
    ∃ typ description status, did (past 6 shelteredRun.hist) (.write (.tokenErr typ description status)) () := by
  obtain ⟨hC, hraw, hreq, hfin, htouch⟩ :
      Along Sheltered shelteredRun.hist ∧
      (codec.marshal "x" "x2").getD "" ∈ handedOut shelteredRun.hist 4 ∧
      tokenRequest shelteredRun 6 = some (refreshRequest "x" "x2") ∧ finished shelteredRun 6 = true ∧
      ∀ e ∈ past 6 shelteredRun.hist, touches e.1 = false := by
    decide +kernel
  have h : Reach Initial shelteredRun := by
    unfold shelteredRun
    exact .after demo_blank.toInitial _
  obtain ⟨hpanic, herr, _⟩ := refresh_never_panics demo shelteredRun h hC
  refine ⟨hC, ⟨_, hraw⟩, hpanic, herr 6 _ ⟨hreq, rfl⟩ hfin ?_⟩
  rintro x t ⟨old, hd⟩
  cases htouch _ hd

end KubeYamls.Dex
