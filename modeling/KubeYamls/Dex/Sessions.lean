import KubeYamls.Dex.RefreshTokens

/-! # Refresh tokens and offline sessions as two maps

Seen from outside, the stored tokens are a map from IDs to places (user,
connector, client), and the offline sessions a map from places to IDs. Every
call changes each map at one point at most; `TokenStep` and `RefStep` say where,
and what the execution that makes the call has done before. -/
namespace KubeYamls.Dex
open Data Conc Option Function

def places (s : MemStorage) (id : String) : Option Place :=
  (s.refreshTokens.lookup id).map RefreshToken.place

/-- The event puts the reference of `x` into a session. -/
inductive Installs (x : RefreshToken) : Ev sig → Prop where
  | create : Installs x ⟨.createOfflineSessions (newOfflineSessions x), .ok ()⟩
  | update {old} : Installs x
    ⟨.updateOfflineSessions x.claims.userID x.connectorID (setTokenRef x.ref), .ok old⟩

/-- How a call changes the map of the sessions. -/
inductive RefStep (S : Setup) (req : Request) (past : Past) (refs : Place → Option String) :
    Ev sig → (Place → Option String) → Prop where
  | quiet {e : Ev sig} (hc : ∀ o, e ≠ ⟨.createOfflineSessions o, .ok ()⟩)
    (hu : ∀ u c f old, e ≠ ⟨.updateOfflineSessions u c f, .ok old⟩) : RefStep S req past refs e refs
  | touch {r client x t old} (hx : RefreshChecked S req past r client x) (hu : Untouched past)
    (hid : refs x.place = some x.id) :
    RefStep S req past refs
      ⟨.updateOfflineSessions x.claims.userID x.connectorID (touchUpdater x t), .ok old⟩ refs
  | install {e : Ev sig} {r client c x} (hx : RefreshStored req past r client c x)
    (hu : Uninstalled past) (hk : Kept past x) (he : Installs x e)
    (hnew : ∀ o, e = ⟨.createOfflineSessions o, .ok ()⟩ → refs x.place = none) :
    RefStep S req past refs e (Function.update refs x.place (some x.id))
  | revoke {r u c old} (hk : req.kind = .revokeRefresh r) (hd : S.codec.unmarshal r.userId = some (u, c))
    (hp : past = []) (hid : refs (u, c, r.clientId) = some (revokedID r.clientId old)) :
    RefStep S req past refs ⟨.updateOfflineSessions u c (revokeUpdater r.clientId), .ok old⟩
      (Function.update refs (u, c, r.clientId) none)

/-- How a call changes the map of the tokens. -/
inductive TokenStep (req : Request) (past : Past) (toks : String → Option Place) :
    Ev sig → (String → Option Place) → Prop where
  | quiet {e : Ev sig} (hc : ∀ x, e ≠ ⟨.createRefresh x, .ok ()⟩)
    (hd : ∀ id, e ≠ ⟨.deleteRefresh id, .ok ()⟩) : TokenStep req past toks e toks
  | create {r client c x} (hx : RefreshMade req past r client c x) (hu : Untouched past)
    (hnone : toks x.id = none) :
    TokenStep req past toks ⟨.createRefresh x, .ok ()⟩ (Function.update toks x.id (some x.place))
  | delete {id} (hd : RefreshDelete req past id) :
    TokenStep req past toks ⟨.deleteRefresh id, .ok ()⟩ (Function.update toks id none)

/-! ## The updaters -/

variable {x : RefreshToken} {old new session : OfflineSessions} {u c : String} {s : MemStorage}

theorem touchUpdater_ok {t} (h : touchUpdater x t old = .ok new) :
    ∃ ref, old.refresh.lookup x.clientID = some ref ∧
      ref.id = x.id ∧ new = { old with refresh := old.refresh.insert x.clientID { ref with lastUsed := t } } := by
  unfold touchUpdater at h
  split at h
  · cases h
  · rename_i ref hl
    split at h
    · cases h
    · rename_i hid
      cases h
      exact ⟨ref, hl, not_not.mp hid, rfl⟩

theorem revokeUpdater_ok {cl} (h : revokeUpdater cl old = .ok new) :
    ∃ ref, old.refresh.lookup cl = some ref ∧ new = { old with refresh := old.refresh.erase cl } := by
  unfold revokeUpdater at h
  split at h
  · cases h
  · rename_i ref hl
    split at h
    · cases h
    · cases h
      exact ⟨ref, hl, rfl⟩

theorem lookup_newOfflineSessions (x : RefreshToken) (cl : String) :
    ((newOfflineSessions x).refresh.lookup cl).map (·.id) = if cl = x.clientID then some x.id else none := by
  have hr : (newOfflineSessions x).refresh = (∅ : Table String RefreshTokenRef).insert x.clientID x.ref := rfl
  rw [hr]
  split
  · rename_i h
    rw [h, AList.lookup_insert]
    rfl
  · rename_i h
    rw [AList.lookup_insert_ne h]
    rfl

theorem SessionUpdate.keeps {S req past f} (h : SessionUpdate S req past u c f)
    (hf : f old = .ok new) : new.userID = old.userID ∧ new.connID = old.connID := by
  cases h with
  | install _ _ _ _ _ => cases hf; exact ⟨rfl, rfl⟩
  | touch _ _ _ =>
    obtain ⟨ref, _, _, rfl⟩ := touchUpdater_ok hf
    exact ⟨rfl, rfl⟩
  | revoke _ _ _ =>
    obtain ⟨ref, _, rfl⟩ := revokeUpdater_ok hf
    exact ⟨rfl, rfl⟩

theorem refIDs_of_lookup (h : s.offlineSessions.lookup (u, c) = some session) (cl : String) :
    refIDs s (u, c, cl) = (session.refresh.lookup cl).map (·.id) := by
  simp [refIDs, h]

theorem refIDs_insert (cl : String) (v : Option String) (hcl : (session.refresh.lookup cl).map (·.id) = v)
    (hother : ∀ cl', cl' ≠ cl → (session.refresh.lookup cl').map (·.id) = refIDs s (u, c, cl')) :
    refIDs { s with offlineSessions := s.offlineSessions.insert (u, c) session } =
      Function.update (refIDs s) (u, c, cl) v := by
  funext ⟨u', c', cl'⟩
  by_cases hkey : (u', c') = (u, c)
  · cases hkey
    rw [refIDs_of_lookup (AList.lookup_insert _)]
    by_cases hc : cl' = cl
    · subst hc
      rw [update_self, hcl]
    · rw [Function.update_of_ne (by simp [hc]), hother cl' hc]
  · have hne : (u', c', cl') ≠ (u, c, cl) := fun heq => hkey (by cases heq; rfl)
    rw [update_of_ne hne]
    simp [refIDs, AList.lookup_insert_ne hkey]

theorem refIDs_newOfflineSessions
    (hn : s.offlineSessions.lookup (x.claims.userID, x.connectorID) = none) : refIDs { s with
      offlineSessions := s.offlineSessions.insert (x.claims.userID, x.connectorID)
        (newOfflineSessions x) } = Function.update (refIDs s) x.place (some x.id) := by
  refine refIDs_insert x.clientID (some x.id) ?_ fun cl' hne => ?_
  · rw [lookup_newOfflineSessions, if_pos rfl]
  · rw [lookup_newOfflineSessions, if_neg hne, refIDs, hn]
    rfl

theorem refIDs_setTokenRef (ho : s.offlineSessions.lookup (x.claims.userID, x.connectorID) = some old)
    (hf : setTokenRef x.ref old = .ok new) :
    refIDs { s with offlineSessions := s.offlineSessions.insert (x.claims.userID, x.connectorID) new } =
      Function.update (refIDs s) x.place (some x.id) := by
  cases hf
  refine refIDs_insert x.clientID (some x.id) ?_ fun cl' hne => ?_
  · simp [RefreshToken.ref]
  · simp [RefreshToken.ref, AList.lookup_insert_ne hne, refIDs_of_lookup ho]

theorem touch_effect {inst w w' t} (h : Effect inst w
      ⟨.updateOfflineSessions x.claims.userID x.connectorID (touchUpdater x t), .ok old⟩ w') :
    refIDs w.store x.place = some x.id ∧ refIDs w'.store = refIDs w.store := by
  cases h with
  | none hn => cases hn
  | updateOfflineSessions ho hf =>
    obtain ⟨ref, hl, hid, rfl⟩ := touchUpdater_ok hf
    have hplace : refIDs w.store x.place = some x.id := by
      rw [RefreshToken.place, refIDs_of_lookup ho, hl]
      exact congrArg some hid
    refine ⟨hplace, ?_⟩
    change refIDs { w.store with offlineSessions := _ } = _
    rw [refIDs_insert x.clientID (some x.id), ← RefreshToken.place, ← hplace, Function.update_eq_self]
    · simp [hid]
    · intro cl' hne
      simp [AList.lookup_insert_ne hne, refIDs_of_lookup ho]

theorem revoke_effect {inst w w' cl}
    (h : Effect inst w ⟨.updateOfflineSessions u c (revokeUpdater cl), .ok old⟩ w') :
    refIDs w.store (u, c, cl) = some (revokedID cl old) ∧
    refIDs w'.store = Function.update (refIDs w.store) (u, c, cl) none := by
  cases h with
  | none hn => cases hn
  | updateOfflineSessions ho hf =>
    obtain ⟨ref, hl, rfl⟩ := revokeUpdater_ok hf
    refine ⟨by simp [refIDs_of_lookup ho, revokedID, hl], ?_⟩
    change refIDs { w.store with offlineSessions := _ } = _
    rw [refIDs_insert cl none]
    · simp
    · intro cl' hne
      simp [AList.lookup_erase_ne hne, refIDs_of_lookup ho]

theorem places_insert (s : MemStorage) (id : String) (x : RefreshToken) :
    places { s with refreshTokens := s.refreshTokens.insert id x } =
      Function.update (places s) id (some x.place) :=
  Table.map_lookup_insert (fun _ => RefreshToken.place) id x s.refreshTokens

theorem places_erase (s : MemStorage) (id : String) :
    places { s with refreshTokens := s.refreshTokens.erase id } = Function.update (places s) id none :=
  Table.map_lookup_erase (fun _ => RefreshToken.place) id s.refreshTokens

section
variable {S : Setup} {s : Sys (dex S)} {tid : Nat} {req : Request} {o : Op}
  {k : Res o → Handler Unit} {ans : Ans} {r : Res o} {w : World}

theorem session_key (h : Reach Initial s) (hl : s.world.store.offlineSessions.lookup (u, c) = some session) :
    session.userID = u ∧ session.connID = c := by
  refine Reach.stored (P := fun w => ∀ u c session,
    w.store.offlineSessions.lookup (u, c) = some session → session.userID = u ∧ session.connID = c)
    ?_ ?_ ?_ h u c session hl
  · intro w hw
    exact hw.sessions
  · intro s tid req o k ans r w' hr ih hth hx u c session hl
    rcases (exec_effect hx).sessions hl with hl | ⟨_, hk, _⟩ | ⟨f, old, he, ho, hf⟩
    · exact ih u c session hl
    · exact ⟨(Prod.mk.inj hk).1.symm, (Prod.mk.inj hk).2.symm⟩
    · cases he
      obtain ⟨hu, hc⟩ := SessionUpdate.keeps (Reach.duty hr hth) hf
      rw [hu, hc]
      exact ih u c old ho
  · intro m w w' ih hm u c session hl
    obtain ⟨_, _, hs, _⟩ := move_store hm
    rw [hs] at hl
    exact ih u c session hl

variable {Init : World → Prop} {e : Ev sig} {id : String} {refs refs' : Place → Option String}

theorem session_kept (h : Reach Init s) {w0} (hw : Saw s.hist w0) {key}
    (hl : w0.store.offlineSessions.lookup key = some session) :
    ∃ session', s.world.store.offlineSessions.lookup key = some session' := by
  revert hw
  refine Reach.induct' (I := fun s : Sys (dex S) => Saw s.hist w0 →
    ∃ session', s.world.store.offlineSessions.lookup key = some session') ?_ ?_ ?_ ?_ h
  · rintro w _ (h | h) <;> cases h
  · intro s q _ ih hw
    exact ih hw.of_start
  · intro s t q o k ans r w _ ih _ hx hw
    rcases hw.of_cons with rfl | rfl | hw
    · exact (exec_effect hx).sessions_kept hl
    · exact ⟨session, hl⟩
    · obtain ⟨_, hl⟩ := ih hw
      exact (exec_effect hx).sessions_kept hl
  · intro s m w _ ih hm hw
    obtain ⟨_, _, hs, _⟩ := move_store hm
    obtain ⟨session', hl⟩ := ih hw.of_move
    exact ⟨session', by rw [Sys.moved, hs]; exact hl⟩

theorem read_session_key (h : Reach Initial s)
    (hd : did (past tid s.hist) (.getOfflineSessions u c) (.ok session)) :
    session.userID = u ∧ session.connID = c := by
  obtain ⟨_, s0, _, hm⟩ := Reach.did_made h hd
  obtain ⟨_, hx⟩ := hm.exec
  exact session_key hm.reach (exec_getOfflineSessions hx)

theorem refStep (h : Reach Initial s) (hth : s.threads[tid]? = some ⟨req, .act o k⟩)
    (hx : exec S.codec req.inst o ans s.world = some (r, w)) :
    RefStep S req (past tid s.hist) (refIDs s.world.store) ⟨o, r⟩ (refIDs w.store) := by
  have hd := Reach.duty h hth
  have heff := exec_effect hx
  have heff' := heff
  clear hx
  cases heff with
  | createOfflineSessions hn =>
    obtain ⟨_, _, _, x, hx, hu, hk, rfl⟩ := hd
    have hnone : refIDs s.world.store x.place = none := by
      rw [refIDs, show s.world.store.offlineSessions.lookup (x.place.1, x.place.2.1) = none from hn]
      rfl
    have hrefs := refIDs_newOfflineSessions hn
    change RefStep _ _ _ _ _ (refIDs { s.world.store with
      offlineSessions := s.world.store.offlineSessions.insert (x.claims.userID, x.connectorID)
        (newOfflineSessions x) })
    rw [hrefs]
    exact .install hx hu hk .create fun _ _ => hnone
  | updateOfflineSessions ho hf =>
    cases hd with
    | @install _ _ _ x session hx hu hk hs _ =>
      obtain ⟨hku, hkc⟩ := read_session_key h hs
      rw [hku, hkc] at ho
      rw [hku, hkc, refIDs_setTokenRef ho hf]
      exact .install hx hu hk .update (by simp)
    | touch hx hu _ =>
      obtain ⟨hid, hsame⟩ := touch_effect heff'
      rw [hsame]
      exact .touch hx hu hid
    | revoke hk hdec hp =>
      obtain ⟨hid, hgone⟩ := revoke_effect heff'
      rw [hgone]
      exact .revoke hk hdec hp hid
  | none hn =>
    refine .quiet (fun o he => ?_) (fun u c f old he => ?_)
    · cases he; cases hn
    · cases he; cases hn
  | _ => exact .quiet (by simp) (by simp)

theorem tokenStep (h : Reach Initial s) (hth : s.threads[tid]? = some ⟨req, .act o k⟩)
    (hx : exec S.codec req.inst o ans s.world = some (r, w)) :
    TokenStep req (past tid s.hist) (places s.world.store) ⟨o, r⟩ (places w.store) := by
  have hd := Reach.duty h hth
  have heff := exec_effect hx
  clear hx
  cases heff with
  | createRefresh hn =>
    obtain ⟨⟨_, _, _, hx⟩, hu⟩ := hd
    rw [places_insert]
    exact .create hx hu (by rw [places, hn]; rfl)
  | updateRefreshToken ho hf =>
    obtain ⟨_, _, _, _, _, _, _, _, _, rfl, _⟩ := hd
    obtain ⟨_, _, _, hu, hc, hcl, _⟩ := claimUpdater_ok hf
    rw [places_insert, RefreshToken.place, hu, hc, hcl, ← RefreshToken.place, ← map_some, ← ho,
      ← places, Function.update_eq_self]
    exact .quiet (by simp) (by simp)
  | deleteRefresh _ =>
    rw [places_erase]
    exact .delete hd
  | none hn =>
    refine .quiet (fun x he => ?_) (fun id he => ?_)
    · cases he; cases hn
    · cases he; cases hn
  | _ => exact .quiet (by simp) (by simp)

theorem move_refs {m w w'} (h : move m w = some w') :
    refIDs w'.store = refIDs w.store ∧ places w'.store = places w.store := by
  obtain ⟨_, _, hs, _⟩ := move_store h
  rw [hs]
  exact ⟨rfl, rfl⟩

/-! ## The execution that makes a token -/

theorem created_unique (h : Reach Init s) {x' r r'} (hd : did (past tid s.hist) (.createRefresh x) r)
    (hd' : did (past tid s.hist) (.createRefresh x') r') : x = x' := by
  rcases Reach.did_order h hd hd' with heq | ⟨_, s0, _, hm, hd⟩ | ⟨_, s0, _, hm, hd⟩
  · cases heq
    rfl
  · exact absurd hd (hm.duty.2 _ _ rfl)
  · exact absurd hd (hm.duty.2 _ _ rfl)

theorem created_drawn (h : Reach Init s) {r}
    (hd : did (past tid s.hist) (.createRefresh x) r) : (idSupply S).drawn s.hist tid x.id := by
  obtain ⟨_, s0, _, hm⟩ := Reach.did_made h hd
  obtain ⟨⟨_, _, _, hx⟩, _⟩ := hm.duty
  exact drawn_iff.mpr (hx.id.mono hm.sublist)

/-! ## Token IDs in sessions -/

/-- The IDs a call can bring into a session: those its updater puts into an
empty one. -/
def installed : Ev sig → List String
  | ⟨.createOfflineSessions o, .ok ()⟩ => o.refresh.entries.map (·.2.id)
  | ⟨.updateOfflineSessions u c f, .ok _⟩ =>
    match f ⟨u, c, ∅⟩ with
    | .ok new => new.refresh.entries.map (·.2.id)
    | _ => []
  | _ => []

theorem Installs.installed (h : Installs x e) : installed e = [x.id] := by
  cases h <;> rfl

theorem mem_installed (h : id ∈ installed e) :
    (∃ o, e = ⟨.createOfflineSessions o, .ok ()⟩) ∨ ∃ u c f old, e = ⟨.updateOfflineSessions u c f, .ok old⟩ := by
  unfold installed at h
  split at h
  · exact .inl ⟨_, rfl⟩
  · exact .inr ⟨_, _, _, _, rfl⟩
  · cases h

theorem Uninstalled.not_installed {past} (h : Uninstalled past) (he : e ∈ past) : id ∉ installed e := by
  intro hid
  rcases mem_installed hid with ⟨o, rfl⟩ | ⟨u, c, f, old, rfl⟩
  · exact h.create _ he
  · exact h.update _ _ _ _ he

/-- A call brings an ID into the sessions only if it installs the reference of
a token that its execution stored. -/
theorem RefStep.of_installed {past} (h : RefStep S req past refs e refs') (hid : id ∈ installed e) :
    ∃ r client c x, RefreshStored req past r client c x ∧ Uninstalled past ∧ Kept past x ∧ x.id = id ∧
      refs' = Function.update refs x.place (some id) := by
  cases h with
  | quiet hc hu =>
    rcases mem_installed hid with ⟨o, he⟩ | ⟨u, c, f, old, he⟩
    · exact absurd he (hc _)
    · exact absurd he (hu _ _ _ _)
  | touch _ _ _ => cases hid
  | install hx hu hk he _ =>
    rw [he.installed, List.mem_singleton] at hid
    exact ⟨_, _, _, _, hx, hu, hk, hid.symm, by rw [hid]⟩
  | revoke _ _ _ _ => cases hid

theorem RefStep.enter {past p} (h : RefStep S req past refs e refs')
    (hid : refs' p = some id) : refs p = some id ∨ id ∈ installed e := by
  cases h with
  | quiet _ _ | touch _ _ _ => exact .inl hid
  | @install _ _ _ _ x _ _ _ he _ =>
    rw [he.installed]
    by_cases hp : p = x.place
    · rw [hp, Function.update_self] at hid
      exact .inr (by simpa using hid.symm)
    · rw [update_of_ne hp] at hid
      exact .inl hid
  | @revoke r u c _ _ _ _ _ =>
    by_cases hp : p = (u, c, r.clientId)
    · rw [hp, update_self] at hid
      cases hid
    · rw [update_of_ne hp] at hid
      exact .inl hid

theorem RefStep.keeps {past p} (h : RefStep S req past refs e refs') (hp : refs p ≠ none)
    (hrev : ∀ r u c f old, req.kind = .revokeRefresh r → e = ⟨.updateOfflineSessions u c f, .ok old⟩ →
      p ≠ (u, c, r.clientId)) : refs' p ≠ none := by
  cases h with
  | quiet _ _ | touch _ _ _ => exact hp
  | @install _ _ _ _ x _ _ _ _ _ =>
    by_cases hpx : p = x.place
    · rw [hpx, Function.update_self]
      simp
    · rw [update_of_ne hpx]
      exact hp
  | revoke hk _ _ _ =>
    rw [update_of_ne (hrev _ _ _ _ _ hk rfl)]
    exact hp

theorem TokenStep.enter {past toks toks' p} (h : TokenStep req past toks e toks') (hp : toks' id = some p) :
    toks id = some p ∨ ∃ x, e = ⟨.createRefresh x, .ok ()⟩ ∧ x.id = id ∧ Untouched past := by
  cases h with
  | quiet _ _ => exact .inl hp
  | @create _ _ _ x _ hu _ =>
    by_cases hid : id = x.id
    · exact .inr ⟨x, rfl, hid.symm, hu⟩
    · rw [update_of_ne hid] at hp
      exact .inl hp
  | @delete id' _ =>
    by_cases hid : id = id'
    · rw [hid, Function.update_self] at hp
      cases hp
    · rw [update_of_ne hid] at hp
      exact .inl hp

/-- The token IDs that sessions refer to. -/
def refNames (S : Setup) : Names (dex S) String where
  toSupply := idSupply S
  present w id := ∃ p, refIDs w.store p = some id
  make e id := id ∈ installed e

theorem refNames_lawful : (refNames S).Lawful Initial where
  init := by
    rintro w id hw ⟨p, hp⟩
    obtain ⟨x, hx, _⟩ := hw.refs.ref p id hp
    exact (hw.refreshTokens id x hx).2.1
  enter := by
    rintro s tid req o k ans r w id h hth hx ⟨p, hp⟩
    exact ((refStep h hth hx).enter hp).imp_left fun hp => ⟨p, hp⟩
  enter_move := by
    rintro m w w' id hm ⟨p, hp⟩
    rw [(move_refs hm).1] at hp
    exact ⟨p, hp⟩
  make := by
    intro s tid req o k ans r w id h hth hx hm
    obtain ⟨_, _, _, x, hst, hu, _, rfl, _⟩ := (refStep h hth hx).of_installed hm
    refine ⟨drawn_iff.mpr hst.id, ?_⟩
    rintro ⟨e, he, hid⟩
    exact hu.not_installed he hid

/-- Where a session refers to an ID. -/
def refPlaces (S : Setup) : Labels (refNames S) Initial Place where
  label w id p := refIDs w.store p = some id
  present := fun h => ⟨_, h⟩
  init := by
    intro w id p p' hw hp hp'
    obtain ⟨x, hx, rfl⟩ := hw.refs.ref p id hp
    obtain ⟨x', hx', rfl⟩ := hw.refs.ref p' id hp'
    cases hx.symm.trans hx'
    rfl
  enter := fun h hth hx hp => (refStep h hth hx).enter hp
  make := by
    intro s tid req o k ans r w id p p' h hth hx hm hp hp'
    obtain ⟨_, _, _, x, _, _, _, _, hw⟩ := (refStep h hth hx).of_installed hm
    have hat : ∀ {q}, refIDs w.store q = some id → q = x.place := by
      intro q hq
      by_contra hne
      rw [hw, update_of_ne hne] at hq
      exact Names.not_present_of_make refNames_lawful h hth hx hm ⟨q, hq⟩
    rw [hat hp, hat hp']
  enter_move := by
    intro m w w' id p hm hp
    rw [(move_refs hm).1] at hp
    exact hp

theorem not_known_of_uninstalled (hd : (idSupply S).drawn s.hist tid id)
    (hu : Uninstalled (past tid s.hist)) : ¬ (refNames S).Known s id := by
  intro hk
  obtain ⟨e, he, hid⟩ := hk.2 tid hd
  exact hu.not_installed he hid

theorem OldRef.saw (h : Reach Initial s) {ref} (ho : OldRef (past tid s.hist) x session ref) :
    ∃ w0, Saw s.hist w0 ∧ refIDs w0.store x.place = some ref.id := by
  obtain ⟨_, s0, _, hm⟩ := Reach.did_made h ho.read
  obtain ⟨_, hx⟩ := hm.exec
  refine ⟨s0.world, .pre hm.mem, ?_⟩
  rw [RefreshToken.place, refIDs_of_lookup (exec_getOfflineSessions hx), ho.lookup]
  rfl

theorem revoked_absent (h : Reach Initial s) {cl pre w' w0 l1 l2} {e : Step S}
    (he : e = .act tid req (.updateOfflineSessions u c (revokeUpdater cl)) (.ok old) pre w')
    (hs : s.hist = l1 ++ e :: l2) (hw : Saw (e :: l2) w0)
    (hid : refIDs w0.store (u, c, cl) = some id) : ¬ (refNames S).present s.world id := by
  subst he
  obtain ⟨s0, hm, rfl, rfl⟩ := Reach.made h hs
  refine Names.gone refNames_lawful h hs hw ⟨_, hid⟩ ?_
  rintro ⟨p, hp⟩
  obtain ⟨k, hth⟩ := hm.ready
  obtain ⟨_, hx⟩ := hm.exec
  -- an ID has one place, and there is no reference there now
  obtain rfl := (refPlaces S).same refNames_lawful (hm.reach.acted hth hx) hw hid hp
  rw [(revoke_effect hm.effect).2, update_self] at hp
  cases hp

theorem revoked_gone (h : Reach Initial s) {cl}
    (hd : did (past tid s.hist) (.updateOfflineSessions u c (revokeUpdater cl)) (.ok old)) :
    (∃ w0, Saw s.hist w0 ∧ refIDs w0.store (u, c, cl) = some (revokedID cl old)) ∧
    ¬ (refNames S).present s.world (revokedID cl old) := by
  obtain ⟨_, s0, w', hm⟩ := Reach.did_made h hd
  obtain ⟨l, hl⟩ := hm.hist
  obtain ⟨hat, _⟩ := revoke_effect hm.effect
  exact ⟨⟨_, .pre hm.mem, hat⟩, revoked_absent h rfl hl (.pre List.mem_cons_self) hat⟩

/-! ## Where a token ID belongs -/

def tokenPlaces (S : Setup) : Labels (refreshNames S) Initial Place where
  label w id p := places w.store id = some p
  present := by
    intro w id p hp
    obtain ⟨x, hx, _⟩ := map_eq_some_iff.mp hp
    exact ⟨x, hx⟩
  init := fun _ hp hp' => some.inj (hp.symm.trans hp')
  enter := by
    intro s tid req o k ans r w id p h hth hx hp
    rcases (tokenStep h hth hx).enter hp with hp | ⟨x, he, hid, _⟩
    · exact .inl hp
    · exact .inr ⟨x, he, hid⟩
  make := fun _ _ _ _ hp hp' => some.inj (hp.symm.trans hp')
  enter_move := by
    intro m w w' id p hm hp
    rw [(move_refs hm).2] at hp
    exact hp

theorem read_saw_place (h : Reach Initial s) (hd : did (past tid s.hist) (.getRefresh id) (.ok x)) :
    ∃ w0, Saw s.hist w0 ∧ places w0.store id = some x.place := by
  obtain ⟨_, s0, _, hm⟩ := Reach.did_made h hd
  obtain ⟨_, hx⟩ := hm.exec
  exact ⟨s0.world, .pre hm.mem, by rw [places, exec_getRefresh hx]; rfl⟩

theorem read_place (h : Reach Initial s) {t x'} (hd : did (past tid s.hist) (.getRefresh id) (.ok x))
    (hd' : did (past t s.hist) (.getRefresh id) (.ok x')) : x.place = x'.place := by
  obtain ⟨_, hw, hp⟩ := read_saw_place h hd
  obtain ⟨_, hw', hp'⟩ := read_saw_place h hd'
  exact (tokenPlaces S).same_saw refreshNames_lawful h hw hw' hp hp'

theorem created_place (h : Reach Initial s) {t x'} (hc : did (past t s.hist) (.createRefresh x) (.ok ()))
    (hd : did (past tid s.hist) (.getRefresh x.id) (.ok x')) : x'.place = x.place := by
  obtain ⟨_, hw, hp⟩ := read_saw_place h hd
  obtain ⟨_, s0, w', hm⟩ := Reach.did_made h hc
  have hstored : places w'.store x.id = some x.place := by
    cases hm.effect with
    | none hn => cases hn
    | createRefresh _ => simp [places]
  exact (tokenPlaces S).same_saw refreshNames_lawful h hw (.post hm.mem) hp hstored

end

end KubeYamls.Dex
