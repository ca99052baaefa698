import KubeYamls.Dex.Sessions

/-! # Refresh tokens and session references name each other

A code exchange stores a token, reads the session, deletes the token of the old
reference and writes the session, in four calls. While one of these executions
or a revocation is under way the two maps may disagree, each in a way that its
execution is bound to repair (`Linked`). What it cannot repair is a reference
that another exchange has put in since the session was read: writing over it
leaves a token behind that no session knows. -/
namespace KubeYamls.Dex
open Data Conc List Option Function

variable {id : String}

section
variable {S : Setup}

/-- The tokens thread `tid` has deleted. -/
def deletedBy (hist : List (Step S)) (tid : Nat) : List String :=
  (past tid hist).filterMap fun e => match e with
    | ⟨.deleteRefresh id, .ok ()⟩ => some id
    | _ => none

/-- The references a token request writes over, with its thread. -/
def overwritten : Step S → List (Nat × String)
  | .act tid req (.updateOfflineSessions u c _) (.ok old) _ w =>
    match req.kind with
    | .token _ => old.refresh.entries.filterMap fun e =>
      if refIDs w.store (u, c, e.1) = some e.2.id then none else some (tid, e.2.id)
    | _ => []
  | _ => []

/-- The storage fails to delete a token or to update a session. -/
def spurious : Step S → Bool
  | .act _ _ (.deleteRefresh _) (.error e) _ _ => e = failure
  | .act _ _ (.updateOfflineSessions _ _ _) (.error e) _ _ => e = failure
  | _ => false

/-- The storage does not fail, and an exchange that installs a reference finds
in its place none, or one whose token it has deleted itself. -/
def Orderly (hist : List (Step S)) (e : Step S) : Prop :=
  spurious e = false ∧ ∀ p ∈ overwritten e, p.2 ∈ deletedBy hist p.1

instance (hist : List (Step S)) (e : Step S) : Decidable (Orderly hist e) :=
  inferInstanceAs (Decidable (_ ∧ _))

/-- The token `x` is stored, and its reference is not yet. -/
structure Awaits (past : Past) (x : RefreshToken) : Prop where
  created : did past (.createRefresh x) (.ok ())
  uninstalled : Uninstalled past
  kept : ∀ res, ¬ did past (.deleteRefresh x.id) res

/-- Thread `tid` has taken the reference to `id` out of a session and is about
to delete the token. -/
def Revoking (hist : List (Step S)) (tid : Nat) (id : String) : Prop :=
  (∃ req r u c old pre post, req.kind = .revokeRefresh r ∧ revokedID r.clientId old = id ∧
    (.act tid req (.updateOfflineSessions u c (revokeUpdater r.clientId)) (.ok old) pre post : Step S) ∈ hist) ∧
  ∀ res, ¬ did (past tid hist) (.deleteRefresh id) res

/-- The token `id` of the old reference at `p` is deleted, and the reference is
about to be replaced. -/
structure Replacing (past : Past) (p : Place) (id : String) (x : RefreshToken) : Prop where
  created : did past (.createRefresh x) (.ok ())
  uninstalled : Uninstalled past
  old : ∃ session ref, OldRef past x session ref ∧ ref.id = id
  deleted : did past (.deleteRefresh id) (.ok ())
  place : x.place = p
  ne : id ≠ x.id

/-- The two maps agree up to what is under way. -/
structure Linked (w : World) (hist : List (Step S)) : Prop where
  token : ∀ id p, places w.store id = some p → refIDs w.store p = some id ∨
    (∃ tid x, Awaits (past tid hist) x ∧ x.id = id) ∨ ∃ tid, Revoking hist tid id
  ref : ∀ p id, refIDs w.store p = some id → places w.store id = some p ∨
    ∃ tid x, Replacing (past tid hist) p id x
  awaited : ∀ tid x, Awaits (past tid hist) x → places w.store x.id = some x.place

theorem mem_deletedBy {hist : List (Step S)} {tid} :
    id ∈ deletedBy hist tid ↔ did (past tid hist) (.deleteRefresh id) (.ok ()) := by
  simp only [deletedBy, mem_filterMap]
  constructor
  · rintro ⟨e, he, hm⟩
    split at hm
    · cases hm
      exact he
    · cases hm
  · intro hd
    exact ⟨_, hd, rfl⟩

theorem Orderly.deleted {hist : List (Step S)} {tid req u c cl f old pre w}
    (h : Orderly hist (.act tid req (.updateOfflineSessions u c f) (.ok old) pre w))
    {q} (hk : req.kind = .token q) {ref}
    (hl : old.refresh.lookup cl = some ref) (hne : refIDs w.store (u, c, cl) ≠ some ref.id) :
    did (past tid hist) (.deleteRefresh ref.id) (.ok ()) := by
  refine mem_deletedBy.mp (h.2 (tid, ref.id) ?_)
  simp only [overwritten, hk, mem_filterMap]
  exact ⟨⟨cl, ref⟩, AList.mem_lookup_iff.mp hl, if_neg hne⟩

end

section
variable {S : Setup} {s : Sys (dex S)} {tid t : Nat} {req : Request} {o : Op}
  {k : Res o → Handler Unit} {ans : Ans} {r : Res o} {w : World}

theorem places_deleted (h : Reach Initial s)
    (hd : did (past tid s.hist) (.deleteRefresh id) (.ok ())) : places s.world.store id = none := by
  obtain ⟨_, s0, w', hm⟩ := Reach.did_made h hd
  obtain ⟨l, hl⟩ := hm.hist
  rw [places, map_eq_none_iff]
  by_contra hsome
  obtain ⟨x, hx⟩ := ne_none_iff_exists'.mp hsome
  cases hm.effect with
  | none hn => cases hn
  | deleteRefresh ho =>
    refine Names.gone refreshNames_lawful h hl (.pre mem_cons_self) (n := id) ⟨_, ho⟩ ?_ ⟨x, hx⟩
    rintro ⟨x', hx'⟩
    exact (Table.lookup_erase_iff.mp hx').1 rfl

theorem places_after_delete {res} (hx : exec S.codec req.inst (.deleteRefresh id) ans s.world = some (res, w))
    (hC : spurious (.act tid req (.deleteRefresh id) res s.world w : Step S) = false) :
    places w.store id = none := by
  rcases storage_delete .refreshTokens hx with ⟨_, rfl, _, rfl⟩ | ⟨rfl | ⟨rfl, hl⟩, rfl⟩
  · exact congrFun (places_erase _ _) id |>.trans (update_self _ _ _)
  · simp [spurious] at hC
  · rw [places, hl]
    rfl

variable {x : RefreshToken}

/-- An exchange stays without an installed reference until it installs that of
its own token. -/
theorem RefStep.uninstalled {refs refs' e} (h : Reach Initial s)
    (hst : RefStep S req (past tid s.hist) refs e refs') (hd : duty S req (past tid s.hist) e.1)
    (hc : did (past tid s.hist) (.createRefresh x) (.ok ())) (hu : Uninstalled (past tid s.hist)) :
    Uninstalled (e :: past tid s.hist) ∨ refs' x.place = some x.id := by
  cases hst with
  | quiet hnc hnu =>
    refine .inl ⟨fun o hd => ?_, fun u c f old hd => ?_, fun id f res hd' => ?_⟩
    · exact ((did_cons _ _ _ _).mp hd).elim (fun he => hnc _ he.symm) (hu.create _)
    · exact ((did_cons _ _ _ _).mp hd).elim (fun he => hnu _ _ _ _ he.symm) (hu.update _ _ _ _)
    · rcases (did_cons _ _ _ _).mp hd' with rfl | hd'
      · obtain ⟨_, _, _, _, _, _, _, _, _, _, _, hno, _⟩ := hd
        exact hno _ _ hc
      · exact hu.claim _ _ _ hd'
  | touch _ hun _ => exact absurd hc (hun _ _ rfl)
  | install hx _ _ _ _ =>
    obtain rfl := created_unique h hx.created hc
    exact .inr (update_self _ _ _)
  | revoke _ _ hp _ =>
    rw [hp] at hc
    exact absurd hc (did_nil _ _)

theorem Uninstalled.anti {past past'} (h : Uninstalled past') (hs : past.Sublist past') : Uninstalled past :=
  ⟨fun _ hd => h.create _ (hd.mono hs), fun _ _ _ _ hd => h.update _ _ _ _ (hd.mono hs),
    fun _ _ _ hd => h.claim _ _ _ (hd.mono hs)⟩

theorem Awaits.of_act {pre} {hist : List (Step S)} (h : Awaits (past t (.act tid req o r pre w :: hist)) x) :
    (⟨o, r⟩ : Ev sig) = ⟨.createRefresh x, .ok ()⟩ ∨ Awaits (past t hist) x := by
  have hs : (past t hist).Sublist (past t (.act tid req o r pre w :: hist)) :=
    past_sublist (sublist_cons_self _ _)
  rcases did_act.mp h.created with ⟨_, he⟩ | hd
  · exact .inl he
  · exact .inr ⟨hd, h.uninstalled.anti hs, fun res hd => h.kept res (hd.mono hs)⟩

/-- The ID of a token that waits for its reference was never in a session. -/
theorem Awaits.not_known (h : Reach Initial s) (ha : Awaits (past tid s.hist) x) : ¬ (refNames S).Known s x.id :=
  not_known_of_uninstalled (created_drawn h ha.created) ha.uninstalled

theorem RefStep.awaits {refs refs' e} (h : Reach Initial s)
    (hst : RefStep S req (past tid s.hist) refs e refs') (hid : id ∈ installed e) :
    ∃ x, Awaits (past tid s.hist) x ∧ x.id = id ∧ refs' = Function.update refs x.place (some id) := by
  obtain ⟨_, _, _, x, hx, hu, hk, rfl, hw⟩ := hst.of_installed hid
  refine ⟨x, ⟨hx.created, hu, fun res hd => ?_⟩, rfl, hw⟩
  obtain ⟨session, ref, ho, hid⟩ := hk res hd
  obtain ⟨w0, hsaw, hat⟩ := ho.saw h
  rw [hid] at hat
  exact not_known_of_uninstalled (created_drawn h hx.created) hu
    (Names.known_of_saw refNames_lawful h hsaw ⟨_, hat⟩)

theorem RefreshDelete.own_of_awaits (h : Reach Initial s) (ha : Awaits (past t s.hist) x)
    (hd : RefreshDelete req (past tid s.hist) x.id) : tid = t := by
  generalize hid : x.id = id at hd
  cases hd with
  | old _ _ ho =>
    obtain ⟨w0, hsaw, hat⟩ := ho.saw h
    exact absurd (Names.known_of_saw refNames_lawful h hsaw ⟨_, hat⟩) (hid ▸ ha.not_known h)
  | own hx _ =>
    have hd := created_drawn h ha.created
    rw [hid] at hd
    exact Supply.drawn_unique h (created_drawn h hx.created) hd
  | @revoke q u c old _ hp =>
    have hd : did (past tid s.hist) (.updateOfflineSessions u c (revokeUpdater q.clientId)) (.ok old) := by
      rw [hp]
      exact mem_cons_self
    obtain ⟨⟨w0, hsaw, hat⟩, _⟩ := revoked_gone h hd
    exact absurd (Names.known_of_saw refNames_lawful h hsaw ⟨_, hat⟩) (hid ▸ ha.not_known h)

theorem RefreshDelete.replacing (h : Reach Initial s) {p}
    (hp : refIDs s.world.store p = some id) (hd : RefreshDelete req (past tid s.hist) id) :
    ∃ x, Replacing (⟨.deleteRefresh id, .ok ()⟩ :: past tid s.hist) p id x := by
  have hknown := Names.known_of_present refNames_lawful h ⟨p, hp⟩
  cases hd with
  | @old _ _ _ x session ref hx hu ho =>
    have hs : (past tid s.hist).Sublist (⟨.deleteRefresh ref.id, .ok ()⟩ :: past tid s.hist) :=
      sublist_cons_self _ _
    obtain ⟨w0, hsaw, hat⟩ := ho.saw h
    refine ⟨x, hx.created.mono hs, ⟨?_, ?_, ?_⟩, ⟨session, ref, ho.mono hs, rfl⟩, mem_cons_self,
      (refPlaces S).same refNames_lawful h hsaw hat hp, ?_⟩
    · simpa using hu.create
    · simpa using hu.update
    · simpa using hu.claim
    · intro heq
      exact not_known_of_uninstalled (created_drawn h hx.created) hu (heq ▸ hknown)
  | own hx hu => exact absurd hknown (not_known_of_uninstalled (created_drawn h hx.created) hu)
  | @revoke q u c old _ hpast =>
    have hd : did (past tid s.hist) (.updateOfflineSessions u c (revokeUpdater q.clientId)) (.ok old) := by
      rw [hpast]
      exact mem_cons_self
    exact absurd ⟨p, hp⟩ (revoked_gone h hd).2

namespace Linked
variable (h : Reach Initial s) (hth : s.threads[tid]? = some ⟨req, .act o k⟩)
  (hx : exec S.codec req.inst o ans s.world = some (r, w)) (ih : Linked s.world s.hist)
include h hth hx ih

theorem awaited_act (ha : Awaits (past t (.act tid req o r s.world w :: s.hist)) x) :
    places w.store x.id = some x.place := by
  have hts := tokenStep h hth hx
  rcases ha.of_act with he | ha'
  · rw [he] at hts
    generalize places w.store = toks at hts
    cases hts with
    | quiet hc _ => exact absurd rfl (hc x)
    | create _ _ _ => exact update_self _ _ _
  · have hpre := ih.awaited t x ha'
    generalize places w.store = toks at hts
    cases hts with
    | quiet _ _ => exact hpre
    | @create _ _ _ x' _ _ hnone =>
      by_cases hid : x.id = x'.id
      · rw [hid, hnone] at hpre
        cases hpre
      · rw [update_of_ne hid, hpre]
    | @delete id hd =>
      by_cases hid : x.id = id
      · subst hid
        obtain rfl := RefreshDelete.own_of_awaits h ha' hd
        exact absurd (did_act.mpr (.inl ⟨rfl, rfl⟩)) (ha.kept (.ok ()))
      · rw [update_of_ne hid, hpre]

theorem ref_act {p} (hp : refIDs w.store p = some id) : places w.store id = some p ∨
      ∃ t x, Replacing (past t (.act tid req o r s.world w :: s.hist)) p id x := by
  have hrs := refStep h hth hx
  have hts := tokenStep h hth hx
  rcases hrs.enter hp with hp0 | hin
  · rcases ih.ref p id hp0 with hpl | ⟨t, x, hrep⟩
    · -- the token was there
      generalize places w.store = toks at hts
      cases hts with
      | quiet _ _ => exact .inl hpl
      | @create _ _ _ x _ _ hnone =>
        by_cases hid : id = x.id
        · rw [hid, hnone] at hpl
          cases hpl
        · exact .inl (by rw [update_of_ne hid, hpl])
      | @delete id' hd =>
        by_cases hid : id = id'
        · subst hid
          obtain ⟨x, hrep⟩ := hd.replacing h hp0
          exact .inr ⟨tid, x, by rwa [past_act_self]⟩
        · exact .inl (by rw [update_of_ne hid, hpl])
    · by_cases ht : tid = t
      · subst ht
        have hs : (past tid s.hist).Sublist (⟨o, r⟩ :: past tid s.hist) := sublist_cons_self _ _
        rcases hrs.uninstalled h (Reach.duty h hth) hrep.created hrep.uninstalled with hu | hat
        · obtain ⟨session, ref, ho, hid⟩ := hrep.old
          refine .inr ⟨tid, x, ?_⟩
          rw [past_act_self]
          exact ⟨hrep.created.mono hs, hu, ⟨session, ref, ho.mono hs, hid⟩, hrep.deleted.mono hs,
            hrep.place, hrep.ne⟩
        · -- the exchange has replaced the reference
          rw [hrep.place, hp] at hat
          exact absurd (some.inj hat) hrep.ne
      · exact .inr ⟨t, x, by rwa [past_act_ne ht]⟩
  · obtain ⟨x, ha, rfl, hw⟩ := hrs.awaits h hin
    have hpl : p = x.place := by
      by_contra hne
      rw [hw, update_of_ne hne] at hp
      exact ha.not_known h (Names.known_of_present refNames_lawful h ⟨p, hp⟩)
    have hpre := ih.awaited tid x ha
    generalize places w.store = toks at hts
    cases hts with
    | quiet _ _ => exact .inl (hpl ▸ hpre)
    | create | delete => cases hin

omit ih in
theorem token_act_ref (hC : Orderly s.hist (.act tid req o r s.world w)) {p : Place}
    (hpl : places s.world.store id = some p) (hp : refIDs s.world.store p = some id) :
    refIDs w.store p = some id ∨ Revoking (.act tid req o r s.world w :: s.hist) tid id := by
  have hrs := refStep h hth hx
  obtain ⟨refs, hw⟩ : ∃ refs, refIDs w.store = refs := ⟨_, rfl⟩
  rw [hw] at hrs ⊢
  cases hrs with
  | quiet _ _ | touch _ _ _ => exact .inl hp
  | @install _ _ _ _ x hst _ _ he hnew =>
    by_cases hpx : p = x.place
    · subst hpx
      rw [update_self]
      by_contra hne
      cases he with
      | create =>
        rw [hnew _ rfl] at hp
        cases hp
      | @update old =>
        cases exec_effect hx with
        | none hn => cases hn
        | updateOfflineSessions ho _ =>
          rw [RefreshToken.place, refIDs_of_lookup ho] at hp
          obtain ⟨ref, hl, rfl⟩ := map_eq_some_iff.mp hp
          have hd := hC.deleted hst.kind hl (by
            rw [hw, ← RefreshToken.place, update_self]
            exact fun heq => hne (.inl heq))
          rw [places_deleted h hd] at hpl
          cases hpl
    · rw [update_of_ne hpx]
      exact .inl hp
  | @revoke q u c old hk _ hpast hid =>
    by_cases hpq : p = (u, c, q.clientId)
    · subst hpq
      rw [hid] at hp
      refine .inr ⟨⟨req, q, u, c, old, _, _, hk, some.inj hp, mem_cons_self⟩, ?_⟩
      simp [past_act_self, hpast]
    · rw [update_of_ne hpq]
      exact .inl hp

theorem token_act (hC : Orderly s.hist (.act tid req o r s.world w)) {p}
    (hp : places w.store id = some p) : refIDs w.store p = some id ∨
      (∃ t x, Awaits (past t (.act tid req o r s.world w :: s.hist)) x ∧ x.id = id) ∨
      ∃ t, Revoking (.act tid req o r s.world w :: s.hist) t id := by
  have hrs := refStep h hth hx
  -- the call does not delete the token
  have hdel : ∀ res, (⟨o, r⟩ : Ev sig) ≠ ⟨.deleteRefresh id, res⟩ := by
    intro res he
    cases he
    rw [places_after_delete hx hC.1] at hp
    cases hp
  rcases (tokenStep h hth hx).enter hp with hpl | ⟨x, he, rfl, hu⟩
  · rcases ih.token id p hpl with hp0 | ⟨t, x, ha, rfl⟩ | ⟨t, ⟨q, r', u, c, old, pre, post, hk, hid, hmem⟩, hno⟩
    · exact (token_act_ref h hth hx hC hpl hp0).imp_right fun hrev => .inr ⟨tid, hrev⟩
    · by_cases ht : tid = t
      · subst ht
        rcases hrs.uninstalled h (Reach.duty h hth) ha.created ha.uninstalled with hu | hat
        · refine .inr (.inl ⟨tid, x, ⟨ha.created.later _, by rwa [past_act_self], fun res hd => ?_⟩, rfl⟩)
          exact (did_act.mp hd).elim (fun he => hdel res he.2) (ha.kept res)
        · cases hpl.symm.trans (ih.awaited tid x ha)
          exact .inl hat
      · exact .inr (.inl ⟨t, x, by rwa [past_act_ne ht], rfl⟩)
    · refine .inr (.inr ⟨t, ⟨q, r', u, c, old, pre, post, hk, hid, mem_cons_of_mem _ hmem⟩, fun res hd => ?_⟩)
      exact (did_act.mp hd).elim (fun he => hdel res he.2) (hno res)
  · cases he
    refine .inr (.inl ⟨tid, x, ?_, rfl⟩)
    rw [past_act_self]
    refine ⟨mem_cons_self, ⟨?_, ?_, ?_⟩, ?_⟩
    · simpa using hu.uninstalled.create
    · simpa using hu.uninstalled.update
    · simpa using hu.uninstalled.claim
    · intro res hd
      exact hu _ _ rfl (by simpa using hd)

end Linked

theorem Linked.skip {w w' hist} (ih : Linked w hist) {e : Step S}
    (hpast : ∀ t, past t (e :: hist) = past t hist) (hrefs : refIDs w'.store = refIDs w.store)
    (hplaces : places w'.store = places w.store) : Linked w' (e :: hist) := by
  refine ⟨fun id p hp => ?_, fun p id hp => ?_, fun t x ha => ?_⟩
  · rw [hplaces] at hp
    rw [hrefs]
    rcases ih.token id p hp with h | ⟨t, x, ha, hid⟩ | ⟨t, ⟨q, r, u, c, old, pre, post, hk, hid, hmem⟩, hno⟩
    · exact .inl h
    · exact .inr (.inl ⟨t, x, by rwa [hpast], hid⟩)
    · exact .inr (.inr ⟨t, ⟨q, r, u, c, old, pre, post, hk, hid, mem_cons_of_mem _ hmem⟩, by rwa [hpast]⟩)
  · rw [hrefs] at hp
    rw [hplaces]
    exact (ih.ref p id hp).imp_right fun ⟨t, x, h⟩ => ⟨t, x, by rwa [hpast]⟩
  · rw [hpast] at ha
    rw [hplaces]
    exact ih.awaited t x ha

theorem Linked.reach (h : Reach Initial s) (hC : Along Orderly s.hist) : Linked s.world s.hist := by
  refine Reach.invariant (C := Orderly) (I := Linked) ?_ ?_ ?_ ?_ h hC
  · intro w hw
    refine ⟨fun id p hp => ?_, fun p id hp => ?_, fun tid x ha => ?_⟩
    · obtain ⟨x, hx, rfl⟩ := map_eq_some_iff.mp hp
      rw [hw.refs.token id x hx, (hw.refreshTokens id x hx).1]
      exact .inl rfl
    · obtain ⟨x, hx, rfl⟩ := hw.refs.ref p id hp
      rw [places, hx]
      exact .inl rfl
    · exact absurd ha.created (did_nil _ _)
  · intro w hist tid req ih
    exact ih.skip (fun _ => rfl) rfl rfl
  · intro s tid req o k ans r w' hr hC ih hth hx
    exact ⟨fun _ _ => Linked.token_act hr hth hx ih hC.1, fun _ _ => Linked.ref_act hr hth hx ih,
      fun _ _ => Linked.awaited_act hr hth hx ih⟩
  · intro s m w' clients connectors _ ih hm _ _ _ _
    exact ih.skip (fun _ => rfl) (move_refs hm).1 (move_refs hm).2

theorem exchange_update_ok (h : Reach Initial s) (hC : Along Orderly s.hist)
    (hc : did (past tid s.hist) (.createRefresh x) (.ok ())) {u c f res}
    (hd : did (past tid s.hist) (.updateOfflineSessions u c f) res) : ∃ old, res = .ok old := by
  obtain ⟨req, s0, w', hm⟩ := Reach.did_made h hd
  obtain ⟨_, s1, _, hm1⟩ := Reach.did_made h hc
  obtain ⟨_, hth⟩ := hm.thread
  obtain rfl := hm1.req_eq hth
  obtain ⟨⟨q, _, _, hmade⟩, _⟩ := hm1.duty
  obtain ⟨_, hx⟩ := hm.exec
  obtain ⟨l, hl⟩ := hm.hist
  rw [hl] at hC
  cases hm.duty with
  | install hst _ _ hs _ =>
    obtain ⟨hku, hkc⟩ := read_session_key hm.reach hs
    rcases storage_update .offlineSessions hx with
      ⟨old, _, rfl, _⟩ | ⟨rfl | ⟨_, hnone⟩ | ⟨_, _, ⟨_, _, hf⟩ | ⟨_, hf⟩⟩, _⟩
    · exact ⟨old, rfl⟩
    · have := hC.at.1.1
      simp [spurious] at this
    · obtain ⟨_, s2, _, hm2⟩ := Reach.did_made hm.reach hs
      obtain ⟨_, hx2⟩ := hm2.exec
      obtain ⟨_, hsome⟩ := session_kept hm.reach (.pre hm2.mem) (exec_getOfflineSessions hx2)
      rw [hku, hkc] at hnone
      rw [hnone] at hsome
      cases hsome
    · cases hf
    · cases hf
  | touch hx' _ _ =>
    cases hmade.kind.symm.trans hx'.kind
    exact absurd hmade.grantType (refresh_ne_code hx'.grantType)
  | revoke hk _ _ => cases hmade.kind.symm.trans hk

/-- The requests whose handlers work on refresh tokens. -/
def Kind.onTokens : Kind → Bool
  | .token _ | .revokeRefresh _ => true
  | _ => false

def Idle (s : Sys (dex S)) : Prop :=
  ∀ th ∈ s.threads, th.req.kind.onTokens = true → th.prog.done = true

instance (s : Sys (dex S)) : Decidable (Idle s) := inferInstanceAs (Decidable (∀ th ∈ s.threads, _))

theorem Idle.post (hi : Idle s) (h : Reach Initial s) {pre}
    (hm : (.act tid req o r pre w : Step S) ∈ s.hist) (hk : req.kind.onTokens = true) :
    post S req (past tid s.hist) := by
  obtain ⟨p, hth⟩ := h.thread_of_mem hm
  have hdone := hi _ (mem_of_getElem? hth) hk
  cases p with
  | ret _ => exact Reach.post h hth
  | act _ _ => cases hdone

theorem Idle.settled (hi : Idle s) (h : Reach Initial s)
    (hc : did (past tid s.hist) (.createRefresh x) (.ok ())) : Settled (past tid s.hist) := by
  obtain ⟨req, s0, _, hm⟩ := Reach.did_made h hc
  obtain ⟨⟨_, _, _, hmade⟩, _⟩ := hm.duty
  have hpost := hi.post h hm.mem (by rw [hmade.kind]; rfl)
  simp only [Dex.post, hmade.kind] at hpost
  exact hpost.1

end

/-- In a run without spurious failures in which every exchange that installs a
reference finds in its place none, or one whose token it has deleted itself, the
stored refresh tokens and the references of the sessions name each other whenever
no handler is under way. -/
theorem tokens_match_references (S : Setup) (s : Sys (dex S)) (h : Reach Initial s)
    (hC : Along Orderly s.hist) (hidle : Idle s) : Bijection s.world.store := by
  have hl := Linked.reach h hC
  refine ⟨fun id x hx => ?_, fun p id hp => ?_⟩
  · obtain rfl := refreshToken_id h hx
    rcases hl.token x.id x.place (by rw [places, hx]; rfl) with hr | ⟨t, x', ha, hid⟩ | ⟨t, hrev, hno⟩
    · exact hr
    · rcases (hidle.settled h ha.created).created x' ha.created with (hd | ⟨_, _, _, hd⟩) | ⟨res, hd⟩
      · exact absurd hd (ha.uninstalled.create _)
      · exact absurd hd (ha.uninstalled.update _ _ _ _)
      · exact absurd hd (ha.kept res)
    · obtain ⟨req, q, u, c, old, pre, post, hk, hid, hmem⟩ := hrev
      have hpost := hidle.post h hmem (by rw [hk]; rfl)
      simp only [Dex.post, hk] at hpost
      obtain ⟨res, hd⟩ := hpost u c old (mem_past.mpr ⟨_, _, _, hmem⟩)
      rw [hid] at hd
      exact absurd hd (hno res)
  · rcases hl.ref p id hp with hpl | ⟨t, x, hrep⟩
    · obtain ⟨x, hx, hpx⟩ := map_eq_some_iff.mp hpl
      exact ⟨x, hx, hpx⟩
    · obtain ⟨session, ref, ho, rfl⟩ := hrep.old
      rcases (hidle.settled h hrep.created).replaced x session ref hrep.created ho hrep.deleted with
        heq | ⟨u, c, f, res, hd⟩
      · exact absurd heq hrep.ne
      · obtain ⟨old, rfl⟩ := exchange_update_ok h hC hrep.created hd
        exact absurd hd (hrep.uninstalled.update _ _ _ _)

/-- Alice's token is revoked, which leaves her session without a reference. Two
of her codes are exchanged at the same time; both exchanges read the session
before either writes it. -/
def orphanSteps : List (Label (dex demo)) :=
  obtainRefresh ++ revoking 4 (plains 3) ++
  obtainCode 5 "d" "openid offline_access" [] ++ obtainCode 8 "e" "openid offline_access" [] ++
  exchangeCode 11 "d" "at11" ++ storeRefresh 11 "y" "y1" ++ going 11 (plains 1) ++
  exchangeCode 12 "e" "at12" ++ storeRefresh 12 "z" "z1" ++ going 12 (plains 1) ++
  going 11 (plains 4) ++ going 12 (plains 4)

@[irreducible] def orphanRun : Sys (dex demo) := .after demoWorld orphanSteps

def failing : Label (dex demo) → Bool
  | .act _ .fail => true
  | _ => false

/-- The token of the first exchange stays behind, and the session refers to that
of the second. -/
theorem orphaned_token : Reach Initial orphanRun ∧ (∀ l ∈ orphanSteps, failing l = false) ∧
    Idle orphanRun ∧ places orphanRun.world.store "y" = some ("1", "a", "app") ∧
    refIDs orphanRun.world.store ("1", "a", "app") = some "z" ∧ ¬ Bijection orphanRun.world.store := by
  obtain ⟨hidle, hy, hz⟩ : Idle orphanRun ∧ places orphanRun.world.store "y" = some ("1", "a", "app") ∧
      refIDs orphanRun.world.store ("1", "a", "app") = some "z" := by
    decide +kernel
  have h : Reach Initial orphanRun := by
    unfold orphanRun
    exact .after demo_blank.toInitial _
  refine ⟨h, by decide +kernel, hidle, hy, hz, fun hb => ?_⟩
  obtain ⟨x, hx, hp⟩ := map_eq_some_iff.mp hy
  have hr := hb.token "y" x hx
  rw [hp, hz, refreshToken_id h hx] at hr
  simp at hr

/-- The same with the second exchange after the first: it deletes the token of
the first before it writes over its reference. -/
@[irreducible] def orderlyRun : Sys (dex demo) := .after demoWorld <|
  obtainRefresh ++ revoking 4 (plains 3) ++
  obtainCode 5 "d" "openid offline_access" [] ++ obtainCode 8 "e" "openid offline_access" [] ++
  exchangeCode 11 "d" "at11" ++ storeRefresh 11 "y" "y1" ++ going 11 (plains 5) ++
  exchangeCode 12 "e" "at12" ++ storeRefresh 12 "z" "z1" ++ going 12 (plains 6)

theorem orderly_tokens_match : Along Orderly orderlyRun.hist ∧ Idle orderlyRun ∧
    refIDs orderlyRun.world.store ("1", "a", "app") = some "z" ∧ Bijection orderlyRun.world.store := by
  obtain ⟨hC, hidle, hz⟩ : Along Orderly orderlyRun.hist ∧ Idle orderlyRun ∧
      refIDs orderlyRun.world.store ("1", "a", "app") = some "z" := by
    decide +kernel
  have h : Reach Initial orderlyRun := by
    unfold orderlyRun
    exact .after demo_blank.toInitial _
  have hb := tokens_match_references demo orderlyRun h hC hidle
  exact ⟨hC, hidle, hz, hb⟩

end KubeYamls.Dex
