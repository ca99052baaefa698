import KubeYamls.Dex.Runs

/-! # Signing keys over all server instances

The caches are checked by the clock only, and written without a lock after the
clock was read. What makes them right is that the storage never changes its keys
before `NextRotation`: keys that were read once are still the stored ones, or out
of date. -/
namespace KubeYamls.Dex
open Data Conc List

def KeyMaterial.pub : KeyMaterial → KeyMaterial
  | .rsaPrivate n => .rsaPublic n
  | .rsaPublic n => .rsaPublic n
  | _ => .other

def JSONWebKey.pub (k : JSONWebKey) : JSONWebKey := { k with key := k.key.map (·.pub) }

/-- `k` is what the storage holds, or out of date. -/
def Current (w : World) (k : Keys) : Prop := k = w.store.keys ∨ k.nextRotation ≤ w.clock

/-- The signing key has its public part beside it. -/
def Paired (k : Keys) : Prop := ∀ key, k.signingKey = some key → k.signingKeyPub = some key.pub

/-- Keys as servers may find them when they start. -/
structure KeysInitial (w : World) : Prop where
  cached : ∀ i k, (w.insts i).keys = some k → Current w k
  paired : Paired w.store.keys

section
variable {S : Setup} {s : Sys (dex S)} {tid : Nat} {req : Request} {o : Op} {r : Res o}
  {k : Keys} {w w' : World}

theorem rotateUpdater_ok {c n keyID tNow later old new}
    (h : rotateUpdater c (newSigningKey n keyID) (newSigningKeyPub n keyID) tNow later old = .ok new) :
    old.nextRotation ≤ tNow ∧ Paired new ∧ (∀ pub, old.signingKeyPub = some pub →
      ⟨pub, tNow + c.idTokenValidFor⟩ ∈ new.verificationKeys) ∧
    ∀ key ∈ old.verificationKeys, tNow ≤ key.expiry → key ∈ new.verificationKeys := by
  unfold rotateUpdater at h
  split at h
  · cases h
  · rename_i ht
    cases h
    refine ⟨Int.not_lt.mp ht, ?_, ?_, ?_⟩
    · rintro key hk
      cases hk
      rfl
    · intro pub hpub
      simp [hpub]
    · intro key hm hexp
      have hkeep : key ∈ old.verificationKeys.filter fun key => !decide (tNow > key.expiry) :=
        mem_filter.mpr ⟨hm, by simpa using hexp⟩
      cases hpub : old.signingKeyPub with
      | none => simpa [hpub] using hkeep
      | some pub => exact mem_append_left _ (by simpa using hkeep)

theorem keys_step (he : Effect req.inst w ⟨o, r⟩ w') {past} (hd : duty S req past o) :
    w'.store.keys = w.store.keys ∨ (∃ f old, (⟨o, r⟩ : Ev sig) = ⟨.updateKeys f, .ok old⟩) ∧
      w.store.keys.nextRotation ≤ w.clock ∧ Paired w'.store.keys ∧ (∀ pub, w.store.keys.signingKeyPub = some pub →
        ⟨pub, w.clock + (S.config req.inst).idTokenValidFor⟩ ∈ w'.store.keys.verificationKeys) ∧
      ∀ key ∈ w.store.keys.verificationKeys, w.clock ≤ key.expiry → key ∈ w'.store.keys.verificationKeys := by
  rcases he.keys with hk | ⟨f, later, heq, hf⟩
  · exact .inl hk
  · cases heq
    obtain ⟨n, keyID, rfl⟩ := hd
    exact .inr ⟨⟨_, _, rfl⟩, rotateUpdater_ok hf⟩

theorem Current.act (h : Current w k) (he : Effect req.inst w ⟨o, r⟩ w') {past}
    (hd : duty S req past o) : Current w' k := by
  have hclock := he.clock
  rcases h with rfl | hout
  · rcases keys_step he hd with hk | ⟨_, hrot, _⟩
    · exact .inl hk.symm
    · exact .inr (Int.le_trans hrot hclock)
  · exact .inr (Int.le_trans hout hclock)

/-! ## The caches -/

/-- Whatever keys were in the storage or are in a cache are the stored ones, or
out of date. -/
structure Coherent (w : World) (hist : List (Step S)) : Prop where
  cached : ∀ i k, (w.insts i).keys = some k → Current w k
  seen : ∀ w0, Saw hist w0 → Current w w0.store.keys ∧ w0.clock ≤ w.clock
  paired : Paired w.store.keys

theorem StoredKeys.did {past} (h : StoredKeys past k) : did past .getKeys (.ok k) := by
  obtain ⟨rest, rfl | ⟨t, k', rfl⟩⟩ := h <;> exact mem_cons_self

theorem Coherent.reach (h : Reach KeysInitial s) : Coherent s.world s.hist := by
  refine Reach.invariant (C := fun _ _ => True) (I := Coherent) ?_ ?_ ?_ ?_ h (along_true _)
  · intro w hw
    refine ⟨hw.cached, ?_, hw.paired⟩
    rintro w0 (h | h) <;> cases h
  · intro w hist tid req hI
    exact ⟨hI.cached, fun w0 hw => hI.seen w0 hw.of_start, hI.paired⟩
  · intro s tid req o next ans r w' hr _ hI hth hx
    have he := exec_effect hx
    have hd := Reach.duty hr hth
    refine ⟨?_, ?_, ?_⟩
    · intro i k hk
      rcases he.cached hk with hk | heq
      · exact (hI.cached i k hk).act he hd
      · -- the keys were read from the storage before
        cases heq
        obtain ⟨t, rest, hpast, _, hstored⟩ := hd
        have hread : did (past tid s.hist) .getKeys (.ok k) :=
          hpast ▸ mem_cons_of_mem _ hstored.did
        obtain ⟨_, s0, w0, hm⟩ := Reach.did_made hr hread
        obtain ⟨_, hx0⟩ := hm.exec
        have hcur := (hI.seen _ (.pre hm.mem)).1
        rw [← exec_getKeys hx0] at hcur
        exact hcur.act he (Reach.duty hr hth)
    · intro w0 hw
      rcases hw.of_cons with rfl | rfl | hw
      · exact ⟨Current.act (.inl rfl) he hd, he.clock⟩
      · exact ⟨.inl rfl, Int.le_refl _⟩
      · obtain ⟨hcur, hle⟩ := hI.seen w0 hw
        exact ⟨hcur.act he hd, Int.le_trans hle he.clock⟩
    · rcases keys_step he hd with hk | ⟨_, _, hpair, _⟩
      · exact hk ▸ hI.paired
      · exact hpair
  · intro s m w' clients connectors _ hI _ hs _ hclock hinsts
    have hkeys : w'.store.keys = s.world.store.keys := by rw [hs]
    have hcur : ∀ {k}, Current s.world k → Current w' k := by
      rintro k (rfl | hout)
      · exact .inl hkeys.symm
      · exact .inr (Int.le_trans hout hclock)
    refine ⟨?_, ?_, hkeys ▸ hI.paired⟩
    · intro i k hk
      rw [hinsts] at hk
      exact hcur (hI.cached i k hk)
    · intro w0 hw
      obtain ⟨hc, hle⟩ := hI.seen w0 hw.of_move
      exact ⟨hcur hc, Int.le_trans hle hclock⟩

/-! ## One call of `GetKeys` -/

/-- The keys that a read of `GetKeys` found, in the cache or in the storage. -/
def reads : Ev sig → Option Keys
  | ⟨.loadKeys, k⟩ => k
  | ⟨.getKeys, .ok k⟩ => some k
  | _ => none

/-- The last read of thread `tid` in `hist` found `k`, and was made in world `w`.
`since` is what happened after it, and `before` what happened before. -/
structure Found (tid : Nat) (hist : List (Step S)) (k : Keys) (w : World)
    (since before : List (Step S)) : Prop where
  split : ∃ req o r w', hist = since ++ .act tid req o r w w' :: before ∧ reads ⟨o, r⟩ = some k
  last : ∀ e ∈ past tid since, reads e = none

theorem Found.skip {hist hist' since before l : List (Step S)} {req o r pre post} (h : Found tid hist k w since before)
    (hs : hist' = l ++ .act tid req o r pre post :: hist) (hl : past tid l = []) (hr : reads ⟨o, r⟩ = none) :
    Found tid hist' k w (l ++ .act tid req o r pre post :: since) before := by
  obtain ⟨q, o', r', w', rfl, hread⟩ := h.split
  refine ⟨⟨q, o', r', w', by simp [hs], hread⟩, fun e he => ?_⟩
  rw [past_append, hl, nil_append, past_act_self] at he
  rcases mem_cons.mp he with rfl | he
  · exact hr
  · exact h.last e he

/-- The calls of `GetKeys` up to its return: the call itself, the read that
counts, and a look at the clock if that was in the cache. -/
theorem KeysRead.split {past} (h : KeysRead past k) : ∃ es e es' rest,
    past = es ++ e :: (es' ++ ⟨.note .keysCall, ()⟩ :: rest) ∧ reads e = some k ∧
    (∀ e ∈ es, reads e = none) ∧ ¬ did es (.note .keysCall) () ∧ ¬ did es' (.note .keysCall) () ∧
    (e = ⟨.getKeys, .ok k⟩ ∨ e = ⟨.loadKeys, some k⟩ ∧ ∃ t, es = [⟨.now, t⟩] ∧ t < k.nextRotation) := by
  rcases h with ⟨t, rest, rfl, ht⟩ | ⟨t, rest, hstored, hpast⟩
  · exact ⟨[⟨.now, t⟩], _, [], rest, rfl, rfl, by simp [reads], by simp [did], by simp [did],
      .inr ⟨rfl, t, rfl, ht⟩⟩
  · have hes : ∃ es, past = es ++ rest ∧ (∀ e ∈ es, reads e = none) ∧ ¬ did es (.note .keysCall) () := by
      rcases hpast with rfl | rfl
      · exact ⟨[⟨.now, t⟩], rfl, by simp [reads], by simp [did]⟩
      · exact ⟨[⟨.storeKeys k, ()⟩, ⟨.now, t⟩], rfl, by simp [reads], by simp [did]⟩
    obtain ⟨es, rfl, hnone, hcall⟩ := hes
    obtain ⟨rest, rfl | ⟨t', k', rfl⟩⟩ := hstored
    · exact ⟨es, _, [⟨.loadKeys, none⟩], rest, rfl, rfl, hnone, hcall, by simp [did], .inl rfl⟩
    · exact ⟨es, _, [⟨.now, t'⟩, ⟨.loadKeys, some k'⟩], rest, rfl, rfl, hnone, hcall, by simp [did], .inl rfl⟩

theorem Found.stored {since before} (h : Reach KeysInitial s)
    (hf : Found tid s.hist k w since before) (hk : KeysRead (past tid s.hist) k) : w.store.keys = k := by
  obtain ⟨req, o, r, w', hs, hr⟩ := hf.split
  obtain ⟨s0, hm, rfl, rfl⟩ := Reach.made h hs
  obtain ⟨_, hx⟩ := hm.exec
  -- the two descriptions of the last read agree
  obtain ⟨es, e, es', rest, hpast, hr', hnone, _, _, hcase⟩ := hk.split
  rw [hs, past_append, past_act_self] at hpast
  obtain ⟨hes, rfl, _⟩ := first_unique (p := fun e => reads e ≠ none) hpast
    (by simpa using hf.last) (by simpa using hnone) (by simp [hr]) (by simp [hr'])
  rcases hcase with heq | ⟨heq, t, rfl, ht⟩
  · cases heq
    exact (exec_getKeys hx).symm
  · cases heq
    -- the clock was read later, so the cached keys were not out of date
    obtain ⟨l, q, pre, post, l', hl, _, _⟩ := past_split (a := []) hes
    have hs' : s.hist = l ++ .act tid q .now t pre post :: (l' ++ .act tid req .loadKeys (some k)
        s0.world w' :: s0.hist) := by rw [hs, hl, append_assoc, cons_append]
    obtain ⟨s1, hm1, rfl, hh⟩ := Reach.made h hs'
    obtain ⟨_, hx1⟩ := hm1.exec
    have hle : s0.world.clock ≤ s1.world.clock :=
      ((Coherent.reach hm1.reach).seen _ (.pre (hh ▸ mem_append_right _ mem_cons_self))).2
    rcases (Coherent.reach hm.reach).cached _ _ (exec_loadKeys hx).symm with hcur | hout
    · exact hcur.symm
    · rw [exec_now hx1] at ht
      exact absurd (Int.le_trans hout hle) (Int.not_le.mpr ht)

theorem KeysRead.found (h : Reach KeysInitial s) (hk : KeysRead (past tid s.hist) k) :
    ∃ w since before, Found tid s.hist k w since before ∧ w.store.keys = k := by
  obtain ⟨es, ⟨o, r⟩, es', rest, hpast, hr, hnone, _⟩ := hk.split
  obtain ⟨l1, req, w, w', l2, hs, h1, _⟩ := past_split hpast
  have hf : Found tid s.hist k w l1 l2 := ⟨⟨req, o, r, w', hs, hr⟩, h1 ▸ hnone⟩
  exact ⟨w, l1, l2, hf, hf.stored h hk⟩

/-- The thread and the keys of a step that returns from `GetKeys`. -/
def returned : Step S → Option (Nat × Keys)
  | .act tid _ (.note (.keysReturn k)) _ _ _ => some (tid, k)
  | _ => none

theorem returned_eq {e : Step S} (h : returned e = some (tid, k)) :
    ∃ req pre post, e = .act tid req (.note (.keysReturn k)) () pre post := by
  unfold returned at h
  split at h
  · cases h
    exact ⟨_, _, _, rfl⟩
  · cases h

theorem Reach.keysRead (h : Reach KeysInitial s) {later rest : List (Step S)} {e}
    (hs : s.hist = later ++ e :: rest) (he : returned e = some (tid, k)) :
    ∃ s0, Reach KeysInitial s0 ∧ s0.hist = rest ∧ KeysRead (past tid s0.hist) k := by
  obtain ⟨req, pre, post, rfl⟩ := returned_eq he
  obtain ⟨s0, hm, _, hh⟩ := Reach.made h hs
  exact ⟨s0, hm.reach, hh, hm.duty⟩

end

theorem demo_keysInitial : KeysInitial demoWorld where
  cached i k hk := by
    cases hk
    exact .inl rfl
  paired key hk := by
    cases hk
    rfl

/-- A rotation by a server whose cached keys are out of date. -/
def rotating (tid key : Nat) (keyID : String) : List (Label (dex demo)) :=
  serving tid .rotate (plains 7 ++ [.key key keyID, .delay 0])

section
variable {S : Setup} {s : Sys (dex S)} {tid : Nat} {req : Request} {o : Op} {r : Res o}
  {k : Keys} {w w' : World}

/-- `pub` is in the key set. -/
def Keys.Publishes (k : Keys) (pub : JSONWebKey) : Prop :=
  k.signingKeyPub = some pub ∨ ∃ key ∈ k.verificationKeys, key.publicKey = pub

/-- `pub` will not be pruned before the time `exp`. -/
def Lasting (w : World) (pub : JSONWebKey) (exp : Time) : Prop :=
  exp < w.clock ∨ w.store.keys.signingKeyPub = some pub ∨
  ∃ key ∈ w.store.keys.verificationKeys, key.publicKey = pub ∧ exp ≤ key.expiry

theorem Lasting.act {pub exp} (h : Lasting w pub exp)
    (he : Effect req.inst w ⟨o, r⟩ w') {past} (hd : duty S req past o)
    (hexp : exp ≤ w.clock + (S.config req.inst).idTokenValidFor) : Lasting w' pub exp := by
  rcases h with hlt | h
  · exact .inl (Int.lt_of_lt_of_le hlt he.clock)
  rcases keys_step he hd with hk | ⟨_, _, _, hdemote, hkeep⟩
  · rw [Lasting, hk]
    exact .inr h
  rcases h with hpub | ⟨key, hm, hkey, hle⟩
  · exact .inr (.inr ⟨_, hdemote pub hpub, rfl, hexp⟩)
  · by_cases ht : w.clock ≤ key.expiry
    · exact .inr (.inr ⟨key, hkeep key hm ht, hkey, hle⟩)
    · -- the rotation prunes the key: the time is over
      exact .inl (Int.lt_of_le_of_lt hle (Int.lt_of_lt_of_le (Int.not_le.mp ht) he.clock))

def rotated : Step S → Bool
  | .act _ _ (.updateKeys _) (.ok _) _ _ => true
  | _ => false

/-- `newIDToken` of thread `tid` is about to sign with `key`: it found it in the
keys, and read the clock after the steps `between`. `issued` is the history up to
that reading. -/
structure Issue (tid : Nat) (hist : List (Step S)) (key : JSONWebKey) (t : Time)
    (between issued : List (Step S)) : Prop where
  split : ∃ mid, hist = mid ++ issued ∧ ∀ t, ¬ did (past tid mid) .now t
  clock : ∃ req pre post rest k w before, issued = .act tid req .now t pre post :: rest ∧
    Found tid rest k w between before ∧ w.store.keys = k ∧ k.signingKey = some key

def signed : Step S → Option (Nat × IDToken)
  | .act tid _ (.signPayload _ _ _) (.ok idToken) _ _ => some (tid, idToken)
  | _ => none

theorem signed_eq {e : Step S} {idToken} (h : signed e = some (tid, idToken)) : ∃ req key alg payload pre post,
      e = .act tid req (.signPayload key alg payload) (.ok idToken) pre post := by
  unfold signed at h
  split at h
  · cases h
    exact ⟨_, _, _, _, _, _, rfl⟩
  · cases h

theorem keys_unrotated (h : Reach KeysInitial s) {since before}
    (hf : Found tid s.hist k w since before) (hw : w.store.keys = k)
    (hq : ∀ e ∈ since, rotated e = false) : s.world.store.keys = k := by
  obtain ⟨req, o, r, w', hs, hr⟩ := hf.split
  have hpost : w'.store.keys = k := by
    obtain ⟨s0, hm, rfl, _⟩ := Reach.made h hs
    rcases hm.effect.keys with hk | ⟨f, later, heq, _⟩
    · exact hk.trans hw
    · rw [heq] at hr
      cases hr
  refine Reach.since (P := fun l w => (∀ e ∈ l, rotated e = false) → w.store.keys = k)
    (fun _ => hpost) ?_ ?_ ?_ h hs hq
  · intro l w t q ih hq
    exact ih fun e he => hq e (mem_cons_of_mem _ he)
  · intro s l t q o' next ans r' w hr _ ih hth hx hq
    have hkeep := ih fun e he => hq e (mem_cons_of_mem _ he)
    rcases keys_step (exec_effect hx) (Reach.duty hr hth) with hk | ⟨⟨f, old, heq⟩, _⟩
    · exact hk.trans hkeep
    · cases heq
      cases hq _ mem_cons_self
  · intro l m w w' ih hm hq
    obtain ⟨_, _, hs, _⟩ := move_store hm
    rw [hs]
    exact ih fun e he => hq e (mem_cons_of_mem _ he)

theorem Reach.issue (h : Reach KeysInitial s) {t key}
    (hi : IssuedAt (past tid s.hist) k t) (hk : k.signingKey = some key) :
    ∃ between issued, Issue tid s.hist key t between issued := by
  obtain ⟨es, rest, hpast, hes⟩ := hi
  obtain ⟨mid, req, pre, post, l, hs, hmid, hl⟩ := past_split hpast
  obtain ⟨s1, hm, _, rfl⟩ := Reach.made h hs
  obtain ⟨a, q, pre', post', b, hs1, ha, _⟩ := past_split (a := []) hl
  obtain ⟨s2, hr2, rfl, hkr⟩ := Reach.keysRead (e := .act tid q (.note (.keysReturn k)) () pre' post')
    hm.reach hs1 rfl
  obtain ⟨w, since, before, hf, hw⟩ := hkr.found hr2
  -- the return is not a read
  refine ⟨_, _, ⟨mid, hs, fun t' hd => ?_⟩, req, pre, post, _, k, w, before, rfl, hf.skip hs1 ha rfl, hw, hk⟩
  rw [hmid] at hd
  cases hes _ hd

theorem Reach.signing (h : Reach KeysInitial s) {idToken} {later rest : List (Step S)} {e}
    (hs : s.hist = later ++ e :: rest) (he : signed e = some (tid, idToken)) :
    ∃ t between issued, Issue tid rest idToken.key t between issued ∧ idToken.payload.issuedAt = unix t ∧
      ∃ i, idToken.payload.expiry = unix (t + (S.config i).idTokensValidFor) := by
  obtain ⟨req, key, alg, payload, pre, post, rfl⟩ := signed_eq he
  obtain ⟨s0, hm, rfl, rfl⟩ := Reach.made h hs
  obtain ⟨_, hx⟩ := hm.exec
  cases exec_signPayload hx
  obtain ⟨⟨k0, t, hissued, hk0, hat, hexp⟩, _⟩ := hm.duty
  obtain ⟨between, issued, hi⟩ := Reach.issue hm.reach hissued hk0
  exact ⟨t, between, issued, hi, hat, req.inst, hexp⟩

theorem Issue.lasting {hist between issued l key t exp}
    (hi : Issue tid hist key t between issued) (hq : ∀ e ∈ between, rotated e = false)
    (hexp : ∀ i, exp = t + (S.config i).idTokenValidFor)
    (h : Reach KeysInitial s) (hs : s.hist = l ++ issued) : Lasting s.world key.pub exp := by
  obtain ⟨req, pre, post, rest, k, w, before, rfl, hf, hw, hk⟩ := hi.clock
  obtain ⟨s1, hm, rfl, rfl⟩ := Reach.made h hs
  obtain ⟨_, hx⟩ := hm.exec
  have hclock := exec_now hx
  have hkeys := keys_unrotated hm.reach hf hw hq
  have hpub : s1.world.store.keys.signingKeyPub = some key.pub :=
    (Coherent.reach hm.reach).paired key (hkeys ▸ hk)
  have hbase : t ≤ post.clock ∧ Lasting post key.pub exp := by
    cases hm.effect with
    | none _ => exact ⟨Int.le_of_eq hclock, .inr (.inl hpub)⟩
  refine (Reach.since (P := fun _ (w : World) => t ≤ w.clock ∧ Lasting w key.pub exp)
    hbase ?_ ?_ ?_ h hs).2
  · intro _ _ _ _ ih
    exact ih
  · rintro s l t' q o' next ans r' w' hr _ ⟨hle, hlast⟩ hth hx
    have he := exec_effect hx
    refine ⟨Int.le_trans hle he.clock, hlast.act he (Reach.duty hr hth) ?_⟩
    rw [hexp q.inst]
    exact Int.add_le_add_right hle _
  · rintro l m w w' ⟨hle, hlast⟩ hm
    obtain ⟨_, _, hs, _, hc, _⟩ := move_store hm
    refine ⟨Int.le_trans hle hc, ?_⟩
    rcases hlast with hlt | hlast
    · exact .inl (Int.lt_of_lt_of_le hlt hc)
    · rw [Lasting, hs]
      exact .inr hlast

end

/-- Rotation strands no live ID token. The validity of all servers is `v`; no
rotation is committed between the read of the keys and that of the clock, which
shows `t`. Then every `GetKeys` that reads its keys later, and not after the token
has expired, returns a set with the public part of the key. -/
theorem live_token_verifiable (S : Setup) (v : Duration)
    (hv : ∀ i, (S.config i).idTokenValidFor = v ∧ (S.config i).idTokensValidFor = v)
    (s : Sys (dex S)) (h : Reach KeysInitial s) (tid : Nat) (idToken : IDToken)
    (later rest : List (Step S)) (e : Step S)
    (hs : s.hist = later ++ e :: rest) (he : signed e = some (tid, idToken)) :
    ∃ t between issued, Issue tid rest idToken.key t between issued ∧
      idToken.payload.issuedAt = unix t ∧ idToken.payload.expiry = unix (t + v) ∧
      ((∀ e ∈ between, rotated e = false) →
        ∀ tid' k w later' rest' e' since before, s.hist = later' ++ e' :: rest' →
          returned e' = some (tid', k) → Found tid' rest' k w since before →
          issued <:+ before → w.clock ≤ t + v → k.Publishes idToken.key.pub) := by
  obtain ⟨t, between, issued, hi, hat, i, hexp⟩ := Reach.signing h hs he
  refine ⟨t, between, issued, hi, hat, (hv i).2 ▸ hexp, ?_⟩
  rintro hq tid' k w later' rest' e' since before hs' he' hf ⟨l, hl⟩ hle
  obtain ⟨s1, hr1, rfl, hkr⟩ := Reach.keysRead h hs' he'
  obtain ⟨q, o, r, w', hsplit, _⟩ := hf.split
  obtain ⟨s2, hm2, rfl, rfl⟩ := Reach.made hr1 hsplit
  have hlast := hi.lasting hq (fun i => by rw [(hv i).1]) hm2.reach hl.symm
  rw [Lasting, hf.stored hr1 hkr] at hlast
  rcases hlast with hlt | hpub | ⟨vk, hvk, hkey, _⟩
  · exact absurd hle (Int.not_le.mpr hlt)
  · exact .inl hpub
  · exact .inr ⟨vk, hvk, hkey⟩

def startedAt {S : Setup} : Step S → Option Nat
  | .start tid _ => some tid
  | _ => none

def clockOf {S : Setup} : Step S → Option Time
  | .act _ _ _ _ w _ => some w.clock
  | _ => none

/-- Thread 3 reads the keys before a rotation, and returns them after a token was
signed with the next ones. -/
@[irreducible] def lateReturnRun : Sys (dex demo) := .after demoWorld <|
  obtainCode 0 "c" "openid" [{ password := true }] ++ .move (.tick 60) :: serving 3 .publicKeys (plains 5) ++
  rotating 4 1 "k1" ++ exchangeCode 5 "c" "at" ++ going 5 (plains 5) ++ going 3 (plains 1)

/-- From the start of the request that signs the token nothing is rotated, and the
clock stands still until the keys are returned. -/
theorem late_return_unverifiable : Reach KeysInitial lateReturnRun ∧ ∃ idToken : IDToken,
    lateReturnRun.hist[3]?.bind signed = some (5, idToken) ∧ idToken.payload.issuedAt = unix 60 ∧
    lateReturnRun.hist[18]?.bind startedAt = some 5 ∧
    (∀ e ∈ lateReturnRun.hist.take 18, rotated e = false ∧ clockOf e = some 60) ∧
    lateReturnRun.hist[0]?.bind returned = some (3, demoKeys) ∧ ¬demoKeys.Publishes idToken.key.pub := by
  have h : Reach KeysInitial lateReturnRun := by
    unfold lateReturnRun
    exact .after demo_keysInitial _
  obtain ⟨hsigned, hrest⟩ : (lateReturnRun.hist[3]?.bind signed).map
        (fun x => (x.1, x.2.payload.issuedAt, x.2.key)) = some (5, unix 60, newSigningKey 1 "k1") ∧
      lateReturnRun.hist[18]?.bind startedAt = some 5 ∧
      (∀ e ∈ lateReturnRun.hist.take 18, rotated e = false ∧ clockOf e = some 60) ∧
      lateReturnRun.hist[0]?.bind returned = some (3, demoKeys) := by
    decide +kernel
  obtain ⟨⟨tid, idToken⟩, hsigned, heq⟩ := Option.map_eq_some_iff.mp hsigned
  obtain ⟨rfl, hat, hkey⟩ : tid = 5 ∧ idToken.payload.issuedAt = unix 60 ∧
    idToken.key = newSigningKey 1 "k1" := by simpa using heq
  refine ⟨h, idToken, hsigned, hat, hrest.1, hrest.2.1, hrest.2.2, ?_⟩
  rw [hkey, Keys.Publishes]
  decide

def clockRead {S : Setup} : Step S → Time
  | .act _ _ .now t _ _ => t
  | _ => 0

def readAt {S : Setup} : Step S → Option (Nat × Option Keys × Time)
  | .act tid _ o r w _ => some (tid, reads ⟨o, r⟩, w.clock)
  | _ => none

/-- A token is signed, the key is rotated out, and another request reads the keys
before the token expires. -/
@[irreducible] def outlivingRun : Sys (dex demo) := .after demoWorld <|
  obtainCode 0 "c" "openid" [{ password := true }] ++ exchangeCode 3 "c" "at" ++
  .move (.tick 60) :: rotating 4 1 "k1" ++ serving 5 .publicKeys (plains 7)

/-- The keys after the rotation: the first one signs no more, and is kept. -/
def rotatedKeys : Keys :=
  ⟨some (newSigningKey 1 "k1"), some (newSigningKeyPub 1 "k1"), [⟨newSigningKeyPub 0 "k", 160⟩], 110⟩

theorem outliving_token_verifiable :
    (∃ later e rest, outlivingRun.hist = later ++ e :: rest ∧ returned e = some (5, rotatedKeys)) ∧
    rotatedKeys.Publishes (newSigningKey 0 "k").pub := by
  have h : Reach KeysInitial outlivingRun := by
    unfold outlivingRun
    exact .after demo_keysInitial _
  obtain ⟨hsign, hquiet, hclock, hread, hlast, hret⟩ :
      outlivingRun.hist[19]?.bind (fun e => (signed e).map fun x => (x.1, x.2.key)) =
        some (3, newSigningKey 0 "k") ∧
      (∀ e ∈ outlivingRun.hist.drop 20, rotated e = false) ∧
      (∀ e ∈ outlivingRun.hist.drop 20, 0 ≤ clockRead e) ∧
      (outlivingRun.hist.drop 1)[2]?.bind readAt = some (5, some rotatedKeys, 60) ∧
      (∀ e ∈ past 5 ((outlivingRun.hist.drop 1).take 2), reads e = none) ∧
      outlivingRun.hist[0]?.bind returned = some (5, rotatedKeys) := by
    decide +kernel
  obtain ⟨e, hs, he⟩ := split_at hsign
  obtain ⟨⟨tid, idToken⟩, he, hkey⟩ := Option.map_eq_some_iff.mp he
  obtain ⟨rfl, hkey⟩ := Prod.mk.inj hkey
  obtain ⟨e', hs', he'⟩ := split_at hret
  refine ⟨⟨_, e', _, hs', he'⟩, ?_⟩
  obtain ⟨t, between, issued, hi, _, _, himp⟩ := live_token_verifiable demo 100 (fun _ => ⟨rfl, rfl⟩)
    outlivingRun h 3 idToken _ _ e hs he
  obtain ⟨⟨mid, hmid, _⟩, req, pre, post, rest, _, _, before, rfl, ⟨⟨_, _, _, _, hrest, _⟩, _⟩, _⟩ := hi
  -- all that came before the signature happened at time 0 and was no rotation
  have hbetween : ∀ e ∈ between, rotated e = false := by
    intro e he
    exact hquiet e (by rw [hmid, hrest]; simp [he])
  have ht : 0 ≤ t := hclock (.act 3 req .now t pre post) (by rw [hmid]; simp)
  obtain ⟨e3, hs3, he3⟩ := split_at hread
  cases e3 with
  | act tid q o r w w' =>
    obtain ⟨rfl, hr⟩ := Prod.mk.inj (Option.some.inj he3)
    obtain ⟨hr, hw⟩ := Prod.mk.inj hr
    have hf : Found 5 (outlivingRun.hist.drop 1) rotatedKeys w ((outlivingRun.hist.drop 1).take 2)
        ((outlivingRun.hist.drop 1).drop 3) := ⟨⟨q, o, r, w', hs3, hr⟩, hlast⟩
    have hlater : (.act 3 req .now t pre post :: rest) <:+
        (outlivingRun.hist.drop 1).drop 3 := by
      rw [drop_drop]
      exact .trans ⟨mid, hmid.symm⟩ (drop_suffix_drop_left _ (by decide))
    have hle : w.clock ≤ t + 100 := by
      rw [hw]
      exact Int.le_trans (by decide : (60 : Int) ≤ 0 + 100) (Int.add_le_add_right ht 100)
    rw [← hkey]
    exact himp hbetween 5 rotatedKeys w _ _ e' _ _ hs' he' hf hlater hle
  | _ => cases he3

end KubeYamls.Dex
