import KubeYamls.Dex.Keys

/-! # Key sets that are cached

`handlePublicKeys` tells its clients for how long they may keep the key set: until
the next rotation, but never for less than two minutes. Until that rotation the set
has the key of every ID token that any server issues, and of every one issued before
that had not expired when the keys were read. -/
namespace KubeYamls.Dex
open Data Conc Prog List

/-- What a key set was made of: `GetKeys` returned `k`, and then the clock showed `t`. -/
structure SetOf (past : Past) (jwks : List JSONWebKey) (maxAge : Int) (k : Keys) (t : Time) : Prop where
  calls : ∃ rest, past = ⟨.now, t⟩ :: ⟨.note (.keysReturn k), ()⟩ :: rest
  keys : ∃ pub, k.signingKeyPub = some pub ∧ jwks = pub :: k.verificationKeys.map (·.publicKey)
  age : maxAge = seconds (max (k.nextRotation - t) (2 * 60 * 1000000000))

section
variable {S : Setup} {s : Sys (dex S)} {tid tid' : Nat} {req : Request}

/-- The keys of a set are those of the last read, which found them stored; the clock was
read after it. -/
theorem SetOf.found {jwks maxAge k t} (hset : SetOf (past tid s.hist) jwks maxAge k t) (h : Reach KeysInitial s) :
    ∃ w since before, Found tid s.hist k w since before ∧ w.store.keys = k ∧ w.clock ≤ t := by
  obtain ⟨rest, hpast⟩ := hset.calls
  obtain ⟨l1, q, pre, post, l2, hs, hl1, hl2⟩ := past_split (a := []) hpast
  obtain ⟨s1, hm, rfl, rfl⟩ := Reach.made h hs
  obtain ⟨_, hx⟩ := hm.exec
  obtain ⟨l3, q', pre', post', l4, hs1, hl3, _⟩ := past_split (a := []) hl2
  obtain ⟨s2, hr2, rfl, hread⟩ := Reach.keysRead (e := .act tid q' (.note (.keysReturn k)) () pre' post')
    hm.reach hs1 rfl
  obtain ⟨w, since, before, hf, hw⟩ := hread.found hr2
  -- neither the return nor the look at the clock is a read
  have hf1 := hf.skip hs1 hl3 rfl
  obtain ⟨_, _, _, _, hsplit, _⟩ := hf1.split
  refine ⟨w, _, before, hf1.skip hs hl1 rfl, hw, ?_⟩
  exact exec_now hx ▸ ((Coherent.reach hm.reach).seen w (.pre (hsplit ▸ mem_append_right _ mem_cons_self))).2

/-- A token is issued after the keys `k` were read, and before they are rotated out: with
the signing key of `k`. -/
theorem Issue.signingKey {hist between issued before req o r key t k} {w w' : World}
    (hi : Issue tid' hist key t between issued) (hq : ∀ e ∈ between, rotated e = false)
    (h : Reach KeysInitial s) (hs : issued <:+ s.hist) (hw : w.store.keys = k)
    (hread : (.act tid req o r w w' :: before) <:+ issued) (hne : o ≠ .now) (ht : t < k.nextRotation) :
    k.signingKeyPub = some key.pub := by
  obtain ⟨q, pre, post, rest, k0, w0, before0, rfl, hf, hw0, hk0⟩ := hi.clock
  obtain ⟨later, hs⟩ := hs
  obtain ⟨s1, hm, rfl, rfl⟩ := Reach.made h hs.symm
  obtain ⟨_, hx⟩ := hm.exec
  have hsaw : (.act tid req o r w w' : Step S) ∈ s1.hist := by
    have hin := hread.subset mem_cons_self
    rcases mem_cons.mp hin with heq | hin
    · cases heq
      exact absurd rfl hne
    · exact hin
  have hcoherent := Coherent.reach hm.reach
  have hkeys : k = s1.world.store.keys := by
    refine (hw ▸ (hcoherent.seen w (.pre hsaw)).1).resolve_right fun hout => ?_
    rw [exec_now hx] at ht
    exact absurd ht (Int.not_lt.mpr hout)
  have hsame := keys_unrotated hm.reach hf hw0 hq
  rw [hkeys]
  exact hcoherent.paired key (hsame ▸ hk0)

end

end KubeYamls.Dex
