import KubeYamls.Dex.ExchangeAlone

/-! # A code exchange that fails

With a session that has a reference for the client already, `handleAuthCode`
deletes the token of the old reference and then writes the reference to the new
one. If that write fails, the deferred function deletes the new token, and the
session is left with a reference to a token that is gone. The next exchange for
this user and client wants to delete the token of that reference, which is not
found, and so on for every exchange after it. -/
namespace KubeYamls.Dex
open Data Conc Prog Table List Option

/-- Every reference of a session is to a refresh token that is stored. -/
def NoDangling (s : MemStorage) : Prop :=
  ∀ key session, s.offlineSessions.lookup key = some session →
    ∀ clientID ref, session.refresh.lookup clientID = some ref → ∃ x, s.refreshTokens.lookup ref.id = some x

theorem noDangling_iff {s} :
    NoDangling s ↔ ∀ p id, refIDs s p = some id → ∃ x, s.refreshTokens.lookup id = some x := by
  constructor
  · rintro h ⟨u, c, cl⟩ id hid
    obtain ⟨session, hs, hr⟩ := bind_eq_some_iff.mp hid
    obtain ⟨ref, hl, rfl⟩ := map_eq_some_iff.mp hr
    exact h (u, c) session hs cl ref hl
  · rintro h ⟨u, c⟩ session hs cl ref hl
    refine h (u, c, cl) ref.id ?_
    rw [refIDs_of_lookup hs, hl]
    rfl

section
variable {codec : Codec} {inst : Nat} {w w' : World} {es : List (Ev sig)} {x : RefreshToken}

theorem NoDangling.same (h : NoDangling w.store) (hs : SameTokens w w') : NoDangling w'.store := by
  intro key session hl clientID ref hr
  rw [hs.sessions] at hl
  rw [hs.tokens]
  exact h key session hl clientID ref hr

theorem Bijection.noDangling {s} (h : Bijection s) : NoDangling s :=
  noDangling_iff.mpr fun p id hid => (h.ref p id hid).imp fun _ hx => hx.1

theorem refIDs_fresh (hw : Keyed w) (hn : NoDangling w.store) (hnew : x.id ∉ w.ids) (p : Place) :
    refIDs w.store p ≠ some x.id := by
  intro hid
  obtain ⟨y, hy⟩ := noDangling_iff.mp hn p x.id hid
  exact hnew (hw.tokens x.id y hy)

theorem refIDs_store (x : RefreshToken) (hs : SameTokens w w') : refIDs (x.store w').store = refIDs w.store :=
  refIDs_congr hs.sessions

theorem Keyed.store (hw : Keyed w) (hs : SameTokens w w') (hid : x.id ∈ w'.ids) : Keyed (x.store w') where
  tokens id y hl := by
    rcases lookup_insert_iff.mp hl with ⟨rfl, _⟩ | ⟨_, hl⟩
    · exact hid
    · exact (hw.same hs).tokens id y hl
  sessions := (hw.same hs).sessions

/-- With `x` stored and all else in bijection, the end of the exchange leaves a dangling
reference exactly if it replaces one and the update fails. -/
theorem Tied.noDangling_iff (h : Tied x w es w') (hx : w.store.refreshTokens.lookup x.id = some x)
    (hrefs : ∀ p id, refIDs w.store p = some id →
      id ≠ x.id ∧ ∃ y, w.store.refreshTokens.lookup id = some y ∧ y.place = p) :
    NoDangling w'.store ↔ ¬ (refIDs w.store x.place ≠ none ∧ ∃ e ∈ es, updateFails e = true) := by
  rw [Dex.noDangling_iff]
  cases h with
  | installed refs tokens updated answered =>
    refine iff_of_true (fun p id hid => ?_) ?_
    · rw [refs] at hid
      by_cases hp : p = x.place
      · subst hp
        rw [Function.update_self] at hid
        cases hid
        exact ⟨x, (tokens x.id fun hself => (hrefs _ _ hself).1 rfl).trans hx⟩
      · rw [Function.update_of_ne hp] at hid
        obtain ⟨_, y, hy, hplace⟩ := hrefs p id hid
        refine ⟨y, (tokens id fun hold => hp ?_).trans hy⟩
        obtain ⟨_, z, hz, hzplace⟩ := hrefs _ _ hold
        cases hy.symm.trans hz
        exact hplace.symm.trans hzplace
    · rintro ⟨_, e, he, hf⟩
      cases (updated e he).symm.trans hf
  | kept same updated why =>
    refine iff_of_true (fun p id hid => ?_) ?_
    · rw [refIDs_congr same.sessions] at hid
      obtain ⟨hne, y, hy, _⟩ := hrefs p id hid
      exact ⟨y, (same.tokens id hne).trans hy⟩
    · rintro ⟨hsome, e, he, hf⟩
      rcases updated with hnone | hno
      · exact hsome hnone
      · cases (hno e he).symm.trans hf
  | lost id old hne refs gone failed =>
    refine iff_of_false (fun hall => ?_) ?_
    · obtain ⟨y, hy⟩ := hall x.place id (by rw [refs, old])
      cases gone.symm.trans hy
    · rw [not_not, old]
      exact ⟨by simp, failed⟩

/-- An exchange from a storage without dangling references that has deleted its code, with
a connector and without a call that fails, hands out tokens. -/
theorem exchange_succeeds {c r client code}
    (hw : Keyed w) (hn : NoDangling w.store) (hcode : w.store.authCodes.lookup r.code = some code)
    (h : Runs (exec codec inst) (handleAuthCode c r client) w es () w')
    (hdel : (⟨.deleteAuthCode r.code, .ok ()⟩ : Ev sig) ∈ es)
    (hok : ∀ e ∈ es, connectorFails e = false ∧ storingFails e = false) : ∃ t, responses es = [.token t] := by
  rcases runs_handleAuthCode hw hcode h with href | hred
  · exact absurd hdel href.undeleted
  cases hred with
  | failed _ _ why =>
    obtain ⟨e, he, hf | hf⟩ := why
    · cases (hok e he).1.symm.trans hf
    · cases (hok e he).2.symm.trans hf
  | issued _ _ answered => exact answered
  | stored x w0 es1 es2 idToken accessToken refreshToken expiry hes hlead hplace same hnew hid run =>
    subst hes
    have hfails {e : Ev sig} (he : e ∈ es2) (hf : storingFails e = true) : False := by
      cases (hok e (mem_append_right _ he)).2.symm.trans hf
    have hfresh : refIDs (x.store w0).store x.place ≠ some x.id := by
      rw [refIDs_store x same]
      exact refIDs_fresh hw hn hnew x.place
    cases runs_storeRef (hw.store same hid) hfresh run with
    | installed _ _ _ answered => rwa [responses_append_leading hlead]
    | kept _ _ why =>
      rcases why with ⟨e, he, hf⟩ | ⟨id, hold, hgone⟩
      · exact (hfails he hf).elim
      · -- the token of the old reference is there
        rw [refIDs_store x same] at hold
        obtain ⟨y, hy⟩ := noDangling_iff.mp hn _ id hold
        rw [← same.tokens] at hy
        have hne : id ≠ x.id := fun heq => hnew (hw.tokens x.id y (by rw [← same.tokens, ← heq]; exact hy))
        cases hgone.symm.trans ((AList.lookup_insert_ne hne).trans hy)
    | lost _ _ _ _ _ failed =>
      obtain ⟨e, he, hf⟩ := failed
      exact (hfails he (storingFails_of_updateFails hf)).elim

theorem Keyed.exchange {c r client code} (hw : Keyed w) (hcode : w.store.authCodes.lookup r.code = some code)
    (h : Runs (exec codec inst) (handleAuthCode c r client) w es () w') : Keyed w' := by
  rcases runs_handleAuthCode hw hcode h with href | hred
  · exact hw.same href.same
  cases hred with
  | failed same _ _ | issued same _ _ => exact hw.same same
  | stored x w0 es1 es2 idToken accessToken refreshToken expiry hes hlead hplace same hnew hid run =>
    have honly : (writeAccessToken idToken accessToken refreshToken expiry).Only Tying :=
      only_step trivial fun _ => only_step trivial fun _ => only_op trivial
    refine (run.keeps (R := fun w w' => Keyed w → Keyed w') (storeRef_only x honly) (fun _ h => h)
      (fun h1 h2 h => h2 (h1 h)) ?_).1 (hw.store same hid)
    intro o ans r w w' ho hx h
    exact h.step ho hx

/-- Every later code exchange for the same user, connector and client hands out tokens, if
it comes to delete its code, finds the connector and no call fails. Other things may have
changed since, but not the refresh tokens and the sessions. -/
def Recovers (codec : Codec) (w : World) (p : Place) : Prop :=
  ∀ (inst : Nat) (c : Config) (r : TokenRequest) (client : Client) (code : AuthCode) (w1 w2 : World)
    (es : List (Ev sig)), SameTokens w w1 → w1.store.authCodes.lookup r.code = some code →
    code.place = p → Runs (exec codec inst) (handleAuthCode c r client) w1 es () w2 →
    (⟨.deleteAuthCode r.code, .ok ()⟩ : Ev sig) ∈ es →
    (∀ e ∈ es, connectorFails e = false ∧ storingFails e = false) →
    ∃ t, responses es = [.token t]

theorem NoDangling.recovers (hn : NoDangling w.store) (hw : Keyed w) (p : Place) : Recovers codec w p := by
  intro inst c r client code w1 w2 es hs hcode _ hrun hdel hok
  exact exchange_succeeds (hw.same hs) (hn.same hs) hcode hrun hdel hok

end

/-- A code exchange alone, whatever calls fail, leaves no dangling reference and the next
login of the user possible, exactly if it is not the case that there was a reference for
the client and the update of the session failed. -/
theorem recovers_iff (codec : Codec) (inst : Nat) (c : Config) (r : TokenRequest) (client : Client)
    (code : AuthCode) (w w' : World) (es : List (Ev sig)) (hw : Initial w)
    (hcode : w.store.authCodes.lookup r.code = some code)
    (hrun : Runs (exec codec inst) (handleAuthCode c r client) w es () w') :
    (NoDangling w'.store ∧ Recovers codec w' code.place) ↔
      ¬ (refIDs w.store code.place ≠ none ∧ ∃ e ∈ es, updateFails e = true) := by
  have hkeyed := hw.keyed
  have hn := hw.refs.noDangling
  have hrec : NoDangling w'.store → Recovers codec w' code.place :=
    fun h => h.recovers (hkeyed.exchange hcode hrun) _
  rw [and_iff_left_of_imp hrec]
  have hunchanged (hs : SameTokens w w') (hno : ∀ e ∈ es, updateFails e = false) :
      NoDangling w'.store ↔ ¬ (refIDs w.store code.place ≠ none ∧ ∃ e ∈ es, updateFails e = true) := by
    refine iff_of_true (hn.same hs) ?_
    rintro ⟨_, e, he, hf⟩
    cases (hno e he).symm.trans hf
  rcases runs_handleAuthCode hkeyed hcode hrun with href | hred
  · exact hunchanged href.same href.updated
  cases hred with
  | failed same hno _ | issued same hno _ => exact hunchanged same hno
  | stored x w0 es1 es2 idToken accessToken refreshToken expiry hes hlead hplace same hnew hid run =>
    have hsame := refIDs_store x same
    have hfresh (p : Place) : refIDs (x.store w0).store p ≠ some x.id := by
      rw [hsame]
      exact refIDs_fresh hkeyed hn hnew p
    have htied := runs_storeRef (hkeyed.store same hid) (hfresh x.place) run
    rw [htied.noDangling_iff (AList.lookup_insert _) ?_, hsame, hplace]
    · -- the calls before the token was stored update no session
      subst hes
      have hmem : (∃ e ∈ es1 ++ es2, updateFails e = true) ↔ ∃ e ∈ es2, updateFails e = true := by
        refine ⟨?_, fun ⟨e, he, hf⟩ => ⟨e, mem_append_right _ he, hf⟩⟩
        rintro ⟨e, he, hf⟩
        rcases mem_append.mp he with he | he
        · cases (updates_leading (hlead e he)).symm.trans hf
        · exact ⟨e, he, hf⟩
      rw [hmem]
    · intro p id hpid
      have hne : id ≠ x.id := fun heq => hfresh p (heq ▸ hpid)
      rw [hsame] at hpid
      obtain ⟨y, hy, hp⟩ := hw.refs.ref p id hpid
      refine ⟨hne, y, ?_, hp⟩
      rw [← same.tokens] at hy
      exact (AList.lookup_insert_ne hne).trans hy

/-- A code that alice has got for the client `app`. -/
def aliceCode (id : String) : AuthCode :=
  ⟨id, "app", "http://app/cb", "", ["openid", "offline_access"], "a", [], alice.claims, 1000⟩

def aliceToken : RefreshToken := refreshOf (aliceCode "c") "x" "x1" 0 0

/-- Alice has logged in twice again, and the client has a code for each login. -/
def returningWorld : World where
  store := { demoWorld.store with
    authCodes := ((∅ : Table String AuthCode).insert "d" (aliceCode "d")).insert "e" (aliceCode "e")
    refreshTokens := (∅ : Table String RefreshToken).insert "x" aliceToken
    offlineSessions := (∅ : Table (String × String) OfflineSessions).insert ("1", "a")
      (newOfflineSessions aliceToken) }
  clock := 0
  ids := ["e", "d", "x1", "x"]
  insts _ := {
    keys := some demoKeys
    connectors := (∅ : Table String Connector).insert "a" ⟨"1", { password := true, refresh := true }⟩ }

theorem returning_initial : Initial returningWorld where
  clients := demo_blank.clients
  authReqs _ _ h := by cases h
  authCodes id c h := by
    rcases lookup_insert_iff.mp h with ⟨rfl, rfl⟩ | ⟨_, h⟩
    · exact ⟨rfl, by decide⟩
    rcases lookup_insert_iff.mp h with ⟨rfl, rfl⟩ | ⟨_, h⟩
    · exact ⟨rfl, by decide⟩
    · cases h
  refreshTokens id x h := by
    rcases lookup_insert_iff.mp h with ⟨rfl, rfl⟩ | ⟨_, h⟩
    · exact ⟨rfl, by decide, by decide⟩
    · cases h
  sessions u c s h := by
    rcases lookup_insert_iff.mp h with ⟨heq, rfl⟩ | ⟨_, h⟩
    · cases heq
      exact ⟨rfl, rfl⟩
    · cases h
  refs := {
    token := fun id x h => by
      rcases lookup_insert_iff.mp h with ⟨rfl, rfl⟩ | ⟨_, h⟩
      · rfl
      · cases h
    ref := fun p id h => by
      obtain ⟨session, hs, hr⟩ := bind_eq_some_iff.mp h
      obtain ⟨ref, hl, rfl⟩ := map_eq_some_iff.mp hr
      rcases lookup_insert_iff.mp hs with ⟨hkey, rfl⟩ | ⟨_, hs⟩
      · rcases lookup_insert_iff.mp hl with ⟨hclient, rfl⟩ | ⟨_, hl⟩
        · refine ⟨aliceToken, AList.lookup_insert _, ?_⟩
          obtain ⟨u, c, cl⟩ := p
          cases hkey
          cases hclient
          rfl
        · cases hl
      · cases hs }

/-- The answers to an exchange up to the stored refresh token. -/
def storingAnswers (accessToken id token : String) : List Ans :=
  plains 2 ++ .text accessToken :: plains 11 ++ .text id :: .text token :: plains 4

def deletes (id : String) : Ev sig → Bool
  | ⟨.deleteAuthCode id', .ok _⟩ => id' = id
  | _ => false

theorem mem_of_deletes {id} {es : List (Ev sig)} (h : es.any (deletes id) = true) :
    (⟨.deleteAuthCode id, .ok ()⟩ : Ev sig) ∈ es := by
  obtain ⟨e, he, hd⟩ := any_eq_true.mp h
  unfold deletes at hd
  split at hd
  · cases of_decide_eq_true hd
    exact he
  · cases hd

def redeemBoth (answers answers' : List Ans) : Option (List (Ev sig) × World × List (Ev sig)) := do
  let (es, _, w) ← (handleAuthCode (demo.config 0) (codeRequest "d") app).drive (exec codec 0) answers
    returningWorld
  let (es', _, _) ← (handleAuthCode (demo.config 0) (codeRequest "e") app).drive (exec codec 0) answers' w
  return (es, w, es')

theorem redeemBoth_runs {answers answers' es es' w} (h : redeemBoth answers answers' = some (es, w, es')) :
    Runs (exec codec 0) (handleAuthCode (demo.config 0) (codeRequest "d") app) returningWorld es () w ∧
    ∃ w', Runs (exec codec 0) (handleAuthCode (demo.config 0) (codeRequest "e") app) w es' () w' := by
  obtain ⟨⟨es1, _, w1⟩, h1, h⟩ := bind_eq_some_iff.mp h
  obtain ⟨⟨es2, _, w2⟩, h2, h⟩ := bind_eq_some_iff.mp h
  cases h
  exact ⟨runs_of_drive h1, w2, runs_of_drive h2⟩

/-- The session update of the first exchange fails. The second exchange fails although no
call does. -/
theorem failed_login_dangles : ∃ es w, Initial returningWorld ∧
    returningWorld.store.authCodes.lookup "d" = some (aliceCode "d") ∧
    scopeOfflineAccess ∈ (aliceCode "d").scopes ∧
    Runs (exec codec 0) (handleAuthCode (demo.config 0) (codeRequest "d") app) returningWorld es () w ∧
    es.countP storingFails = 1 ∧ ¬ NoDangling w.store ∧ ¬ Recovers codec w (aliceCode "d").place := by
  have htest : (redeemBoth (storingAnswers "at" "y" "y1" ++ [.plain, .plain, .fail, .plain, .plain])
      (storingAnswers "at2" "z" "z1" ++ plains 4)).any (fun res => decide (
        res.1.countP storingFails = 1 ∧ refIDs res.2.1.store ("1", "a", "app") = some "x" ∧
        res.2.1.store.refreshTokens.lookup "x" = none ∧
        res.2.1.store.authCodes.lookup "e" = some (aliceCode "e") ∧ res.2.2.any (deletes "e") = true ∧
        (∀ e ∈ res.2.2, connectorFails e = false ∧ storingFails e = false) ∧
        (responses res.2.2).map reportsError = [true])) = true := by
    decide +kernel
  obtain ⟨⟨es, w, es'⟩, hboth, hres⟩ := (any_eq_true _ _).mp htest
  obtain ⟨hcount, href, hgone, hcode, hdel, hok, herr⟩ := of_decide_eq_true hres
  obtain ⟨hrun, w', hrun'⟩ := redeemBoth_runs hboth
  refine ⟨es, w, returning_initial, rfl, by decide, hrun, hcount, fun hn => ?_, fun hrec => ?_⟩
  · obtain ⟨x, hx⟩ := noDangling_iff.mp hn _ _ href
    cases hgone.symm.trans hx
  · obtain ⟨t, ht⟩ := hrec 0 (demo.config 0) (codeRequest "e") app (aliceCode "e") w w' es' (.refl w) hcode
      rfl hrun' (mem_of_deletes hdel) hok
    rw [ht] at herr
    cases herr

/-- The session cannot be read, and nothing is lost by it. -/
theorem failed_login_recovers : ∃ es w,
    Runs (exec codec 0) (handleAuthCode (demo.config 0) (codeRequest "d") app) returningWorld es () w ∧
    es.countP storingFails = 1 ∧ NoDangling w.store ∧ Recovers codec w (aliceCode "d").place := by
  have htest : ((handleAuthCode (demo.config 0) (codeRequest "d") app).drive (exec codec 0)
      (storingAnswers "at" "y" "y1" ++ [.fail, .plain, .plain]) returningWorld).any (fun res => decide (
        res.1.countP storingFails = 1 ∧ ∀ e ∈ res.1, updateFails e = false)) = true := by
    decide +kernel
  obtain ⟨⟨es, u, w⟩, hdrive, hres⟩ := (any_eq_true _ _).mp htest
  obtain ⟨hcount, hno⟩ := of_decide_eq_true hres
  have hrun := runs_of_drive hdrive
  refine ⟨es, w, hrun, hcount, (recovers_iff codec 0 (demo.config 0) (codeRequest "d") app (aliceCode "d")
    returningWorld w es returning_initial rfl hrun).mpr ?_⟩
  rintro ⟨_, e, he, hf⟩
  cases (hno e he).symm.trans hf

end KubeYamls.Dex
