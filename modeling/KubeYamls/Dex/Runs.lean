import KubeYamls.Conc.Names
import KubeYamls.Dex.Codec
import KubeYamls.Dex.Effects
import KubeYamls.Dex.ObeyToken

/-! # Runs of the servers

What every run has in common: the storage it may start from, the contract that
each thread keeps, and the induction that the invariants use. -/
namespace KubeYamls.Dex
open Data Conc List

/-- A step of a run of the servers, as the history records it. -/
abbrev Step (S : Setup) := Entry (dex S)

/-! ## Where runs start -/

/-- A user, the connector they come from, and a client. -/
abbrev Place := String × String × String

def RefreshToken.place (x : RefreshToken) : Place := (x.claims.userID, x.connectorID, x.clientID)

/-- The token ID the offline session of a user has for a client. -/
def refIDs (s : MemStorage) (p : Place) : Option String :=
  (s.offlineSessions.lookup (p.1, p.2.1)).bind fun session => (session.refresh.lookup p.2.2).map (·.id)

/-- Refresh tokens and the references of the sessions name each other. -/
structure Bijection (s : MemStorage) : Prop where
  token : ∀ id x, s.refreshTokens.lookup id = some x → refIDs s x.place = some x.id
  ref : ∀ p id, refIDs s p = some id → ∃ x, s.refreshTokens.lookup id = some x ∧ x.place = p

/-- A storage as servers may find it: objects are stored under their own IDs,
and `NewID` has given out all IDs and tokens in it. -/
structure Initial (w : World) : Prop where
  clients : ∀ id c, w.store.clients.lookup id = some c → c.id = id
  authReqs : ∀ id a, w.store.authReqs.lookup id = some a → a.id = id ∧ id ∈ w.ids
  authCodes : ∀ id c, w.store.authCodes.lookup id = some c → c.id = id ∧ id ∈ w.ids
  refreshTokens : ∀ id x, w.store.refreshTokens.lookup id = some x → x.id = id ∧ id ∈ w.ids ∧ x.token ∈ w.ids
  sessions : ∀ u c s, w.store.offlineSessions.lookup (u, c) = some s → s.userID = u ∧ s.connID = c
  refs : Bijection w.store

/-- A storage without requests, codes and tokens. -/
structure Blank (w : World) : Prop extends Initial w where
  noAuthReqs : w.store.authReqs = ∅
  noAuthCodes : w.store.authCodes = ∅
  noRefreshTokens : w.store.refreshTokens = ∅

/-! ## The contract along a run -/

section
variable {S : Setup} {Init : World → Prop} {s : Sys (dex S)} {tid : Nat} {req : Request} {o : Op}
  {k : Res o → Handler Unit} {r : Res o}

theorem move_store {m w w'} (h : move m w = some w') :
    ∃ clients connectors, w'.store = { w.store with clients, connectors } ∧ w'.ids = w.ids ∧
      w.clock ≤ w'.clock ∧ w'.insts = w.insts := by
  cases m with
  | tick d =>
    cases h
    exact ⟨_, _, rfl, rfl, Int.le_add_of_nonneg_right (Int.natCast_nonneg d), rfl⟩
  | configure clients connectors =>
    simp only [move] at h
    split at h
    · cases h
      exact ⟨_, _, rfl, rfl, Int.le_refl _, rfl⟩
    · cases h

/-- The supply of `NewID`. -/
def idSupply (S : Setup) : Supply (dex S) String where
  taken w s := s ∈ w.ids
  draw e s := e = ⟨.newID, s⟩
  fresh := by
    intro req o ans w r w' n hx hd
    have he := exec_effect hx
    rw [hd] at he
    obtain ⟨hn, rfl⟩ := he.of_newID
    exact ⟨hn, mem_cons_self⟩
  keep := by
    intro req o ans w r w' n hx hn
    rcases (exec_effect hx).ids with he | ⟨_, _, _, he⟩ <;> simp [he, hn]
  keep_move := by
    intro m w w' n hm hn
    obtain ⟨_, _, _, hi, _⟩ := move_store hm
    rw [hi]
    exact hn

theorem drawn_iff {n hist} : (idSupply S).drawn hist tid n ↔ did (past tid hist) .newID n := by
  simp [Supply.drawn, idSupply, did]

theorem did_act {t o' r' pre post} {hist : List (Step S)} :
    did (past tid (.act t req o r pre post :: hist)) o' r' ↔
      (t = tid ∧ (⟨o, r⟩ : Ev sig) = ⟨o', r'⟩) ∨ did (past tid hist) o' r' := by
  by_cases ht : t = tid
  · subst ht
    rw [past_act_self, did_cons]
    simp [eq_comm]
  · rw [past_act_ne ht]
    simp [ht]

theorem did.later {hist} (h : did (past tid hist) o r) (e : Step S) : did (past tid (e :: hist)) o r :=
  h.mono (past_sublist (sublist_cons_self _ _))

theorem Reach.granted (h : Reach Init s) {ans w}
    (hx : exec S.codec req.inst o ans s.world = some (r, w)) : grant S (past tid s.hist) o r := by
  cases o with
  | newID =>
    intro hd
    have ht := Supply.taken_of_drawn h (drawn_iff.mpr hd)
    exact (exec_effect hx).of_newID.1 ht
  | marshal a b =>
    rcases r with e | c
    · trivial
    · exact exec_marshal hx
  | _ => trivial

theorem Reach.obeys (h : Reach Init s) (th : Thread (dex S)) (hth : s.threads[tid]? = some th) :
    th.prog.wp (contract S th.req) (fun past _ => post S th.req past) (past tid s.hist) :=
  Conc.Reach.contract (C := contract S) (Q := fun req past _ => post S req past) (serve_obeys S)
    (fun _ _ _ _ _ _ _ _ hr _ hx => Reach.granted hr hx) h tid th hth

theorem Reach.duty (h : Reach Init s) (hth : s.threads[tid]? = some ⟨req, .act o k⟩) :
    duty S req (past tid s.hist) o :=
  (Reach.obeys h _ hth).1

theorem Reach.post (h : Reach Init s) (hth : s.threads[tid]? = some ⟨req, .ret ()⟩) :
    post S req (past tid s.hist) :=
  Reach.obeys h _ hth

/-- One call of the run that ends in `s`: it was made in state `s0` and left the
world `w'`. -/
structure Made (Init : World → Prop) (s : Sys (dex S)) (tid : Nat) (req : Request) (o : Op) (r : Res o)
    (s0 : Sys (dex S)) (w' : World) : Prop where
  reach : Reach Init s0
  hist : ∃ l, s.hist = l ++ .act tid req o r s0.world w' :: s0.hist
  thread : ∃ p, s.threads[tid]? = some ⟨req, p⟩
  ready : ∃ k, s0.threads[tid]? = some ⟨req, .act o k⟩
  duty : Dex.duty S req (past tid s0.hist) o
  exec : ∃ ans, Dex.exec S.codec req.inst o ans s0.world = some (r, w')

theorem Reach.made (h : Reach Init s) {tid req o r pre w' l1 l2} (hs : s.hist = l1 ++ .act tid req o r pre w' :: l2) :
    ∃ s0, Made Init s tid req o r s0 w' ∧ s0.world = pre ∧ s0.hist = l2 := by
  have hth := h.thread_of_mem (hs ▸ mem_append_right _ mem_cons_self)
  obtain ⟨s0, k, ans, hr, rfl, rfl, hth0, hx⟩ := h.split_act hs
  exact ⟨s0, ⟨hr, ⟨l1, hs⟩, hth, ⟨k, hth0⟩, Reach.duty hr hth0, ans, hx⟩, rfl, rfl⟩

theorem Reach.did_made (h : Reach Init s) (hd : did (past tid s.hist) o r) :
    ∃ req s0 w', Made Init s tid req o r s0 w' := by
  obtain ⟨req, pre, w', he⟩ := mem_past.mp hd
  obtain ⟨l1, l2, hs⟩ := append_of_mem he
  obtain ⟨s0, hm, _⟩ := Reach.made h hs
  exact ⟨req, s0, w', hm⟩

theorem Reach.did_order (h : Reach Init s) {o1 o2 r1 r2}
    (h1 : did (past tid s.hist) o1 r1) (h2 : did (past tid s.hist) o2 r2) : (⟨o1, r1⟩ : Ev sig) = ⟨o2, r2⟩ ∨
    (∃ req s0 w', Made Init s tid req o2 r2 s0 w' ∧ did (past tid s0.hist) o1 r1) ∨
    ∃ req s0 w', Made Init s tid req o1 r1 s0 w' ∧ did (past tid s0.hist) o2 r2 := by
  obtain ⟨_, _, _, he1⟩ := mem_past.mp h1
  obtain ⟨_, _, _, he2⟩ := mem_past.mp h2
  rcases mem_order he1 he2 with heq | ⟨_, _, hs, hm⟩ | ⟨_, _, hs, hm⟩
  · cases heq
    exact .inl rfl
  · obtain ⟨s0, hmade, _, rfl⟩ := Reach.made h hs
    exact .inr (.inl ⟨_, s0, _, hmade, mem_past.mpr ⟨_, _, _, hm⟩⟩)
  · obtain ⟨s0, hmade, _, rfl⟩ := Reach.made h hs
    exact .inr (.inr ⟨_, s0, _, hmade, mem_past.mpr ⟨_, _, _, hm⟩⟩)

namespace Made
variable {s0 : Sys (dex S)} {w' : World} (h : Made Init s tid req o r s0 w')
include h

theorem effect : Effect req.inst s0.world ⟨o, r⟩ w' :=
  have ⟨_, hx⟩ := h.exec
  exec_effect hx

theorem mem : (.act tid req o r s0.world w' : Step S) ∈ s.hist := by
  obtain ⟨l, hl⟩ := h.hist
  exact hl ▸ mem_append_right _ mem_cons_self

theorem req_eq {req' p} (hth : s.threads[tid]? = some ⟨req', p⟩) : req = req' := by
  obtain ⟨p', hp⟩ := h.thread
  rw [hth] at hp
  cases hp
  rfl

theorem sublist : (past tid s0.hist).Sublist (past tid s.hist) := by
  obtain ⟨l, hl⟩ := h.hist
  exact past_sublist_of_eq hl

end Made

theorem Reach.effect (h : Reach Init s) {t q o r pre post}
    (he : (.act t q o r pre post : Step S) ∈ s.hist) : Effect q.inst pre ⟨o, r⟩ post := by
  obtain ⟨l1, l2, hs⟩ := append_of_mem he
  obtain ⟨_, hm, rfl, _⟩ := Reach.made h hs
  exact hm.effect

def tokenRequest (s : Sys (dex S)) (tid : Nat) : Option TokenRequest :=
  match s.threads[tid]? with
  | some ⟨⟨_, .token r⟩, _⟩ => some r
  | _ => none

theorem thread_of_tokenRequest {r} (h : tokenRequest s tid = some r) :
    ∃ inst prog, s.threads[tid]? = some ⟨⟨inst, .token r⟩, prog⟩ := by
  unfold tokenRequest at h
  split at h
  · rename_i hth
    cases h
    exact ⟨_, _, hth⟩
  · cases h

def finished (s : Sys (dex S)) (tid : Nat) : Bool := s.threads[tid]?.any (·.prog.done)

theorem ret_of_finished {p} (hth : s.threads[tid]? = some ⟨req, p⟩)
    (h : finished s tid = true) : p = .ret () := by
  rw [finished, hth] at h
  cases p with
  | ret _ => rfl
  | act _ _ => cases h

theorem Reach.invariant {C} {I : World → List (Step S) → Prop} (hinit : ∀ w, Init w → I w [])
    (hstart : ∀ w hist tid req, I w hist → I w (.start tid req :: hist))
    (hact : ∀ s tid req o k ans r w', Reach Init s →
      Along C (.act tid req o r s.world w' :: s.hist) → I s.world s.hist →
      s.threads[tid]? = some ⟨req, .act o k⟩ → exec S.codec req.inst o ans s.world = some (r, w') →
      I w' (.act tid req o r s.world w' :: s.hist))
    (hmove : ∀ s m w' clients connectors, Reach Init s → I s.world s.hist → move m s.world = some w' →
      w'.store = { s.world.store with clients, connectors } → w'.ids = s.world.ids →
      s.world.clock ≤ w'.clock → w'.insts = s.world.insts → I w' (.move m s.world w' :: s.hist))
    (h : Reach Init s) (hC : Along C s.hist) : I s.world s.hist := by
  refine Conc.Reach.induct (C := C) (I := fun s => I s.world s.hist) hinit ?_ ?_ ?_ h hC
  · intro s req _ _ ih
    exact hstart _ _ _ _ ih
  · intro s tid req o k ans r w hr hC ih hth hx
    exact hact s tid req o k ans r w hr hC ih hth hx
  · intro s m w hr _ ih hm
    obtain ⟨clients, connectors, h1, h2, h3, h4⟩ := move_store hm
    exact hmove s m w clients connectors hr ih hm h1 h2 h3 h4

theorem Reach.stored {P : World → Prop} (hinit : ∀ w, Init w → P w)
    (hact : ∀ (s : Sys (dex S)) (tid : Nat) (req : Request) (o : Op) (k : Res o → Handler Unit)
      (ans : Ans) (r : Res o) (w' : World), Reach Init s → P s.world →
      s.threads[tid]? = some ⟨req, .act o k⟩ → exec S.codec req.inst o ans s.world = some (r, w') → P w')
    (hmove : ∀ m w w', P w → move m w = some w' → P w') (h : Reach Init s) : P s.world := by
  refine Conc.Reach.induct' (I := fun s : Sys (dex S) => P s.world) hinit ?_ ?_ ?_ h
  · intro s req _ ih
    exact ih
  · intro s tid req o k ans r w' hr ih hth hx
    exact hact s tid req o k ans r w' hr ih hth hx
  · intro s m w' _ ih hm
    exact hmove m s.world w' ih hm

end

/-! ## An installation to run

One client, a password connector `a` and an OpenID Connect connector `b`. -/

def app : Client := ⟨"app", "secret", ["http://app/cb"], [], false, "App", ""⟩

def demo : Setup where
  config _ := {
    issuerURL := "http://dex"
    idTokensValidFor := 100
    authRequestsValidFor := 1000
    rotationFrequency := 50
    idTokenValidFor := 100 }
  codec := codec

def demoKeys : Keys :=
  ⟨some (newSigningKey 0 "k"), some (newSigningKeyPub 0 "k"), [], 50⟩

/-- Both the storage and the caches of the servers hold the first keys. -/
def demoWorld : World where
  store := {
    clients := (∅ : Table String Client).insert app.id app
    connectors := ((∅ : Table String StorageConnector).insert "a" ⟨"a", "ldap", "A", "1", []⟩).insert
      "b" ⟨"b", "oidc", "B", "1", []⟩
    keys := demoKeys }
  clock := 0
  ids := []
  insts _ := { keys := some demoKeys }

theorem demo_blank : Blank demoWorld where
  clients id c hc := by
    rcases Table.lookup_insert_iff.mp hc with ⟨rfl, rfl⟩ | ⟨_, hc⟩
    · rfl
    · cases hc
  authReqs _ _ h := by cases h
  authCodes _ _ h := by cases h
  refreshTokens _ _ h := by cases h
  sessions _ _ _ h := by cases h
  refs := {
    token := fun _ _ h => by cases h
    ref := fun _ _ h => by cases h }
  noAuthReqs := rfl
  noAuthCodes := rfl
  noRefreshTokens := rfl

/-- A thread goes on, with these answers from outside to its calls. -/
def going {S : Setup} (tid : Nat) (answers : List Ans) : List (Label (dex S)) :=
  answers.map (Label.act tid)

/-- A request arrives at a server and its thread makes its first calls. -/
def serving {S : Setup} (tid : Nat) (kind : Kind) (answers : List Ans) : List (Label (dex S)) :=
  .start ⟨0, kind⟩ :: going tid answers

def plains (n : Nat) : List Ans := replicate n .plain

/-- An authorization request that becomes the auth request `id`. -/
def authorize {S : Setup} (tid : Nat) (id scope prompt : String) : List (Label (dex S)) :=
  serving tid (.authorization {
    redirectURI := "http://app/cb", clientID := "app", scope, responseType := "code",
    approvalPrompt := prompt }) (.plain :: .text id :: plains 5)

def alice : Identity := ⟨"1", "alice", "alice@a", true, [], []⟩

/-- Alice logs in with the password connector, which is opened if it was not. -/
def loginA {S : Setup} (tid : Nat) (id : String) (impl : List ConnectorImpl) : List (Label (dex S)) :=
  serving tid (.connectorLogin ⟨"a", .post, id, "alice", "pw"⟩)
    (plains 2 ++ impl.flatMap (fun i => [.opened i, .plain]) ++ plains 3 ++
      .identity (some alice) :: plains 2)

/-- The approval that turns a request into the code `code`. -/
def approve {S : Setup} (tid : Nat) (id code : String) : List (Label (dex S)) :=
  serving tid (.approval ⟨.post, id, "approve"⟩)
    (plains 3 ++ .text (code ++ "-at") :: .text code :: plains 3)

/-- Request, login and approval of alice, up to the code. -/
def obtainCode {S : Setup} (tid : Nat) (code scope : String) (impl : List ConnectorImpl) : List (Label (dex S)) :=
  let id := code ++ "-req"
  authorize tid id scope "" ++ loginA (tid + 1) id impl ++ approve (tid + 2) id code

def codeRequest (code : String) : TokenRequest where
  clientID := "app"
  clientSecret := "secret"
  grantType := grantTypeAuthorizationCode
  code := code
  redirectURI := "http://app/cb"

def exchangeCode (tid : Nat) (code accessToken : String) : List (Label (dex demo)) :=
  serving tid (.token (codeRequest code)) (plains 3 ++ .text accessToken :: plains 8)

/-- The exchange goes on up to the stored refresh token. -/
def storeRefresh (tid : Nat) (id token : String) : List (Label (dex demo)) :=
  going tid (plains 3 ++ .text id :: .text token :: plains 4)

def refreshRequest (id token : String) : TokenRequest where
  clientID := "app"
  clientSecret := "secret"
  grantType := grantTypeRefreshToken
  refreshToken := (codec.marshal id token).getD ""

/-- The refresh request, up to the new token it wants to store. -/
def refreshing (tid : Nat) (id token accessToken newToken : String) : List (Label (dex demo)) :=
  serving tid (.token (refreshRequest id token))
    (plains 4 ++ .identity (some alice) :: .text accessToken :: plains 8 ++ [.text newToken, .plain])

/-- Alice's connector can refresh her identity. -/
def offlineA : List ConnectorImpl := [{ password := true, refresh := true }]

/-- Alice has the refresh token (`x`, `x1`). -/
def obtainRefresh : List (Label (dex demo)) :=
  obtainCode 0 "c" "openid offline_access" offlineA ++ exchangeCode 3 "c" "at" ++
  storeRefresh 3 "x" "x1" ++ going 3 (plains 5)

/-- An administrator revokes what alice gave the client. -/
def revoking (tid : Nat) (answers : List Ans) : List (Label (dex demo)) :=
  serving tid (.revokeRefresh ⟨(codec.marshal "1" "a").getD "", "app"⟩) answers

theorem split_at {α β : Type} {l} {f : α → Option β} {n b}
    (h : l[n]?.bind f = some b) : ∃ e, l = l.take n ++ e :: l.drop (n + 1) ∧ f e = some b := by
  obtain ⟨e, he, hf⟩ := Option.bind_eq_some_iff.mp h
  obtain ⟨hn, rfl⟩ := List.getElem?_eq_some_iff.mp he
  exact ⟨_, by rw [← drop_eq_getElem_cons hn, take_append_drop], hf⟩

end KubeYamls.Dex
