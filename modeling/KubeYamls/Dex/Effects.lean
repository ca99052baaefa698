import KubeYamls.Dex.Calls
import Mathlib.Data.Fintype.EquivFin

/-! # What a call can do to the world

`exec` inverted once: `Effect` lists the calls that change something, each with
the state it found and the state it left. All that the invariants use of the
memory storage comes from here. -/
namespace KubeYamls.Dex
open Data Conc Table

/-- Replies after which the world may differ. -/
def commits : (o : Op) → Res o → Bool
  | .createAuthRequest _, .ok _ | .updateAuthRequest _ _, .ok _ | .deleteAuthRequest _, .ok _
  | .createAuthCode _, .ok _ | .deleteAuthCode _, .ok _
  | .createRefresh _, .ok _ | .updateRefreshToken _ _, .ok _ | .deleteRefresh _, .ok _
  | .createOfflineSessions _, .ok _ | .updateOfflineSessions _ _ _, .ok _
  | .updateKeys _, _ | .garbageCollect _, .ok _
  | .storeKeys _, _ | .storeConnector _ _, _ | .newID, _ => true
  | _, _ => false

/-- The effect of a call by a thread of instance `inst` in world `w`. -/
inductive Effect (inst : Nat) (w : World) : Ev sig → World → Prop where
  | none {o : Op} {r : Res o} (h : commits o r = false) : Effect inst w ⟨o, r⟩ w
  | createAuthRequest {a : AuthRequest} (h : w.store.authReqs.lookup a.id = .none) :
    Effect inst w ⟨.createAuthRequest a, .ok ()⟩
      { w with store := { w.store with authReqs := w.store.authReqs.insert a.id a } }
  | updateAuthRequest {id : String} {f : AuthRequest → Outcome AuthRequest} {old new : AuthRequest}
    (h : w.store.authReqs.lookup id = some old) (hf : f old = .ok new) :
    Effect inst w ⟨.updateAuthRequest id f, .ok old⟩
      { w with store := { w.store with authReqs := w.store.authReqs.insert id new } }
  | deleteAuthRequest {id : String} {a : AuthRequest} (h : w.store.authReqs.lookup id = some a) :
    Effect inst w ⟨.deleteAuthRequest id, .ok ()⟩
      { w with store := { w.store with authReqs := w.store.authReqs.erase id } }
  | createAuthCode {c : AuthCode} (h : w.store.authCodes.lookup c.id = .none) :
    Effect inst w ⟨.createAuthCode c, .ok ()⟩
      { w with store := { w.store with authCodes := w.store.authCodes.insert c.id c } }
  | deleteAuthCode {id : String} {c : AuthCode} (h : w.store.authCodes.lookup id = some c) :
    Effect inst w ⟨.deleteAuthCode id, .ok ()⟩
      { w with store := { w.store with authCodes := w.store.authCodes.erase id } }
  | createRefresh {x : RefreshToken} (h : w.store.refreshTokens.lookup x.id = .none) :
    Effect inst w ⟨.createRefresh x, .ok ()⟩
      { w with store := { w.store with refreshTokens := w.store.refreshTokens.insert x.id x } }
  | updateRefreshToken {id : String} {f : RefreshToken → Outcome RefreshToken} {old new : RefreshToken}
    (h : w.store.refreshTokens.lookup id = some old) (hf : f old = .ok new) :
    Effect inst w ⟨.updateRefreshToken id f, .ok old⟩
      { w with store := { w.store with refreshTokens := w.store.refreshTokens.insert id new } }
  | deleteRefresh {id : String} {x : RefreshToken} (h : w.store.refreshTokens.lookup id = some x) :
    Effect inst w ⟨.deleteRefresh id, .ok ()⟩
      { w with store := { w.store with refreshTokens := w.store.refreshTokens.erase id } }
  | createOfflineSessions {s : OfflineSessions}
    (h : w.store.offlineSessions.lookup (s.userID, s.connID) = .none) :
    Effect inst w ⟨.createOfflineSessions s, .ok ()⟩
      { w with store := { w.store with
        offlineSessions := w.store.offlineSessions.insert (s.userID, s.connID) s } }
  | updateOfflineSessions {u c : String} {f : OfflineSessions → Outcome OfflineSessions}
    {old new : OfflineSessions}
    (h : w.store.offlineSessions.lookup (u, c) = some old) (hf : f old = .ok new) :
    Effect inst w ⟨.updateOfflineSessions u c f, .ok old⟩
      { w with store := { w.store with
        offlineSessions := w.store.offlineSessions.insert (u, c) new } }
  | updateKeys {f : Time → Time → Keys → Outcome Keys} {d : Nat} {new : Keys}
    (hf : f w.clock (w.clock + d) w.store.keys = .ok new) :
    Effect inst w ⟨.updateKeys f, .ok w.store.keys⟩
      { w with clock := w.clock + d, store := { w.store with keys := new } }
  | keepKeys {f : Time → Time → Keys → Outcome Keys} {d : Nat} {r : Outcome Keys}
    (h : ∀ k, r ≠ .ok k) : Effect inst w ⟨.updateKeys f, r⟩ { w with clock := w.clock + d }
  | garbageCollect {t : Time} {r : GCResult} :
    Effect inst w ⟨.garbageCollect t, .ok r⟩ { w with store := (Dex.garbageCollect t w.store).2 }
  | storeKeys {k : Keys} :
    Effect inst w ⟨.storeKeys k, ()⟩ (setInstance inst (fun i => { i with keys := some k }) w)
  | storeConnector {id : String} {c : Connector} :
    Effect inst w ⟨.storeConnector id c, ()⟩
      (setInstance inst (fun i => { i with connectors := i.connectors.insert id c }) w)
  | newID {s : String} (h : s ≠ "" ∧ s ∉ w.ids) :
    Effect inst w ⟨.newID, s⟩ { w with ids := s :: w.ids }

variable {id : String}

section
variable {codec : Codec} {inst : Nat} {ans : Ans} {w w' : World} {K V : Type} [DecidableEq K]

theorem storage_get {α : Type} {f : MemStorage → α} {err r}
    (h : storage err (fun s => (f s, s)) ans w = some (r, w')) : (r = err ∨ r = f w.store) ∧ w' = w := by
  rcases storage_cases h with ⟨hr, rfl⟩ | ⟨hr, rfl⟩
  · exact ⟨.inl hr, rfl⟩
  · exact ⟨.inr hr, rfl⟩

/-- A table of the storage: how it is read, and how it is put back. -/
structure Part (K V : Type) where
  get : MemStorage → Table K V
  put : MemStorage → Table K V → MemStorage
  put_get : ∀ s, put s (get s) = s

namespace Part

abbrev authReqs : Part String AuthRequest :=
  ⟨fun s => s.authReqs, fun s t => { s with authReqs := t }, fun _ => rfl⟩

abbrev authCodes : Part String AuthCode :=
  ⟨fun s => s.authCodes, fun s t => { s with authCodes := t }, fun _ => rfl⟩

abbrev refreshTokens : Part String RefreshToken :=
  ⟨fun s => s.refreshTokens, fun s t => { s with refreshTokens := t }, fun _ => rfl⟩

abbrev offlineSessions : Part (String × String) OfflineSessions :=
  ⟨fun s => s.offlineSessions, fun s t => { s with offlineSessions := t }, fun _ => rfl⟩

abbrev method {α : Type} (T : Part K V) (f : Table K V → α × Table K V) (s : MemStorage) :
    α × MemStorage := ((f (T.get s)).1, T.put s (f (T.get s)).2)

abbrev set (T : Part K V) (w : World) (t : Table K V) : World :=
  { w with store := T.put w.store t }

end Part

variable (T : Part K V) {k : K} {v : V}

omit [DecidableEq K] in
theorem storage_method {α : Type} {f} {err r : α} (h : storage err (T.method f) ans w = some (r, w')) :
    (r = err ∧ w' = w) ∨ ∃ t, f (T.get w.store) = (r, t) ∧ w' = T.set w t := by
  rcases storage_cases h with hr | ⟨rfl, rfl⟩
  · exact .inl hr
  · exact .inr ⟨_, rfl, rfl⟩

theorem storage_create {r} (h : storage (.error failure) (T.method (create k v)) ans w = some (r, w')) :
    (r = .ok () ∧ (T.get w.store).lookup k = none ∧ w' = T.set w ((T.get w.store).insert k v)) ∨
    ((r = .error failure ∨
      (r = .error .alreadyExists ∧ ∃ old, (T.get w.store).lookup k = some old)) ∧ w' = w) := by
  rcases storage_method T h with ⟨rfl, rfl⟩ | ⟨t, hc, rfl⟩
  · exact .inr ⟨.inl rfl, rfl⟩
  · rcases create_cases hc with ⟨rfl, hk, rfl⟩ | ⟨rfl, hk, rfl⟩
    · exact .inl ⟨rfl, hk, rfl⟩
    · exact .inr ⟨.inr ⟨rfl, hk⟩, by rw [Part.set, T.put_get]⟩

theorem storage_delete {r} (h : storage (.error failure) (T.method (delete k)) ans w = some (r, w')) :
    (∃ v, r = .ok () ∧ (T.get w.store).lookup k = some v ∧ w' = T.set w ((T.get w.store).erase k)) ∨
    ((r = .error failure ∨ (r = .error .notFound ∧ (T.get w.store).lookup k = none)) ∧ w' = w) := by
  rcases storage_method T h with ⟨rfl, rfl⟩ | ⟨t, hc, rfl⟩
  · exact .inr ⟨.inl rfl, rfl⟩
  · rcases delete_cases hc with ⟨v, rfl, hk, rfl⟩ | ⟨rfl, hk, rfl⟩
    · exact .inl ⟨v, rfl, hk, rfl⟩
    · exact .inr ⟨.inr ⟨rfl, hk⟩, by rw [Part.set, T.put_get]⟩

theorem storage_update {f} {r : Outcome V}
    (h : storage (.error failure) (T.method (update k f)) ans w = some (r, w')) :
    (∃ old new, r = .ok old ∧ (T.get w.store).lookup k = some old ∧ f old = .ok new ∧
      w' = T.set w ((T.get w.store).insert k new)) ∨
    ((r = .error failure ∨ (r = .error .notFound ∧ (T.get w.store).lookup k = none) ∨
      ∃ old, (T.get w.store).lookup k = some old ∧
        ((∃ e, r = .error e ∧ f old = .error e) ∨ (r = .panic ∧ f old = .panic))) ∧ w' = w) := by
  rcases storage_method T h with ⟨rfl, rfl⟩ | ⟨t, hc, rfl⟩
  · exact .inr ⟨.inl rfl, rfl⟩
  · rcases update_cases hc with ⟨old, new, rfl, hk, hf, rfl⟩ | ⟨rfl, hr⟩
    · exact .inl ⟨old, new, rfl, hk, hf, rfl⟩
    · exact .inr ⟨.inr hr, by rw [Part.set, T.put_get]⟩

private theorem effect_error {o r} (h : commits o r = false) (hw : w' = w) :
    Effect inst w ⟨o, r⟩ w' := hw ▸ .none h

section
variable {e : Except Error Unit → Ev sig} {r : Except Error Unit}

private theorem effect_create (h : storage (.error failure) (T.method (create k v)) ans w = some (r, w'))
    (hok : (T.get w.store).lookup k = none → Effect inst w (e (.ok ())) (T.set w ((T.get w.store).insert k v)))
    (herr : ∀ x, Effect inst w (e (.error x)) w) : Effect inst w (e r) w' := by
  rcases storage_create T h with ⟨rfl, hk, rfl⟩ | ⟨rfl | ⟨rfl, _⟩, rfl⟩
  · exact hok hk
  all_goals exact herr _

private theorem effect_delete (h : storage (.error failure) (T.method (delete k)) ans w = some (r, w'))
    (hok : ∀ v, (T.get w.store).lookup k = some v →
      Effect inst w (e (.ok ())) (T.set w ((T.get w.store).erase k)))
    (herr : ∀ x, Effect inst w (e (.error x)) w) : Effect inst w (e r) w' := by
  rcases storage_delete T h with ⟨v, rfl, hk, rfl⟩ | ⟨rfl | ⟨rfl, _⟩, rfl⟩
  · exact hok v hk
  all_goals exact herr _

end

private theorem effect_update {e : Outcome V → Ev sig} {f r}
    (h : storage (.error failure) (T.method (update k f)) ans w = some (r, w'))
    (hok : ∀ old new, (T.get w.store).lookup k = some old → f old = .ok new →
      Effect inst w (e (.ok old)) (T.set w ((T.get w.store).insert k new)))
    (herr : ∀ x, Effect inst w (e (.error x)) w) (hpanic : Effect inst w (e .panic) w) :
    Effect inst w (e r) w' := by
  rcases storage_update T h with ⟨old, new, rfl, hk, hf, rfl⟩ |
    ⟨rfl | ⟨rfl, _⟩ | ⟨_, _, ⟨_, rfl, _⟩ | ⟨rfl, _⟩⟩, rfl⟩
  · exact hok old new hk hf
  · exact herr _
  · exact herr _
  · exact herr _
  · exact hpanic

theorem exec_effect {o : Op} {r} (h : exec codec inst o ans w = some (r, w')) : Effect inst w ⟨o, r⟩ w' := by
  cases o with
  | createAuthRequest a => exact effect_create .authReqs h .createAuthRequest fun _ => .none rfl
  | updateAuthRequest id f =>
    exact effect_update .authReqs h (fun _ _ => .updateAuthRequest) (fun _ => .none rfl) (.none rfl)
  | deleteAuthRequest id =>
    exact effect_delete .authReqs h (fun _ => .deleteAuthRequest) fun _ => .none rfl
  | createAuthCode c => exact effect_create .authCodes h .createAuthCode fun _ => .none rfl
  | deleteAuthCode id =>
    exact effect_delete .authCodes h (fun _ => .deleteAuthCode) fun _ => .none rfl
  | createRefresh x => exact effect_create .refreshTokens h .createRefresh fun _ => .none rfl
  | updateRefreshToken id f =>
    exact effect_update .refreshTokens h (fun _ _ => .updateRefreshToken) (fun _ => .none rfl)
      (.none rfl)
  | deleteRefresh id =>
    exact effect_delete .refreshTokens h (fun _ => .deleteRefresh) fun _ => .none rfl
  | createOfflineSessions o =>
    exact effect_create .offlineSessions h .createOfflineSessions fun _ => .none rfl
  | updateOfflineSessions u c f =>
    exact effect_update .offlineSessions h (fun _ _ => .updateOfflineSessions) (fun _ => .none rfl)
      (.none rfl)
  | updateKeys f =>
    rcases execUpdateKeys_cases h with ⟨d, new, rfl, hf, rfl⟩ | ⟨d, hr, rfl⟩
    · exact .updateKeys hf
    · exact .keepKeys hr
  | garbageCollect t =>
    simp only [exec] at h
    rcases storage_cases h with ⟨rfl, hw⟩ | ⟨rfl, rfl⟩
    · exact effect_error rfl hw
    · exact .garbageCollect
  | storeKeys k => cases here_eq h; exact .storeKeys
  | storeConnector id c => cases here_eq h; exact .storeConnector
  | newID =>
    obtain ⟨hne, hfresh, rfl⟩ := execNewID_cases h
    exact .newID ⟨hne, hfresh⟩
  | getClient | getConnector | listConnectors | getAuthRequest | getAuthCode | getRefresh
  | getOfflineSessions | getKeys =>
    simp only [exec] at h
    exact effect_error rfl (storage_get h).2
  | loadKeys | loadConnector | lenConnectors | now | write | note =>
    simp only [exec] at h
    have hw := here_eq h
    exact effect_error rfl (Prod.mk.inj hw).2
  | newKey | openConnector | loginURL | postData | login | handleCallback | handlePOST
  | refreshIdentity | marshal | signPayload =>
    simp only [exec] at h
    exact effect_error rfl (remote_world h)

/-! ## What a reply says -/

private theorem get_of_storage {t : MemStorage → Table K V}
    (h : storage (.error failure) (fun s => (get k (t s), s)) ans w = some (.ok v, w')) :
    (t w.store).lookup k = some v := by
  rcases (storage_get h).1 with hr | hr
  · cases hr
  · exact get_ok.mp hr.symm

theorem exec_getClient {c : Client} (h : exec codec inst (.getClient id) ans w = some (.ok c, w')) :
    w.store.clients.lookup id = some c :=
  get_of_storage (t := fun s => s.clients) h

theorem exec_getAuthRequest {a : AuthRequest}
    (h : exec codec inst (.getAuthRequest id) ans w = some (.ok a, w')) : w.store.authReqs.lookup id = some a :=
  get_of_storage (t := fun s => s.authReqs) h

theorem exec_getAuthCode {c : AuthCode} (h : exec codec inst (.getAuthCode id) ans w = some (.ok c, w')) :
    w.store.authCodes.lookup id = some c :=
  get_of_storage (t := fun s => s.authCodes) h

theorem exec_getRefresh {x : RefreshToken} (h : exec codec inst (.getRefresh id) ans w = some (.ok x, w')) :
    w.store.refreshTokens.lookup id = some x :=
  get_of_storage (t := fun s => s.refreshTokens) h

theorem exec_getOfflineSessions {u c : String} {s}
    (h : exec codec inst (.getOfflineSessions u c) ans w = some (.ok s, w')) :
    w.store.offlineSessions.lookup (u, c) = some s :=
  get_of_storage (t := fun s => s.offlineSessions) h

theorem exec_updateOfflineSessions_panic {u c f}
    (h : exec codec inst (.updateOfflineSessions u c f) ans w = some (.panic, w')) :
    ∃ old, w.store.offlineSessions.lookup (u, c) = some old ∧ f old = .panic := by
  rcases storage_update .offlineSessions h with
    ⟨_, _, hr, _⟩ | ⟨hr | ⟨hr, _⟩ | ⟨old, hl, ⟨_, hr, _⟩ | ⟨_, hf⟩⟩, _⟩
  · cases hr
  · cases hr
  · cases hr
  · cases hr
  · exact ⟨old, hl, hf⟩

theorem exec_getKeys {k : Keys} (h : exec codec inst .getKeys ans w = some (.ok k, w')) : k = w.store.keys := by
  simp only [exec] at h
  rcases (storage_get h).1 with hr | hr
  · cases hr
  · cases hr; rfl

theorem exec_loadKeys {k} (h : exec codec inst .loadKeys ans w = some (k, w')) : k = (w.insts inst).keys := by
  simp only [exec] at h
  have hk := here_eq h
  exact (Prod.mk.inj hk).1

theorem exec_now {t} (h : exec codec inst .now ans w = some (t, w')) : t = w.clock := by
  simp only [exec] at h
  have ht := here_eq h
  exact (Prod.mk.inj ht).1

theorem exec_marshal {a b c}
    (h : exec codec inst (.marshal a b) ans w = some (.ok c, w')) : codec.marshal a b = some c := by
  simp only [exec, remote] at h
  cases ans with
  | plain =>
    obtain ⟨_, hc, he⟩ := Option.map_eq_some_iff.mp h
    cases he
    exact hc
  | _ => cases h

theorem exec_signPayload {key alg payload t} (h : exec codec inst (.signPayload key alg payload) ans w = some (.ok t, w')) :
    t = ⟨key, alg, payload⟩ := by
  simp only [exec, remote] at h
  cases ans with
  | plain => cases h; rfl
  | _ => cases h

/-- Every call can be answered: it runs, or it fails, and there is always another
string for `NewID`. -/
theorem exec_total (codec : Codec) (inst : Nat) (o : Op) (w : World) :
    ∃ ans r w', exec codec inst o ans w = some (r, w') := by
  cases o with
  | newID =>
    obtain ⟨s, hs⟩ := Infinite.exists_notMem_finset ("" :: w.ids).toFinset
    simp only [List.mem_toFinset, List.mem_cons] at hs
    exact ⟨.text s, s, { w with ids := s :: w.ids }, if_neg hs⟩
  | newKey | openConnector | loginURL | postData | login | handleCallback | handlePOST
  | refreshIdentity | marshal | signPayload | updateKeys => exact ⟨.fail, _, _, rfl⟩
  | _ => exact ⟨.plain, _, _, rfl⟩

end

/-! ## What an effect does to one table -/

def commitsTokens : Ev sig → Bool
  | ⟨.createRefresh _, .ok _⟩ | ⟨.updateRefreshToken _ _, .ok _⟩ | ⟨.deleteRefresh _, .ok _⟩
  | ⟨.createOfflineSessions _, .ok _⟩ | ⟨.updateOfflineSessions _ _ _, .ok _⟩ => true
  | _ => false

namespace Effect
variable {inst : Nat} {w w' : World} {e : Ev sig}

theorem clients (h : Effect inst w e w') : w'.store.clients = w.store.clients := by
  cases h <;> rfl

theorem ids (h : Effect inst w e w') :
    w'.ids = w.ids ∨ ∃ s, e = ⟨.newID, s⟩ ∧ s ∉ w.ids ∧ w'.ids = s :: w.ids := by
  cases h with
  | newID h => exact .inr ⟨_, rfl, h.2, rfl⟩
  | _ => exact .inl rfl

theorem of_newID {s} (h : Effect inst w ⟨.newID, s⟩ w') : s ∉ w.ids ∧ w' = { w with ids := s :: w.ids } := by
  cases h with
  | none h => cases h
  | newID h => exact ⟨h.2, rfl⟩

theorem authReqs (h : Effect inst w e w') {a} (hl : w'.store.authReqs.lookup id = some a) :
    w.store.authReqs.lookup id = some a ∨ (e = ⟨.createAuthRequest a, .ok ()⟩ ∧ id = a.id) ∨
    ∃ f old, e = ⟨.updateAuthRequest id f, .ok old⟩ ∧ w.store.authReqs.lookup id = some old ∧ f old = .ok a := by
  cases h with
  | createAuthRequest _ =>
    rcases lookup_insert_iff.mp hl with ⟨rfl, rfl⟩ | ⟨_, hl⟩
    · exact .inr (.inl ⟨rfl, rfl⟩)
    · exact .inl hl
  | updateAuthRequest ho hf =>
    rcases lookup_insert_iff.mp hl with ⟨rfl, rfl⟩ | ⟨_, hl⟩
    · exact .inr (.inr ⟨_, _, rfl, ho, hf⟩)
    · exact .inl hl
  | deleteAuthRequest _ => exact .inl (lookup_erase_iff.mp hl).2
  | garbageCollect => exact .inl (lookup_sweep_iff.mp hl).1
  | _ => exact .inl hl

theorem authCodes (h : Effect inst w e w') {c} (hl : w'.store.authCodes.lookup id = some c) :
    w.store.authCodes.lookup id = some c ∨ (e = ⟨.createAuthCode c, .ok ()⟩ ∧ id = c.id) := by
  cases h with
  | createAuthCode _ =>
    rcases lookup_insert_iff.mp hl with ⟨rfl, rfl⟩ | ⟨_, hl⟩
    · exact .inr ⟨rfl, rfl⟩
    · exact .inl hl
  | deleteAuthCode _ => exact .inl (lookup_erase_iff.mp hl).2
  | garbageCollect => exact .inl (lookup_sweep_iff.mp hl).1
  | _ => exact .inl hl

theorem of_deleteAuthRequest (h : Effect inst w ⟨.deleteAuthRequest id, .ok ()⟩ w') :
    (∃ a, w.store.authReqs.lookup id = some a) ∧ w'.store.authReqs.lookup id = .none := by
  cases h with
  | none h => cases h
  | deleteAuthRequest h => exact ⟨⟨_, h⟩, AList.lookup_erase _ _⟩

theorem of_deleteAuthCode (h : Effect inst w ⟨.deleteAuthCode id, .ok ()⟩ w') :
    (∃ c, w.store.authCodes.lookup id = some c) ∧ w'.store.authCodes.lookup id = .none := by
  cases h with
  | none h => cases h
  | deleteAuthCode h => exact ⟨⟨_, h⟩, AList.lookup_erase _ _⟩

section
variable (h : Effect inst w e w')
include h

theorem refreshTokens {x}
    (hl : w'.store.refreshTokens.lookup id = some x) : w.store.refreshTokens.lookup id = some x ∨
    (e = ⟨.createRefresh x, .ok ()⟩ ∧ id = x.id) ∨
    ∃ f old, e = ⟨.updateRefreshToken id f, .ok old⟩ ∧ w.store.refreshTokens.lookup id = some old ∧
      f old = .ok x := by
  cases h with
  | createRefresh _ =>
    rcases lookup_insert_iff.mp hl with ⟨rfl, rfl⟩ | ⟨_, hl⟩
    · exact .inr (.inl ⟨rfl, rfl⟩)
    · exact .inl hl
  | updateRefreshToken ho hf =>
    rcases lookup_insert_iff.mp hl with ⟨rfl, rfl⟩ | ⟨_, hl⟩
    · exact .inr (.inr ⟨_, _, rfl, ho, hf⟩)
    · exact .inl hl
  | deleteRefresh _ => exact .inl (lookup_erase_iff.mp hl).2
  | _ => exact .inl hl

theorem sessions {k s} (hl : w'.store.offlineSessions.lookup k = some s) :
    w.store.offlineSessions.lookup k = some s ∨
    (e = ⟨.createOfflineSessions s, .ok ()⟩ ∧ k = (s.userID, s.connID) ∧
      w.store.offlineSessions.lookup k = .none) ∨ ∃ f old, e = ⟨.updateOfflineSessions k.1 k.2 f, .ok old⟩ ∧
      w.store.offlineSessions.lookup k = some old ∧ f old = .ok s := by
  cases h with
  | createOfflineSessions hn =>
    rcases lookup_insert_iff.mp hl with ⟨rfl, rfl⟩ | ⟨_, hl⟩
    · exact .inr (.inl ⟨rfl, rfl, hn⟩)
    · exact .inl hl
  | updateOfflineSessions ho hf =>
    rcases lookup_insert_iff.mp hl with ⟨rfl, rfl⟩ | ⟨_, hl⟩
    · exact .inr (.inr ⟨_, _, rfl, ho, hf⟩)
    · exact .inl hl
  | _ => exact .inl hl

theorem sessions_kept {k s} (hl : w.store.offlineSessions.lookup k = some s) :
    ∃ s', w'.store.offlineSessions.lookup k = some s' := by
  have hins : ∀ k' (s' : OfflineSessions), ∃ s'', (w.store.offlineSessions.insert k' s').lookup k = some s'' := by
    intro k' s'
    by_cases hk : k = k'
    · exact ⟨s', by rw [hk, AList.lookup_insert]⟩
    · exact ⟨s, by rw [AList.lookup_insert_ne hk, hl]⟩
  cases h with
  | createOfflineSessions _ | updateOfflineSessions _ _ => exact hins _ _
  | _ => exact ⟨s, hl⟩

theorem clock : w.clock ≤ w'.clock := by
  cases h with
  | updateKeys _ | keepKeys _ => exact Int.le_add_of_nonneg_right (Int.natCast_nonneg _)
  | _ => exact Int.le_refl _

theorem keys : w'.store.keys = w.store.keys ∨ ∃ f later, e = ⟨.updateKeys f, .ok w.store.keys⟩ ∧
      f w.clock later w.store.keys = .ok w'.store.keys := by
  cases h with
  | updateKeys hf => exact .inr ⟨_, _, rfl, hf⟩
  | _ => exact .inl rfl

theorem cached {i k} (hk : (w'.insts i).keys = some k) : (w.insts i).keys = some k ∨ e = ⟨.storeKeys k, ()⟩ := by
  cases h with
  | storeKeys =>
    by_cases hi : i = inst
    · subst hi
      simp only [setInstance, Function.update_self] at hk
      cases hk
      exact .inr rfl
    · simp only [setInstance, Function.update_of_ne hi] at hk
      exact .inl hk
  | storeConnector =>
    by_cases hi : i = inst
    · subst hi
      simp only [setInstance, Function.update_self] at hk
      exact .inl hk
    · simp only [setInstance, Function.update_of_ne hi] at hk
      exact .inl hk
  | _ => exact .inl hk

theorem tokens_same (hc : commitsTokens e = false) : w'.store.refreshTokens = w.store.refreshTokens ∧
      w'.store.offlineSessions = w.store.offlineSessions := by
  cases h with
  | createRefresh | updateRefreshToken | deleteRefresh | createOfflineSessions
  | updateOfflineSessions => cases hc
  | _ => exact ⟨rfl, rfl⟩

end

end Effect

end KubeYamls.Dex
