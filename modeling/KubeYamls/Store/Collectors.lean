import KubeYamls.Store.Collection

/-! # The collectors of etcd and Kubernetes

Both `GarbageCollect` methods carry out the program of `KubeYamls.Store.Collection`
with one request for each of its calls. A request is answered, or fails before or
after it took effect. The collector of etcd makes the key of an object from the ID in
its value. -/
namespace KubeYamls.Store
open Data Conc Store.Collection Prog List
open Dex (Time Error GCResult)

inductive Fate where
  | answered
  | refused (msg : String)
  | lost (msg : String)

namespace Etcd
variable {S : Sig} (now : Time)

def attempt : (o : Op S) → Fate → Db → Option (Res o × Db)
  | .db q, .answered, db => some (.ok (Db.serve q db).1, (Db.serve q db).2)
  | .db _, .refused msg, db => some (.error (.other msg), db)
  | .db q, .lost msg, db => some (.error (.other msg), (Db.serve q db).2)
  | _, _, _ => none

def expired : (k : Kind) → Doc k → Bool
  | .authRequest, a => decide (now > a.expiry)
  | .authCode, a => decide (now > a.expiry)
  | _, _ => false

def keyOf : (k : Kind) → Doc k → String
  | .authRequest, a => keyID authRequestPrefix a.id
  | .authCode, a => keyID authCodePrefix a.id
  | _, _ => ""

def expiredKeys (k : Kind) (docs : List (Doc k)) : List String := (docs.filter (expired now k)).map (keyOf k)

def backend : Backend Db where
  stored db k key := (db.lookup k key).isSome
  listing db k := ((db.tables k).entries.filter fun e => expired now k e.2.1).map fun e => (e.1, keyOf k e.2.1)

def deleteReply : Except Error Nat → Except Error Unit
  | .error e => .error e
  | .ok deleted => if deleted = 0 then .error .notFound else .ok ()

def requests : (o : Collection.Op) → Conn S (Collection.Res o)
  | .list k => do return (← request (.list k)).map (expiredKeys now k)
  | .delete k key => do return deleteReply (← request (.delete k key))

/-- The calls of the collection among the requests. -/
def view (c : Made (sig S) Db) : Option (Made Collection.sig Db) :=
  match c with
  | ⟨.db (.list k), r, pre, post⟩ => some ⟨.list k, r.map (expiredKeys now k), pre, post⟩
  | ⟨.db (.delete k key), r, pre, post⟩ => some ⟨.delete k key, deleteReply r, pre, post⟩
  | _ => none

theorem deleteKey_eq (k : Kind) (key : String) :
    deleteKey (S := S) k key = request (.delete k key) >>= fun r => pure (deleteReply r) := by
  refine congrArg (act _) (funext fun r => ?_)
  cases r with
  | error e => rfl
  | ok deleted =>
    show (if deleted = 0 then _ else _) = pure (deleteReply (.ok deleted))
    rw [deleteReply]
    split_ifs <;> rfl

theorem deleteKeys_eq (k : Kind) (what : String) (keys : List String) (delErr : Option Error) :
    deleteKeys (S := S) k what keys delErr = (sweep k what keys delErr).subst (requests now) := by
  induction keys generalizing delErr with
  | nil => rfl
  | cons key keys ih =>
    rw [deleteKeys, deleteKey_eq]
    refine congrArg (_ >>= ·) (funext fun r => ?_)
    cases r with
    | error | ok => exact ih _

theorem garbageCollect_eq : garbageCollect (S := S) now = collect.subst (requests now) := by
  refine congrArg (act _) (funext fun r => ?_)
  cases r with
  | error e => rfl
  | ok authRequests =>
    have hrequests : (expiredKeys now .authRequest authRequests).length =
        (authRequests.filter fun a => decide (now > a.expiry)).length := length_map _
    show _ = (sweep .authRequest "auth request" (expiredKeys now .authRequest authRequests) none >>= _).subst _
    rw [subst_bind, ← deleteKeys_eq]
    refine congrArg (_ >>= ·) (funext fun delErr => ?_)
    rw [hrequests]
    cases delErr with
    | some e => rfl
    | none =>
      refine congrArg (act _) (funext fun r => ?_)
      cases r with
      | error e => rfl
      | ok authCodes =>
        have hcodes : (expiredKeys now .authCode authCodes).length =
            (authCodes.filter fun a => decide (now > a.expiry)).length := length_map _
        show _ = (sweep .authCode "auth code" (expiredKeys now .authCode authCodes) none >>= _).subst _
        rw [subst_bind, ← deleteKeys_eq, hcodes]
        rfl

section
variable {now}

theorem serve_shrinks (k : Kind) (key : String) (db : Db) :
    (backend now).Shrinks db (Db.serve (.delete k key) db).2 := by
  intro k' key' h
  cases hl : db.lookup k key with
  | none => rwa [Db.serve_delete_none hl] at h
  | some kv =>
    rw [Db.serve_delete hl] at h
    by_cases heq : (k', key') = (k, key)
    · cases heq
      simp [backend] at h
    · simpa [backend, Versioned.lookup_remove_ne heq] using h

theorem step_requests {env} (o : Collection.Op) {db db'} {tr : List (Made (sig S) Db)} {r}
    (h : (requests now o).Amid (stepOf attempt) (Relation.ReflTransGen env) db tr r db') :
    ∃ pre post, Relation.ReflTransGen env db pre ∧ (backend now).Step o r pre post ∧
      Relation.ReflTransGen env post db' ∧ tr.filterMap (view now) = [⟨o, r, pre, post⟩] := by
  cases o with
  | list k =>
    obtain ⟨reply, pre, post, hpre, ⟨fate, hx⟩, hpost, rfl, rfl⟩ := h.map_inv
    refine ⟨pre, post, hpre, ?_, hpost, rfl⟩
    cases fate with
    | answered =>
      cases hx
      have hkeys : expiredKeys now k (Db.serve (.list k) pre).1 = ((backend now).listing pre k).map Prod.snd := by
        simp [Db.serve, expiredKeys, backend, filter_map, Function.comp_def]
      show (backend now).Step (.list k) (.ok (expiredKeys now k (Db.serve (.list k) pre).1)) pre pre
      rw [hkeys]
      exact .listed k pre
    | refused msg =>
      cases hx
      exact .unlisted k _ _
    | lost msg =>
      cases hx
      exact .unlisted k _ _
  | delete k key =>
    obtain ⟨reply, pre, post, hpre, ⟨fate, hx⟩, hpost, rfl, rfl⟩ := h.map_inv
    refine ⟨pre, post, hpre, ?_, hpost, rfl⟩
    cases fate with
    | answered =>
      cases hx
      cases hl : pre.lookup k key with
      | none =>
        rw [Db.serve_delete_none hl]
        exact .missing (by simp [backend, hl])
      | some kv =>
        have hs : (backend now).Shrinks pre (Db.serve (.delete k key) pre).2 := serve_shrinks k key pre
        rw [Db.serve_delete hl] at hs ⊢
        exact .deleted (by simp [backend, hl]) (by simp [backend]) hs
    | refused msg =>
      cases hx
      exact .failed (by simp) fun _ _ h => h
    | lost msg =>
      cases hx
      exact .failed (by simp) (serve_shrinks k key pre)

theorem amid_garbageCollect {env db db'} {tr : List (Made (sig S) Db)} {result}
    (h : (garbageCollect now).Amid (stepOf attempt) (Relation.ReflTransGen env) db tr result db') :
    collect.Amid (backend now).Step (Relation.ReflTransGen env) db (tr.filterMap (view now)) result db' := by
  rw [garbageCollect_eq] at h
  exact h.of_subst (fun _ => .refl) .trans fun o _ _ _ _ h => step_requests o h

end

end Etcd

namespace Kubernetes
variable {S : Sig} (now : Time)

def attempt : (o : Op S) → Fate → Api → Option (Res o × Api)
  | .api q, .answered, a => some (a.serve q)
  | .api _, .refused msg, a => some (.error (.other msg), a)
  | .api q, .lost msg, a => some (.error (.other msg), (a.serve q).2)
  | _, _, _ => none

def expired : (k : Kind) → Doc k → Bool
  | .authRequest, a => decide (now > a.expiry)
  | .authCode, a => decide (now > a.expiry)
  | _, _ => false

def expiredNames (k : Kind) (docs : List (Doc k)) : List String :=
  (docs.filter (expired now k)).map fun d => (objectMeta k d).name

def backend : Backend Api where
  stored a k name := (a.store.lookup k name).isSome
  listing a k := ((a.store.tables k).entries.filter fun e => expired now k (Api.stamp k e.2)).map fun e =>
    (e.1, (objectMeta k (Api.stamp k e.2)).name)

def listError (k : Kind) (e : Error) : Error :=
  match k with
  | .authRequest => .other ("failed to list auth requests: " ++ e.text)
  | .authCode => .other ("failed to list auth codes: " ++ e.text)
  | _ => e

def listReply (k : Kind) : Except Error (List (Doc k)) → Except Error (List String)
  | .error e => .error (listError k e)
  | .ok docs => .ok (expiredNames now k docs)

def requests : (o : Collection.Op) → Conn S (Collection.Res o)
  | .list k => do return listReply now k (← request (.list k))
  | .delete k name => do return (← request (.delete k name))

def view (c : Made (sig S) Api) : Option (Made Collection.sig Api) :=
  match c with
  | ⟨.api (.list k), r, pre, post⟩ => some ⟨.list k, listReply now k r, pre, post⟩
  | ⟨.api (.delete k name), r, pre, post⟩ => some ⟨.delete k name, r, pre, post⟩
  | _ => none

theorem deleteNames_eq (k : Kind) (what : String) (names : List String) (delErr : Option Error) :
    deleteNames (S := S) k what names delErr = (sweep k what names delErr).subst (requests now) := by
  induction names generalizing delErr with
  | nil => rfl
  | cons name names ih =>
    refine congrArg (act _) (funext fun r => ?_)
    cases r with
    | error | ok => exact ih _

theorem garbageCollect_eq : garbageCollect (S := S) now = collect.subst (requests now) := by
  refine congrArg (act _) (funext fun r => ?_)
  cases r with
  | error e => rfl
  | ok authRequests =>
    have hrequests : (expiredNames now .authRequest authRequests).length =
        (authRequests.filter fun a => decide (now > a.expiry)).length := length_map _
    show _ = (sweep .authRequest "auth request" (expiredNames now .authRequest authRequests) none >>= _).subst _
    rw [subst_bind, ← deleteNames_eq]
    refine congrArg (_ >>= ·) (funext fun delErr => ?_)
    rw [hrequests]
    cases delErr with
    | some e => rfl
    | none =>
      refine congrArg (act _) (funext fun r => ?_)
      cases r with
      | error e => rfl
      | ok authCodes =>
        have hcodes : (expiredNames now .authCode authCodes).length =
            (authCodes.filter fun a => decide (now > a.expiry)).length := length_map _
        show _ = (sweep .authCode "auth code" (expiredNames now .authCode authCodes) none >>= _).subst _
        rw [subst_bind, ← deleteNames_eq, hcodes]
        rfl

section
variable {now}

theorem serve_shrinks (k : Kind) (name : String) (a : Api) :
    (backend now).Shrinks a (a.serve (.delete k name)).2 := by
  intro k' name' h
  rcases Api.serve_delete (a := a) (k := k) name with ⟨old, hold, hserve⟩ | hserve
  · rw [hserve] at h
    by_cases heq : (k', name') = (k, name)
    · cases heq
      simp [backend, hold]
    · simpa [backend, Api.remove, Versioned.lookup_remove_ne heq] using h
  · rwa [hserve] at h

theorem step_requests {env} (o : Collection.Op) {a a'} {tr : List (Made (sig S) Api)} {r}
    (h : (requests now o).Amid (stepOf attempt) (Relation.ReflTransGen env) a tr r a') :
    ∃ pre post, Relation.ReflTransGen env a pre ∧ (backend now).Step o r pre post ∧
      Relation.ReflTransGen env post a' ∧ tr.filterMap (view now) = [⟨o, r, pre, post⟩] := by
  cases o with
  | list k =>
    obtain ⟨reply, pre, post, hpre, ⟨fate, hx⟩, hpost, rfl, rfl⟩ := h.map_inv
    refine ⟨pre, post, hpre, ?_, hpost, rfl⟩
    cases fate with
    | answered =>
      cases hx
      have hnames : expiredNames now k ((pre.store.tables k).entries.map fun e => Api.stamp k e.2) =
          ((backend now).listing pre k).map Prod.snd := by
        simp [expiredNames, backend, filter_map, Function.comp_def]
      show (backend now).Step (.list k)
        (.ok (expiredNames now k ((pre.store.tables k).entries.map fun e => Api.stamp k e.2))) pre pre
      rw [hnames]
      exact .listed k pre
    | refused msg =>
      cases hx
      exact .unlisted k _ _
    | lost msg =>
      cases hx
      exact .unlisted k _ _
  | delete k name =>
    obtain ⟨reply, pre, post, hpre, ⟨fate, hx⟩, hpost, rfl, rfl⟩ := h.map_inv
    refine ⟨pre, post, hpre, ?_, hpost, rfl⟩
    have hs : (backend now).Shrinks pre (pre.serve (.delete k name)).2 := serve_shrinks k name pre
    cases fate with
    | answered =>
      have hserve : pre.serve (.delete k name) = _ := Option.some.inj hx
      rcases Api.serve_delete (a := pre) (k := k) name with ⟨old, hold, heq⟩ | heq
      · rw [heq] at hs
        cases hserve.symm.trans heq
        exact .deleted (by simp [backend, hold]) (by simp [backend, Api.remove]) hs
      · cases hserve.symm.trans heq
        cases hl : pre.store.lookup k name with
        | none => exact .missing (by simp [backend, hl])
        | some old => simp [Api.serve, hl] at heq
    | refused msg =>
      cases hx
      exact .failed (by simp) fun _ _ h => h
    | lost msg =>
      cases hx
      exact .failed (by simp) hs

theorem amid_garbageCollect {env a a'} {tr : List (Made (sig S) Api)} {result}
    (h : (garbageCollect now).Amid (stepOf attempt) (Relation.ReflTransGen env) a tr result a') :
    collect.Amid (backend now).Step (Relation.ReflTransGen env) a (tr.filterMap (view now)) result a' := by
  rw [garbageCollect_eq] at h
  exact h.of_subst (fun _ => .refl) .trans fun o _ _ _ _ h => step_requests o h

theorem ownKeys (tr : List (Made Collection.sig Api)) : OwnKeys (backend now) tr := by
  intro c _ k _ _ obj hobj
  obtain ⟨e, he, rfl⟩ := mem_map.mp hobj
  have hlookup : c.pre.store.lookup k e.1 = some e.2 :=
    AList.mem_lookup_iff.mpr (mem_filter.mp he).1
  rw [Api.stamp_name]
  exact (c.pre.named k e.1 e.2.1 e.2.2 hlookup).symm

end

end Kubernetes

/-! ## When the collectors complete -/

/-- Among instances that do not create again what was listed, a collection counts its own
deletions, goes on and leaves nothing exactly if each of its deletions finds the object
and takes effect. In etcd the objects must also be stored under the keys of their IDs. -/
theorem collections_complete_iff (S : Sig) (now : Time) : (∀ (env : Etcd.Db → Etcd.Db → Prop) db tr result db',
      (Etcd.garbageCollect (S := S) now).Amid (stepOf Etcd.attempt) (Relation.ReflTransGen env) db tr result db' →
      NoReturn (Etcd.backend now) env (tr.filterMap (Etcd.view now)) →
      OwnKeys (Etcd.backend now) (tr.filterMap (Etcd.view now)) →
      (Completes (Etcd.backend now) (tr.filterMap (Etcd.view now)) result.1 db' ↔
        EachRemoves (Etcd.backend now) (tr.filterMap (Etcd.view now)))) ∧
    (∀ (env : Kubernetes.Api → Kubernetes.Api → Prop) a tr result a',
      (Kubernetes.garbageCollect (S := S) now).Amid (stepOf Kubernetes.attempt) (Relation.ReflTransGen env)
        a tr result a' → NoReturn (Kubernetes.backend now) env (tr.filterMap (Kubernetes.view now)) →
      (Completes (Kubernetes.backend now) (tr.filterMap (Kubernetes.view now)) result.1 a' ↔
        EachRemoves (Kubernetes.backend now) (tr.filterMap (Kubernetes.view now)))) := by
  constructor
  · intro env db tr result db' h hreturn hkeys
    exact completes_iff (Etcd.amid_garbageCollect h) hreturn hkeys
  · intro env a tr result a' h hreturn
    exact completes_iff (Kubernetes.amid_garbageCollect h) hreturn (Kubernetes.ownKeys _)

/-- Other collectors and handlers delete. -/
def Etcd.deletions (db db' : Etcd.Db) : Prop := ∃ k key, db' = (Etcd.Db.serve (.delete k key) db).2

def Kubernetes.deletions (a a' : Kubernetes.Api) : Prop := ∃ k name, a' = (a.serve (.delete k name)).2

theorem Etcd.noReturn (now : Time) (tr : List (Made Collection.sig Etcd.Db)) :
    NoReturn (Etcd.backend now) Etcd.deletions tr := by
  apply noReturn_of_shrinks
  rintro db db' ⟨k, key, rfl⟩
  exact Etcd.serve_shrinks k key db

def Etcd.stale : Etcd.Db :=
  (Versioned.empty.write .authRequest "auth_req/a" { id := "a", expiry := 5 }).write .authCode "auth_code/c"
    { id := "c", expiry := 5 }

def Kubernetes.stale : Kubernetes.Api :=
  (Kubernetes.Api.empty.write .authRequest
    (Kubernetes.fromStorageAuthRequest (Etcd.toStorage .authRequest { id := "a", expiry := 5 }))).write .authCode
    (Kubernetes.fromStorageAuthCode (Etcd.toStorage .authCode { id := "c", expiry := 5 }))

/-- Nobody else does anything. -/
def Etcd.undisturbed : Option (List (Made (Etcd.sig nothing) Etcd.Db) × (GCResult × Option Error) × Etcd.Db) :=
  (Etcd.garbageCollect 10).play Etcd.attempt (List.replicate 4 (id, .answered)) Etcd.stale

theorem undisturbed_completes : ∃ tr result db',
    (Etcd.garbageCollect (S := nothing) 10).Amid (stepOf Etcd.attempt) (Relation.ReflTransGen Etcd.deletions)
      Etcd.stale tr result db' ∧ Completes (Etcd.backend 10) (tr.filterMap (Etcd.view 10)) result.1 db' := by
  have hsome : Etcd.undisturbed.isSome = true := by decide +kernel
  obtain ⟨⟨tr, result, db'⟩, hrun⟩ := Option.isSome_iff_exists.mp hsome
  have hgood : (Etcd.undisturbed.any fun run => eachRemoves (Etcd.backend 10) (run.1.filterMap (Etcd.view 10)) &&
      ownKeys (Etcd.backend 10) (run.1.filterMap (Etcd.view 10))) = true := by decide +kernel
  simp only [hrun, Option.any_some, Bool.and_eq_true] at hgood
  have hamid : (Etcd.garbageCollect (S := nothing) 10).Amid (stepOf Etcd.attempt)
      (Relation.ReflTransGen Etcd.deletions) Etcd.stale tr result db' := by
    refine amid_of_play (fun _ => .refl) ?_ hrun
    intro t ht w
    obtain rfl := eq_of_mem_replicate ht
    exact .refl
  refine ⟨tr, result, db', hamid, ?_⟩
  exact ((collections_complete_iff nothing 10).1 Etcd.deletions _ _ _ _ hamid (Etcd.noReturn 10 _)
    (.of_all hgood.2)).mpr (eachRemoves_iff.mp hgood.1)

/-- Another instance deletes the auth request after it was listed. -/
def Etcd.overtaken : Option (List (Made (Etcd.sig nothing) Etcd.Db) × (GCResult × Option Error) × Etcd.Db) :=
  (Etcd.garbageCollect 10).play Etcd.attempt
    [(id, .answered), (fun db => (Etcd.Db.serve (.delete .authRequest "auth_req/a") db).2, .answered)] Etcd.stale

def Kubernetes.overtaken :
    Option (List (Made (Kubernetes.sig nothing) Kubernetes.Api) × (GCResult × Option Error) × Kubernetes.Api) :=
  (Kubernetes.garbageCollect 10).play Kubernetes.attempt
    [(id, .answered), (fun a => (a.serve (.delete .authRequest "a")).2, .answered)] Kubernetes.stale

/-- An object that was missing is counted, and the auth codes are not collected. -/
theorem overtaken_incomplete : (∃ tr result db',
      (Etcd.garbageCollect (S := nothing) 10).Amid (stepOf Etcd.attempt) (Relation.ReflTransGen Etcd.deletions)
        Etcd.stale tr result db' ∧
      result.1.authRequests = 1 ∧ (tr.filterMap (Etcd.view 10)).all (·.op ≠ .list .authCode) ∧
      ¬ Completes (Etcd.backend 10) (tr.filterMap (Etcd.view 10)) result.1 db') ∧ ∃ tr result a',
      (Kubernetes.garbageCollect (S := nothing) 10).Amid (stepOf Kubernetes.attempt)
        (Relation.ReflTransGen Kubernetes.deletions) Kubernetes.stale tr result a' ∧
      result.1.authRequests = 1 ∧ (tr.filterMap (Kubernetes.view 10)).all (·.op ≠ .list .authCode) ∧
      ¬ Completes (Kubernetes.backend 10) (tr.filterMap (Kubernetes.view 10)) result.1 a' := by
  constructor
  · have hplay : (Etcd.overtaken.any fun run => decide (run.2.1.1.authRequests = 1) &&
        ((run.1.filterMap (Etcd.view 10)).all (·.op ≠ .list .authCode) &&
        (run.1.filterMap (Etcd.view 10)).countP (fun c => isDelete .authRequest c && (Etcd.backend 10).removes c) == 0))
        = true := by decide +kernel
    refine exists_incomplete hplay ?_
    intro t ht db
    simp only [mem_cons, not_mem_nil, or_false] at ht
    rcases ht with rfl | rfl
    · exact .refl
    · exact .single ⟨_, _, rfl⟩
  · have hplay : (Kubernetes.overtaken.any fun run => decide (run.2.1.1.authRequests = 1) &&
        ((run.1.filterMap (Kubernetes.view 10)).all (·.op ≠ .list .authCode) &&
        (run.1.filterMap (Kubernetes.view 10)).countP
          (fun c => isDelete .authRequest c && (Kubernetes.backend 10).removes c) == 0)) = true := by decide +kernel
    refine exists_incomplete hplay ?_
    intro t ht a
    simp only [mem_cons, not_mem_nil, or_false] at ht
    rcases ht with rfl | rfl
    · exact .refl
    · exact .single ⟨_, _, rfl⟩

end KubeYamls.Store
